import VimL.Proofs.Additions
import VimL.Invocation

/-!
# Calls of native functions

A function of the library runs inside of its own call, which is over when the function is. What it
does to everything but the call stack is what the call does.
-/

namespace VimL

namespace Run

variable {host : Host} {i : Interp} {c : Context} {b : Builtin} {arguments : List Ref}
  {receiver : Option Ref} {r : Ref} {stop : Stop} {e e' : Engine}

/-! ## Arguments -/

theorem number_of_ok {n : Int} (h : (e.heap.value r).toNumber = .ok n) : number r e = .ok n e := by
  have hrun : number r e = settle (e.heap.value r).toNumber e := rfl
  rw [hrun, h]
  rfl

theorem number_of_error (h : (e.heap.value r).toNumber = .error stop) :
    number r e = .error stop e := by
  have hrun : number r e = settle (e.heap.value r).toNumber e := rfl
  rw [hrun, h]
  rfl

theorem index_of_error (h : (e.heap.value r).toIndex = .error stop) :
    index r e = .error stop e := by
  have hrun : index r e = settle (e.heap.value r).toIndex e := rfl
  rw [hrun, h]
  rfl

/-! ## Calls -/

theorem callHandler_builtin
    (hcount : Library.checkCount b.name b.arity arguments.length e = .ok () e) :
    callHandler host i c (.builtin b) arguments receiver e =
      afterwards (Library.runBuiltin ⟨host, c, i.call c⟩ b arguments) e.leave
        (e.enter (.native b.name)) :=
  bind_of_ok hcount

theorem callHandler_of_ok
    (hcount : Library.checkCount b.name b.arity arguments.length e = .ok () e)
    (h : Library.runBuiltin ⟨host, c, i.call c⟩ b arguments (e.enter (.native b.name)) =
      .ok r e') :
    callHandler host i c (.builtin b) arguments receiver e = .ok r (e.leave e') := by
  rw [callHandler_builtin hcount]
  exact afterwards_of_ok h e.leave

theorem callHandler_of_error
    (hcount : Library.checkCount b.name b.arity arguments.length e = .ok () e)
    (h : Library.runBuiltin ⟨host, c, i.call c⟩ b arguments (e.enter (.native b.name)) =
      .error stop e') :
    callHandler host i c (.builtin b) arguments receiver e = .error stop (e.leave e') := by
  rw [callHandler_builtin hcount]
  exact afterwards_of_error h e.leave

end Run

end VimL
