import VimL.Execution

namespace VimL

/-!
# The interpreter

Every step down into a part of a program uses up one unit of fuel, and every round of a loop one
of those that are left. A run that is exhausted says nothing about the program.
-/

namespace Interp

/-- An interpreter that can do nothing. -/
def spent : Interp where
  fuel := 0
  eval _ _ := throw .exhausted
  exec _ _ := throw .exhausted
  call _ _ _ _ := throw .exhausted

/-- The interpreter that goes `fuel` steps deep. -/
def ofFuel (host : Host) : Nat → Interp
  | 0 => spent
  | fuel + 1 => {
      fuel := fuel
      eval := fun c e => Run.evaluate host (ofFuel host fuel) c e
      exec := fun c s => Run.marked s.command do
        Run.record (.began c s)
        Run.execute (ofFuel host fuel) c s
      call := fun c h arguments receiver =>
        Run.callHandler host (ofFuel host fuel) c h arguments receiver }

end Interp

end VimL
