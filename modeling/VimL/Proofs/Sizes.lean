import VimL.Proofs.Parts

/-!
# Sizes of trees

What a tree goes on to is smaller than the tree, also the functions that it defines.
-/

namespace VimL

namespace Expr

variable {x y : Expr}

theorem sizeOf_pos (x : Expr) : 0 < sizeOf x := by cases x <;> simp +arith

theorem sizeOf_lt_of_mem_toList {o : Option Expr} (h : y ∈ o.toList) : sizeOf y < sizeOf o := by
  obtain rfl := Option.mem_toList.1 h
  rw [Option.some.sizeOf_spec]
  omega

theorem sizeOf_lt_of_targetParts (h : y ∈ x.targetParts) : sizeOf y < sizeOf x := by
  cases x with
  | index container key =>
    simp only [targetParts, List.mem_cons, List.not_mem_nil, or_false] at h
    rw [index.sizeOf_spec]
    rcases h with rfl | rfl <;> omega
  | slice container first last =>
    simp only [targetParts, List.mem_cons, List.mem_append] at h
    rw [slice.sizeOf_spec]
    rcases h with rfl | h | h
    · omega
    · have := sizeOf_lt_of_mem_toList h
      omega
    · have := sizeOf_lt_of_mem_toList h
      omega
  | _ => cases h

theorem sizeOf_le_of_calleeParts (h : y ∈ x.calleeParts) : sizeOf y ≤ sizeOf x := by
  cases x with
  | index container key => exact Nat.le_of_lt (sizeOf_lt_of_targetParts h)
  | _ => exact Nat.le_of_eq (congrArg _ (List.mem_singleton.1 h))

theorem sizeOf_lt_of_parts (h : y ∈ x.parts) : sizeOf y < sizeOf x := by
  cases x with
  | list items =>
    have hy : sizeOf y < sizeOf items := List.sizeOf_lt_of_mem h
    rw [list.sizeOf_spec]
    omega
  | dict entries =>
    obtain ⟨⟨key, value⟩, hentry, hy⟩ := List.mem_flatMap.1 h
    have hlt := List.sizeOf_lt_of_mem hentry
    simp only [List.mem_cons, List.not_mem_nil, or_false] at hy
    rw [Prod.mk.sizeOf_spec] at hlt
    rw [dict.sizeOf_spec]
    rcases hy with rfl | rfl <;> omega
  | index | slice => exact sizeOf_lt_of_targetParts h
  | binary op left right =>
    simp only [parts, List.mem_cons, List.not_mem_nil, or_false] at h
    rw [binary.sizeOf_spec]
    rcases h with rfl | rfl <;> omega
  | unary op operand =>
    obtain rfl := List.mem_singleton.1 h
    rw [unary.sizeOf_spec]
    omega
  | ternary condition yes no =>
    simp only [parts, List.mem_cons, List.not_mem_nil, or_false] at h
    rw [ternary.sizeOf_spec]
    rcases h with rfl | rfl | rfl <;> omega
  | call scope name arguments =>
    have hy : sizeOf y < sizeOf arguments := List.sizeOf_lt_of_mem h
    rw [call.sizeOf_spec]
    omega
  | callValue callee arguments =>
    rw [callValue.sizeOf_spec]
    rcases List.mem_append.1 h with h | h
    · have := sizeOf_le_of_calleeParts h
      omega
    · have := List.sizeOf_lt_of_mem h
      omega
  | _ => cases h

end Expr

theorem Procedure.sizeOf_lt (d : Procedure Stmt) :
    sizeOf d.body < sizeOf d ∧ sizeOf d.defaults < sizeOf d := by
  cases d
  rw [Procedure.mk.sizeOf_spec]
  constructor <;> dsimp only <;> omega

namespace Stmt

variable {s : Stmt} {x : Expr} {body : List Stmt} {d : Procedure Stmt}

theorem sizeOf_pos (s : Stmt) : 0 < sizeOf s := by cases s <;> simp +arith

theorem sizeOf_lt_of_parts (h : x ∈ s.parts) : sizeOf x < sizeOf s := by
  cases s with
  | assign target op value =>
    rw [assign.sizeOf_spec]
    rcases List.mem_append.1 h with h | h
    · have := Expr.sizeOf_lt_of_targetParts h
      omega
    · obtain rfl := List.mem_singleton.1 h
      omega
  | unlet targets force =>
    obtain ⟨target, htarget, hx⟩ := List.mem_flatMap.1 h
    have := List.sizeOf_lt_of_mem htarget
    have := Expr.sizeOf_lt_of_targetParts hx
    rw [unlet.sizeOf_spec]
    omega
  | lock targets depth =>
    have hx : sizeOf x < sizeOf targets := List.sizeOf_lt_of_mem h
    rw [lock.sizeOf_spec]
    omega
  | unlock targets depth =>
    have hx : sizeOf x < sizeOf targets := List.sizeOf_lt_of_mem h
    rw [unlock.sizeOf_spec]
    omega
  | echo values =>
    have hx : sizeOf x < sizeOf values := List.sizeOf_lt_of_mem h
    rw [echo.sizeOf_spec]
    omega
  | evaluate value =>
    obtain rfl := List.mem_singleton.1 h
    rw [evaluate.sizeOf_spec]
    omega
  | throw value =>
    obtain rfl := List.mem_singleton.1 h
    rw [throw.sizeOf_spec]
    omega
  | branch cases otherwise =>
    obtain ⟨⟨condition, body⟩, hbranch, rfl⟩ := List.mem_map.1 h
    have hlt := List.sizeOf_lt_of_mem hbranch
    rw [Prod.mk.sizeOf_spec] at hlt
    rw [branch.sizeOf_spec]
    dsimp only
    omega
  | whileLoop condition body =>
    obtain rfl := List.mem_singleton.1 h
    rw [whileLoop.sizeOf_spec]
    omega
  | forEach target values body =>
    obtain rfl := List.mem_singleton.1 h
    rw [forEach.sizeOf_spec]
    omega
  | forUnpack targets values body =>
    obtain rfl := List.mem_singleton.1 h
    rw [forUnpack.sizeOf_spec]
    omega
  | dictFunction target definition =>
    have := Expr.sizeOf_lt_of_targetParts h
    rw [dictFunction.sizeOf_spec]
    omega
  | giveBack value =>
    have := Expr.sizeOf_lt_of_mem_toList h
    rw [giveBack.sizeOf_spec]
    omega
  | _ => cases h

theorem sizeOf_lt_of_blocks (h : body ∈ s.blocks) : sizeOf body < sizeOf s := by
  cases s with
  | branch cases otherwise =>
    rw [branch.sizeOf_spec]
    rcases List.mem_cons.1 h with rfl | h
    · omega
    · obtain ⟨⟨condition, body⟩, hbranch, rfl⟩ := List.mem_map.1 h
      have hlt := List.sizeOf_lt_of_mem hbranch
      rw [Prod.mk.sizeOf_spec] at hlt
      dsimp only
      omega
  | whileLoop condition body =>
    obtain rfl := List.mem_singleton.1 h
    rw [whileLoop.sizeOf_spec]
    omega
  | forEach target values body =>
    obtain rfl := List.mem_singleton.1 h
    rw [forEach.sizeOf_spec]
    omega
  | forUnpack targets values body =>
    obtain rfl := List.mem_singleton.1 h
    rw [forUnpack.sizeOf_spec]
    omega
  | tryCatch body catches final =>
    simp only [blocks, List.mem_cons, List.mem_append, List.mem_map, Option.mem_toList] at h
    rw [tryCatch.sizeOf_spec]
    rcases h with rfl | ⟨⟨pattern, body⟩, hclause, rfl⟩ | rfl
    · omega
    · have hlt := List.sizeOf_lt_of_mem hclause
      rw [Prod.mk.sizeOf_spec] at hlt
      dsimp only
      omega
    · rw [Option.some.sizeOf_spec]
      omega
  | _ => cases h

theorem sizeOf_lt_of_definition (h : d ∈ s.definition?) :
    sizeOf d.body < sizeOf s ∧ sizeOf d.defaults < sizeOf s := by
  cases s with
  | function scope name definition =>
    obtain rfl := Option.some.inj h
    obtain ⟨hbody, hdefaults⟩ := definition.sizeOf_lt
    rw [function.sizeOf_spec]
    constructor <;> omega
  | dictFunction target definition =>
    obtain rfl := Option.some.inj h
    obtain ⟨hbody, hdefaults⟩ := definition.sizeOf_lt
    rw [dictFunction.sizeOf_spec]
    constructor <;> dsimp only <;> omega
  | _ => cases h

end Stmt

theorem Table.sizeOf_lt_of_find? {α : Type} [SizeOf α] {t : Table α} {name : String} {value : α}
    (h : t.find? name = some value) : sizeOf value < sizeOf t := by
  have hin := List.sizeOf_lt_of_mem (mem_of_findIn h)
  cases t
  rw [Prod.mk.sizeOf_spec] at hin
  rw [Table.mk.sizeOf_spec]
  dsimp only at hin
  omega

theorem Function.sizeOf_lt (f : Function) :
    sizeOf f.definition < sizeOf f ∧ sizeOf f.defaults < sizeOf f := by
  cases f
  rw [Function.mk.sizeOf_spec]
  constructor <;> dsimp only <;> omega

end VimL
