import VimL.Interp
import VimL.Proofs.WellFormed

/-!
# Parts of trees

What an expression or a statement goes on to, one step down: the expressions that it evaluates, the
blocks that it executes, and the function that it defines. A block stands in a zone, which says
where a break, a continue and a return may stand.
-/

namespace VimL

namespace Expr

/-- What a target of an assignment or a removal evaluates. -/
def targetParts : Expr → List Expr
  | .index container key => [container, key]
  | .slice container first last => container :: (first.toList ++ last.toList)
  | _ => []

/-- An entry that is called is not evaluated as a whole. -/
def calleeParts : Expr → List Expr
  | .index container key => [container, key]
  | x => [x]

def parts : Expr → List Expr
  | .list items => items
  | .dict entries => entries.flatMap fun entry => [entry.1, entry.2]
  | .index container key => [container, key]
  | .slice container first last => container :: (first.toList ++ last.toList)
  | .binary _ left right => [left, right]
  | .unary _ operand => [operand]
  | .ternary condition yes no => [condition, yes, no]
  | .call _ _ arguments => arguments
  | .callValue callee arguments => callee.calleeParts ++ arguments
  | _ => []

def KnownOperator : Expr → Prop
  | .binary op _ _ => ∀ text, op ≠ .unknown text
  | .unary op _ => ∀ text, op ≠ .unknown text
  | _ => True

variable {x y : Expr}

theorem WellFormed.targetParts (h : x.WellFormed) (hy : y ∈ x.targetParts) : y.WellFormed := by
  cases h with
  | index hcontainer hkey =>
    simp only [Expr.targetParts, List.mem_cons, List.not_mem_nil, or_false] at hy
    rcases hy with rfl | rfl
    · exact hcontainer
    · exact hkey
  | slice hcontainer hfirst hlast =>
    simp only [Expr.targetParts, List.mem_cons, List.mem_append, Option.mem_toList] at hy
    rcases hy with rfl | hy | hy
    · exact hcontainer
    · exact hfirst y hy
    · exact hlast y hy
  | _ => cases hy

theorem WellFormed.calleeParts (h : x.WellFormed) (hy : y ∈ x.calleeParts) : y.WellFormed := by
  cases x with
  | index container key => exact h.targetParts hy
  | _ =>
    obtain rfl := List.mem_singleton.1 hy
    exact h

theorem WellFormed.parts (h : x.WellFormed) (hy : y ∈ x.parts) : y.WellFormed := by
  cases h with
  | list hitems => exact hitems y hy
  | @dict entries hkeys hvalues =>
    obtain ⟨entry, hentry, hy⟩ := List.mem_flatMap.1 hy
    simp only [List.mem_cons, List.not_mem_nil, or_false] at hy
    rcases hy with rfl | rfl
    · exact hkeys entry hentry
    · exact hvalues entry hentry
  | index hcontainer hkey => exact (WellFormed.index hcontainer hkey).targetParts hy
  | slice hcontainer hfirst hlast =>
    exact (WellFormed.slice hcontainer hfirst hlast).targetParts hy
  | binary _ hleft hright =>
    simp only [Expr.parts, List.mem_cons, List.not_mem_nil, or_false] at hy
    rcases hy with rfl | rfl
    · exact hleft
    · exact hright
  | unary _ hoperand =>
    obtain rfl := List.mem_singleton.1 hy
    exact hoperand
  | ternary hcondition hyes hno =>
    simp only [Expr.parts, List.mem_cons, List.not_mem_nil, or_false] at hy
    rcases hy with rfl | rfl | rfl
    · exact hcondition
    · exact hyes
    · exact hno
  | call scope name harguments => exact harguments y hy
  | callValue hcallee harguments =>
    rcases List.mem_append.1 hy with hy | hy
    · exact hcallee.calleeParts hy
    · exact harguments y hy
  | _ => cases hy

theorem WellFormed.knownOperator (h : x.WellFormed) : x.KnownOperator := by
  cases h with
  | binary hop => exact hop
  | unary hop => exact hop
  | _ => trivial

end Expr

/-! ## Zones -/

/-- Where a statement stands: inside a loop, inside a function, or both. A function begins anew
outside of loops. -/
structure Zone where
  inLoop : Bool
  inFunction : Bool

namespace Zone

def top : Zone := ⟨false, false⟩

def function : Zone := ⟨false, true⟩

def loop (z : Zone) : Zone := { z with inLoop := true }

def outOfLoops (z : Zone) : Zone := { z with inLoop := false }

end Zone

/-- A block that stands in a zone may end in this way. -/
def Signal.Fits (z : Zone) : Signal → Prop
  | .loopBreak | .loopContinue => z.inLoop
  | .result _ => z.inFunction
  | .normal | .finish => True

/-- What a loop makes of the end of its body fits where the loop stands. -/
theorem Signal.Fits.leaveLoop {z : Zone} {signal : Signal} (h : signal.Fits z.loop)
    (hbreak : signal ≠ .loopBreak) (hcontinue : signal ≠ .loopContinue) : signal.Fits z := by
  cases signal with
  | loopBreak => exact absurd rfl hbreak
  | loopContinue => exact absurd rfl hcontinue
  | _ => exact h

namespace Stmt

def parts : Stmt → List Expr
  | .assign target _ value => target.targetParts ++ [value]
  | .unlet targets _ => targets.flatMap Expr.targetParts
  | .lock targets _ | .unlock targets _ => targets
  | .echo values => values
  | .evaluate value | .throw value => [value]
  | .branch cases _ => cases.map (·.1)
  | .whileLoop condition _ => [condition]
  | .forEach _ values _ | .forUnpack _ values _ => [values]
  | .dictFunction target _ => target.targetParts
  | .giveBack value => value.toList
  | _ => []

def blocks : Stmt → List (List Stmt)
  | .branch cases otherwise => otherwise :: cases.map (·.2)
  | .whileLoop _ body | .forEach _ _ body | .forUnpack _ _ body => [body]
  | .tryCatch body catches final => body :: (catches.map (·.2) ++ final.toList)
  | _ => []

/-- The zone of the blocks of a statement. -/
def inner (z : Zone) : Stmt → Zone
  | .whileLoop .. | .forEach .. | .forUnpack .. => z.loop
  | _ => z

/-- What the function is made of that a statement defines. A function that is stored as an entry
needs a receiver. -/
def definition? : Stmt → Option (Procedure Stmt)
  | .function _ _ definition => some definition
  | .dictFunction _ definition => some { definition with dict := true }
  | _ => none

/-- A numbered function is stored as an entry. -/
def HasEntryTarget : Stmt → Prop
  | .dictFunction target _ => ∃ container key, target = .index container key
  | _ => True

/-- The command may be used where the statement stands. -/
def StandsIn (z : Zone) : Stmt → Prop
  | .breakLoop | .continueLoop => z.inLoop
  | .giveBack _ => z.inFunction
  | _ => True

def isWhile : Stmt → Bool
  | .whileLoop .. => true
  | _ => false

/-- The statement may bind variables or names of functions. -/
def binds : Stmt → Bool
  | .assign .. | .unlet .. | .forEach .. | .forUnpack .. | .function .. | .deleteFunction .. => true
  | _ => false

def isTry : Stmt → Bool
  | .tryCatch .. => true
  | _ => false

def isThrow : Stmt → Bool
  | .throw _ => true
  | _ => false

variable {s t : Stmt} {x : Expr} {body : List Stmt}

theorem WellFormed.parts (h : s.WellFormed) (hx : x ∈ s.parts) : x.WellFormed := by
  cases h with
  | assign op htarget hvalue =>
    rcases List.mem_append.1 hx with hx | hx
    · exact htarget.targetParts hx
    · obtain rfl := List.mem_singleton.1 hx
      exact hvalue
  | unlet force htargets =>
    obtain ⟨target, htarget, hx⟩ := List.mem_flatMap.1 hx
    exact (htargets target htarget).targetParts hx
  | lock depth htargets | unlock depth htargets => exact htargets x hx
  | echo hvalues => exact hvalues x hx
  | evaluate hvalue | throw hvalue =>
    obtain rfl := List.mem_singleton.1 hx
    exact hvalue
  | branch hconditions =>
    obtain ⟨branch, hbranch, rfl⟩ := List.mem_map.1 hx
    exact hconditions branch hbranch
  | whileLoop hcondition =>
    obtain rfl := List.mem_singleton.1 hx
    exact hcondition
  | forEach target hvalues | forUnpack targets hvalues =>
    obtain rfl := List.mem_singleton.1 hx
    exact hvalues
  | dictFunction hcontainer hkey => exact (Expr.WellFormed.index hcontainer hkey).targetParts hx
  | giveBack hvalue => exact hvalue x (Option.mem_toList.1 hx)
  | _ => cases hx

theorem WellFormed.blocks (h : s.WellFormed) (hbody : body ∈ s.blocks) (ht : t ∈ body) :
    t.WellFormed := by
  cases h with
  | branch _ hbodies hotherwise =>
    rcases List.mem_cons.1 hbody with rfl | hbody
    · exact hotherwise t ht
    · obtain ⟨branch, hbranch, rfl⟩ := List.mem_map.1 hbody
      exact hbodies branch hbranch t ht
  | whileLoop _ hall | forEach _ _ hall | forUnpack _ _ hall =>
    obtain rfl := List.mem_singleton.1 hbody
    exact hall t ht
  | tryCatch hall hcatches hfinal =>
    simp only [Stmt.blocks, List.mem_cons, List.mem_append, List.mem_map, Option.mem_toList]
      at hbody
    rcases hbody with rfl | ⟨clause, hclause, rfl⟩ | hbody
    · exact hall t ht
    · exact hcatches clause hclause t ht
    · exact hfinal body hbody t ht
  | _ => cases hbody

theorem WellFormed.definition {d : Procedure Stmt} (h : s.WellFormed) (hd : d ∈ s.definition?) :
    d.HeadWellFormed ∧ ∀ t ∈ d.body, t.WellFormed := by
  cases h with
  | function scope name hhead hbody =>
    obtain rfl := Option.some.inj hd
    exact ⟨hhead, hbody⟩
  | dictFunction _ _ hhead hbody =>
    obtain rfl := Option.some.inj hd
    exact ⟨⟨hhead.declared, hhead.defaults⟩, hbody⟩
  | _ => cases hd

theorem WellFormed.hasEntryTarget (h : s.WellFormed) : s.HasEntryTarget := by
  cases h with
  | dictFunction => exact ⟨_, _, rfl⟩
  | _ => trivial

end Stmt

end VimL
