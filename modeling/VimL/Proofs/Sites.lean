import VimL.Proofs.Discipline

/-!
# Tables in which names are bound

Names are bound in tables: of variables and of functions. Which of them a statement may bind names
in is decided by its context. A function is in the table that its own account leads to, so a
function is only taken out of a table by those who may declare functions there.
-/

namespace VimL

/-- A table in which statements bind names. -/
inductive Site where
  | bindings (p : Place)
  | functions (table : FunctionTable)

/-- All that names are bound in. -/
structure Names where
  frames : Array Frame
  scripts : Array Script
  globals : Table Ref
  vim : Table Ref
  globalFunctions : Table FunctionId

namespace Engine

variable {site : Site} {e e' e'' : Engine}

/-! ## Tables and who sees them -/

/-- A statement in this context may bind names in the table. -/
def Sees (e : Engine) (c : Context) : Site → Prop
  | .bindings p => e.InScope c p
  | .functions table => c.Declares table

def SameAt (e e' : Engine) : Site → Prop
  | .bindings p => e'.tableAt p = e.tableAt p
  | .functions table => e'.functionsAt table = e.functionsAt table

def names (e : Engine) : Names := ⟨e.frames, e.scripts, e.globals, e.vim, e.globalFunctions⟩

/-- The frame is there that the table belongs to. -/
def Has (e : Engine) : Site → Prop
  | .bindings (.locals id) | .bindings (.arguments id) => ∃ f, e.frame? id = some f
  | _ => True

theorem KeepsFrames.of_eq (h : e'.frames = e.frames) : e.KeepsFrames e' :=
  fun id f hf => ⟨f, by simpa only [frame?, h] using hf, rfl⟩

theorem KeepsFrames.of_names_eq (h : e'.names = e.names) : e.KeepsFrames e' :=
  .of_eq (congrArg Names.frames h)

theorem KeepsFrames.trans (h : e.KeepsFrames e') (h' : e'.KeepsFrames e'') :
    e.KeepsFrames e'' := by
  intro id f hf
  obtain ⟨f', hf', hclosure⟩ := h id f hf
  obtain ⟨f'', hf'', hclosure'⟩ := h' id f' hf'
  exact ⟨f'', hf'', hclosure'.trans hclosure⟩

theorem KeepsFrames.changeTable (e : Engine) (change : Table Ref → Table Ref) (p : Place) :
    e.KeepsFrames (e.changeTable change p) := by
  intro id f hf
  cases p with
  | locals other | arguments other =>
    simp only [frame?, Engine.changeTable, Array.getElem?_modify] at hf ⊢
    rw [hf]
    split
    · exact ⟨_, rfl, rfl⟩
    · exact ⟨f, rfl, rfl⟩
  | _ => exact ⟨f, hf, rfl⟩

/-- A new frame comes after those that are there. -/
theorem frame?_invoke {id : FrameId} {g : Frame} (hg : e.frame? id = some g) (f : Frame) :
    (e.invoke f).frame? id = some g := by
  have hlt : id.index < e.frames.size := (Array.getElem?_eq_some_iff.1 hg).1
  simpa only [frame?, Engine.invoke, Engine.note, Array.getElem?_push, Nat.ne_of_lt hlt, if_false]
    using hg

theorem KeepsFrames.invoke (e : Engine) (f : Frame) : e.KeepsFrames (e.invoke f) :=
  fun _ g hg => ⟨g, frame?_invoke hg f, rfl⟩

theorem Sees.mono {c : Context} (h : e.Sees c site) (hframes : e.KeepsFrames e') :
    e'.Sees c site := by
  cases site with
  | bindings p => exact InScope.mono h hframes
  | functions table => exact h

theorem Has.mono (h : e.Has site) (hframes : e.KeepsFrames e') : e'.Has site := by
  have hframe {id : FrameId} : (∃ f, e.frame? id = some f) → ∃ f, e'.frame? id = some f := by
    rintro ⟨f, hf⟩
    obtain ⟨f', hf', -⟩ := hframes id f hf
    exact ⟨f', hf'⟩
  cases site with
  | functions => trivial
  | bindings p =>
    cases p with
    | locals | arguments => exact hframe h
    | _ => trivial

namespace SameAt

theorem of_names_eq (h : e'.names = e.names) (site : Site) : e.SameAt e' site := by
  have hframes : e'.frames = e.frames := congrArg Names.frames h
  have hscripts : e'.scripts = e.scripts := congrArg Names.scripts h
  cases site with
  | bindings p =>
    cases p with
    | globals => exact congrArg Names.globals h
    | vim => exact congrArg Names.vim h
    | script id => simp only [SameAt, tableAt, script?, hscripts]
    | locals id | arguments id => simp only [SameAt, tableAt, frame?, hframes]
  | functions table =>
    cases table with
    | globals => exact congrArg Names.globalFunctions h
    | script id => simp only [SameAt, functionsAt, script?, hscripts]

theorem trans (h : e.SameAt e' site) (h' : e'.SameAt e'' site) : e.SameAt e'' site := by
  cases site with
  | bindings p => exact Eq.trans h' h
  | functions table => exact Eq.trans h' h

theorem changeTable {change : Table Ref → Table Ref} {p : Place} (hne : site ≠ .bindings p) :
    e.SameAt (e.changeTable change p) site := by
  cases site with
  | bindings q => exact tableAt_changeTable_of_ne e change fun heq => hne (congrArg _ heq)
  | functions table => exact functionsAt_changeTable e change p table

theorem changeFunctions {change : Table FunctionId → Table FunctionId} {table : FunctionTable}
    (hne : site ≠ .functions table) : e.SameAt (e.changeFunctions change table) site := by
  cases site with
  | bindings p => exact tableAt_changeFunctions e change table p
  | functions other =>
    exact functionsAt_changeFunctions_of_ne e change fun heq => hne (congrArg _ heq)

theorem invoke (h : e.Has site) (f : Frame) : e.SameAt (e.invoke f) site := by
  have hframe {id : FrameId} (hid : ∃ g, e.frame? id = some g) :
      (e.invoke f).frame? id = e.frame? id := by
    obtain ⟨g, hg⟩ := hid
    exact (frame?_invoke hg f).trans hg.symm
  cases site with
  | functions => rfl
  | bindings p =>
    cases p with
    | locals id | arguments id => simp only [SameAt, tableAt, hframe h]
    | _ => rfl

end SameAt

/-! ## Functions are where they are declared -/

namespace Housed

theorem listsOnly (h : e.Housed) : e.ListsOnly fun table _ f => Run.homeOf f = table := h

theorem of_eq (h : e.Housed) (hfunctions : e'.functions = e.functions)
    (htables : e'.functionsAt = e.functionsAt) : e'.Housed :=
  h.listsOnly.of_eq hfunctions htables

theorem of_names_eq (h : e.Housed) (hnames : e'.names = e.names)
    (hfunctions : e'.functions = e.functions) : e'.Housed :=
  h.of_eq hfunctions (funext fun table => SameAt.of_names_eq hnames (.functions table))

end Housed

end Engine

end VimL
