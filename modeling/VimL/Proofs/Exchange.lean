import Mathlib.Data.List.Forall2
import Mathlib.Data.List.Perm.Subperm
import VimL.Json.Exchange
import VimL.Proofs.Additions
import VimL.Proofs.Equality
import VimL.Proofs.JsonText
import VimL.Proofs.Steps
import VimL.Session

/-!
# Values as documents

A document writes a value if it has the same Numbers and Strings, items and entries in the same
places. Encoding finds the document that writes a value, and decoding makes a new value that the
document writes. Two values that one document writes have the same contents.
-/

namespace VimL

namespace Heap

/-- Numbers, Strings, Lists and Dictionaries. -/
def exchangedKinds : List Kind := [.number, .string, .list, .dictionary]

/-- The document has the contents of the value. -/
inductive WrittenAs (h : Heap) : Ref → Json → Prop where
  | number {r : Ref} {n : Int} (hv : h.value r = .number n) : WrittenAs h r (.integer n)
  | string {r : Ref} {s : String} (hv : h.value r = .string s) : WrittenAs h r (.text s)
  | list {r : Ref} {items : List Ref} {js : List Json} (hv : h.value r = .list items)
      (hlength : items.length = js.length)
      (hitems : ∀ s j, (s, j) ∈ items.zip js → WrittenAs h s j) : WrittenAs h r (.array js)
  | dictionary {r : Ref} {entries : Table Ref} {js : List (String × Json)}
      (hv : h.value r = .dictionary entries) (hkeys : js.map (·.1) = entries.keys)
      (hvalues : ∀ s j, (s, j) ∈ entries.values.zip (js.map (·.2)) → WrittenAs h s j) :
      WrittenAs h r (.object js)

variable {h h' : Heap} {r s : Ref} {j : Json}

namespace WrittenAs

theorem length_values {entries : Table Ref} {js : List (String × Json)}
    (hkeys : js.map (·.1) = entries.keys) : entries.values.length = (js.map (·.2)).length := by
  have hlength := congrArg List.length hkeys
  simpa [Table.keys, Table.values] using hlength.symm

theorem alike_row {items items' : List Ref} {js : List Json}
    (halike : List.Forall₂ (fun s j => ∀ s', h'.WrittenAs s' j → h.Alike h' s s') items js)
    (hitems' : List.Forall₂ h'.WrittenAs items' js) : List.Forall₂ (h.Alike h') items items' := by
  induction halike generalizing items' with
  | nil =>
    cases hitems'
    exact .nil
  | cons hfirst _ ih =>
    cases hitems' with
    | cons hfirst' hrest' => exact .cons (hfirst _ hfirst') (ih hrest')

/-- Two values that one document writes have the same contents. -/
theorem alike (hr : h.WrittenAs r j) (hs : h'.WrittenAs s j) : h.Alike h' r s := by
  induction hr generalizing s with
  | number hv =>
    cases hs with
    | number hv' => exact .number hv hv'
  | string hv =>
    cases hs with
    | string hv' => exact .string hv hv'
  | list hv hlength hitems ih =>
    cases hs with
    | list hv' hlength' hitems' =>
      exact .list hv hv' (alike_row
        (List.forall₂_iff_zip.2 ⟨hlength, fun hin s' hs' => ih _ _ hin hs'⟩)
        (List.forall₂_iff_zip.2 ⟨hlength', hitems' _ _⟩))
  | dictionary hv hkeys hvalues ih =>
    cases hs with
    | dictionary hv' hkeys' hvalues' =>
      exact .dictionary hv hv' (hkeys.symm.trans hkeys') (alike_row
        (List.forall₂_iff_zip.2 ⟨length_values hkeys, fun hin s' hs' => ih _ _ hin hs'⟩)
        (List.forall₂_iff_zip.2 ⟨length_values hkeys', hvalues' _ _⟩))

theorem plain_row {items : List Ref} {js : List Json} (hlength : items.length = js.length)
    (hitems : ∀ s j, (s, j) ∈ items.zip js → j.Plain) : ∀ j ∈ js, j.Plain := by
  intro j hj
  have hrow : List.Forall₂ (fun _ j => j.Plain) items js :=
    List.forall₂_iff_zip.2 ⟨hlength, hitems _ _⟩
  obtain ⟨s, -, hplain⟩ := exists_mem_of_forall₂ hrow.flip hj
  exact hplain

/-- A document of Numbers in their range can be read. -/
theorem plain (hr : h.WrittenAs r j)
    (hrange : ∀ s n, h.Reaches r s → h.value s = .number n → Number.InRange n) : j.Plain := by
  induction hr with
  | number hv => exact .integer (hrange _ _ .refl hv)
  | string hv => exact .text _
  | @list r items js hv hlength hitems ih =>
    refine .array (plain_row hlength fun s j hin => ih s j hin fun t n ht => ?_)
    have hs : s ∈ (h.value r).parts := by
      rw [hv]
      exact (List.of_mem_zip hin).1
    exact hrange t n (.head hs ht)
  | @dictionary r entries js hv hkeys hvalues ih =>
    have hnodup : (js.map (·.1)).Nodup := hkeys ▸ entries.nodup
    refine .object hnodup fun entry hentry => ?_
    refine plain_row (length_values hkeys) (fun s j hin => ih s j hin fun t n ht => ?_) entry.2
      (List.mem_map_of_mem hentry)
    have hs : s ∈ (h.value r).parts := by
      rw [hv]
      exact (List.of_mem_zip hin).1
    exact hrange t n (.head hs ht)

end WrittenAs

/-! ## Encoding -/

/-- A row of different objects is not longer than the heap. -/
theorem length_le_size {path : List Ref} (hnodup : path.Nodup)
    (hexist : ∀ p ∈ path, p.index < h.size) : path.length ≤ h.size := by
  have hindices : (path.map (·.index)).Nodup :=
    hnodup.map fun p q heq => by
      cases p
      cases q
      exact congrArg Ref.mk heq
  have hsubset : path.map (·.index) ⊆ List.range h.size := by
    intro n hn
    obtain ⟨p, hp, rfl⟩ := List.mem_map.1 hn
    exact List.mem_range.2 (hexist p hp)
  have hle := (hindices.subperm hsubset).length_le
  simpa using hle

/-- The containers that have been entered on the way to an object. -/
structure Entered (h : Heap) (path : List Ref) (r : Ref) : Prop where
  above : h.Above path r
  nodup : path.Nodup
  exist : ∀ p ∈ path, p.index < h.size

namespace Entered

variable {path : List Ref}

theorem length_le (hpath : h.Entered path r) : path.length ≤ h.size :=
  length_le_size hpath.nodup hpath.exist

theorem part (hpath : h.Entered path r) (hr : h.Acyclic r) (hs : s ∈ (h.value r).parts) :
    h.Entered (r :: path) s where
  above := hpath.above.part hs
  nodup := List.nodup_cons.2 ⟨hpath.above.not_mem (hr r .refl), hpath.nodup⟩
  exist := List.forall_mem_cons.2 ⟨lt_size_of_mem_parts hs, hpath.exist⟩

end Entered

theorem exists_convertEach {convert : Ref → Except Stop Json} {items : List Ref}
    (hitems : ∀ s ∈ items, ∃ j, convert s = .ok j ∧ h.WrittenAs s j) :
    ∃ js, convertEach convert items = .ok js ∧ List.Forall₂ h.WrittenAs items js := by
  induction items with
  | nil => exact ⟨[], rfl, .nil⟩
  | cons s rest ih =>
    obtain ⟨j, hconvert, hj⟩ := hitems s List.mem_cons_self
    obtain ⟨js, hrest, hjs⟩ := ih fun s hs => hitems s (List.mem_cons_of_mem _ hs)
    exact ⟨j :: js, by simp only [convertEach, hconvert, hrest], .cons hj hjs⟩

/-- The fuel and the containers that have been entered exceed the number of objects. -/
theorem exists_toJsonFrom {fuel : Nat} {path : List Ref} (hmade : h.IsMadeOf exchangedKinds r)
    (hacyclic : h.Acyclic r) (hpath : h.Entered path r) (hfuel : h.size < fuel + path.length) :
    ∃ j, h.toJsonFrom fuel path r = .ok j ∧ h.WrittenAs r j := by
  induction fuel generalizing path r with
  | zero =>
    have hle := hpath.length_le
    omega
  | succ fuel ih =>
    have hnot : r ∉ path := hpath.above.not_mem (hacyclic r .refl)
    have hparts : ∀ s ∈ (h.value r).parts,
        ∃ j, h.toJsonFrom fuel (r :: path) s = .ok j ∧ h.WrittenAs s j := fun s hs =>
      ih (hmade.part hs) (hacyclic.part hs) (hpath.part hacyclic hs)
        (by rw [List.length_cons]; omega)
    -- the kinds that cannot be exchanged are ruled out by what the value is made of
    have hkind := hmade.kind_mem
    cases hv : h.value r with
    | number n => exact ⟨.integer n, by simp only [toJsonFrom, hv], .number hv⟩
    | string text => exact ⟨.text text, by simp only [toJsonFrom, hv], .string hv⟩
    | list items =>
      rw [hv] at hparts
      obtain ⟨js, hjs, hrow⟩ := exists_convertEach hparts
      rw [show (Value.list items).parts = items from rfl] at hjs hrow
      obtain ⟨hlength, hitems⟩ := List.forall₂_iff_zip.1 hrow
      refine ⟨.array js, ?_, .list hv hlength fun s j hin => hitems hin⟩
      simp only [toJsonFrom, hv, if_neg hnot]
      rw [hjs]
      rfl
    | dictionary entries =>
      rw [hv] at hparts
      obtain ⟨js, hjs, hrow⟩ := exists_convertEach hparts
      rw [show (Value.dictionary entries).parts = entries.values from rfl] at hjs hrow
      have hlength : entries.keys.length = js.length := by
        simpa [Table.keys, Table.values] using hrow.length_eq
      have hfirst : (entries.keys.zip js).map (·.1) = entries.keys :=
        List.map_fst_zip (Nat.le_of_eq hlength)
      have hsecond : (entries.keys.zip js).map (·.2) = js :=
        List.map_snd_zip (Nat.le_of_eq hlength.symm)
      refine ⟨.object (entries.keys.zip js), ?_, .dictionary hv hfirst fun s j hin => ?_⟩
      · simp only [toJsonFrom, hv, if_neg hnot, hjs]
        rfl
      · rw [hsecond] at hin
        exact (List.forall₂_iff_zip.1 hrow).2 hin
    | float x => simp [hv, Value.kind, exchangedKinds] at hkind
    | blob bytes => simp [hv, Value.kind, exchangedKinds] at hkind
    | funcref f => simp [hv, Value.kind, exchangedKinds] at hkind

/-! ## Decoding -/

/-- All that can be reached is at or above this identity, and it exists. -/
def IsNew (h : Heap) (first : Nat) (r : Ref) : Prop :=
  ∀ s, h.Reaches r s → first ≤ s.index ∧ s.index < h.size

theorem IsNew.part {first : Nat} (hr : h.IsNew first r) (hs : s ∈ (h.value r).parts) :
    h.IsNew first s :=
  fun t ht => hr t (.head hs ht)

theorem IsNew.value_eq {first : Nat} (hr : h.IsNew first r) (hh : h.Extends h') :
    h'.value r = h.value r := by
  unfold value
  rw [hh.cell r (hr r .refl).2]

theorem IsNew.extends {first : Nat} (hr : h.IsNew first r) (hh : h.Extends h') :
    h'.IsNew first r := by
  intro s hs
  have hreaches : h.Reaches r s := by
    induction hs with
    | refl => exact .refl
    | @tail s t _ ht ih =>
      have hvalue : h'.value s = h.value s := by
        unfold value
        rw [hh.cell s (hr s ih).2]
      exact .tail ih (hvalue ▸ ht)
  exact ⟨(hr s hreaches).1, Nat.lt_of_lt_of_le (hr s hreaches).2 hh.size⟩

theorem isNew_new {v : Value} {first : Nat} (hfirst : first ≤ h.size)
    (hparts : ∀ s ∈ v.parts, h.IsNew first s) : (h.new v).2.IsNew first (h.new v).1 := by
  intro s hs
  rcases Relation.ReflTransGen.cases_head hs with rfl | ⟨t, ht, hs⟩
  · exact ⟨hfirst, by rw [size_new]; exact Nat.lt_succ_self _⟩
  · rw [value_new_self] at ht
    exact (hparts t ht).extends (.new h v) s hs

theorem WrittenAs.extends {first : Nat} (hr : h.WrittenAs r j) (hnew : h.IsNew first r)
    (hh : h.Extends h') : h'.WrittenAs r j := by
  induction hr with
  | number hv => exact .number ((hnew.value_eq hh).trans hv)
  | string hv => exact .string ((hnew.value_eq hh).trans hv)
  | list hv hlength hitems ih =>
    refine .list ((hnew.value_eq hh).trans hv) hlength fun s j hin => ih s j hin (hnew.part ?_)
    rw [hv]
    exact (List.of_mem_zip hin).1
  | dictionary hv hkeys hvalues ih =>
    refine .dictionary ((hnew.value_eq hh).trans hv) hkeys fun s j hin => ih s j hin (hnew.part ?_)
    rw [hv]
    exact (List.of_mem_zip hin).1

/-- A value that was made from this document. -/
structure MadeFrom (h : Heap) (first : Nat) (r : Ref) (j : Json) : Prop where
  isNew : h.IsNew first r
  written : h.WrittenAs r j

theorem MadeFrom.extends {first : Nat} (hr : h.MadeFrom first r j) (hh : h.Extends h') :
    h'.MadeFrom first r j :=
  ⟨hr.isNew.extends hh, hr.written.extends hr.isNew hh⟩

end Heap

namespace Json

/-- Decoding makes a value from the document, and what was there before stays as it is. -/
def Decodes (j : Json) : Prop :=
  ∀ (e : Engine) (first : Nat), first ≤ e.heap.size →
    ∃ s e', j.toValue e = .ok s e' ∧ e.heap.Extends e'.heap ∧ e'.heap.MadeFrom first s j

theorem toValues_decodes {js : List Json} (hjs : ∀ j ∈ js, j.Decodes) (e : Engine) {first : Nat}
    (hfirst : first ≤ e.heap.size) :
    ∃ ss e', toValues js e = .ok ss e' ∧ e.heap.Extends e'.heap ∧
      List.Forall₂ (e'.heap.MadeFrom first) ss js := by
  induction js generalizing e with
  | nil => exact ⟨[], e, rfl, .refl e.heap, .nil⟩
  | cons j rest ih =>
    obtain ⟨s, e₁, hj, hext, hmade⟩ := hjs j List.mem_cons_self e first hfirst
    obtain ⟨ss, e₂, hrest, hext', hrow⟩ := ih (fun j hj => hjs j (List.mem_cons_of_mem _ hj)) e₁
      (Nat.le_trans hfirst hext.size)
    refine ⟨s :: ss, e₂, ?_, hext.trans hext', .cons (hmade.extends hext') hrow⟩
    rw [toValues, Run.bind_of_ok hj, Run.bind_of_ok hrest]
    rfl

theorem toEntries_decodes {js : List (String × Json)} (hjs : ∀ entry ∈ js, entry.2.Decodes)
    (e : Engine) {first : Nat} (hfirst : first ≤ e.heap.size) :
    ∃ entries e', toEntries js e = .ok entries e' ∧ e.heap.Extends e'.heap ∧
      entries.map (·.1) = js.map (·.1) ∧
      List.Forall₂ (e'.heap.MadeFrom first) (entries.map (·.2)) (js.map (·.2)) := by
  induction js generalizing e with
  | nil => exact ⟨[], e, rfl, .refl e.heap, rfl, .nil⟩
  | cons entry rest ih =>
    obtain ⟨s, e₁, hj, hext, hmade⟩ := hjs entry List.mem_cons_self e first hfirst
    obtain ⟨entries, e₂, hrest, hext', hkeys, hrow⟩ :=
      ih (fun entry hentry => hjs entry (List.mem_cons_of_mem _ hentry)) e₁
        (Nat.le_trans hfirst hext.size)
    refine ⟨(entry.1, s) :: entries, e₂, ?_, hext.trans hext', congrArg (entry.1 :: ·) hkeys,
      .cons (hmade.extends hext') hrow⟩
    rw [toEntries, Run.bind_of_ok hj, Run.bind_of_ok hrest]
    rfl

theorem decodes_new {v : Value} {j : Json} {e : Engine} {first : Nat} (hfirst : first ≤ e.heap.size)
    (hparts : ∀ s ∈ v.parts, e.heap.IsNew first s)
    (hwritten : ∀ {h : Heap} {s : Ref}, e.heap.Extends h → h.value s = v → h.WrittenAs s j) :
    ∃ s e', Run.new v e = .ok s e' ∧ e.heap.Extends e'.heap ∧ e'.heap.MadeFrom first s j :=
  ⟨(e.heap.new v).1, { e with heap := (e.heap.new v).2 }, rfl, .new e.heap v,
    Heap.isNew_new hfirst hparts, hwritten (.new e.heap v) (Heap.value_new_self e.heap v)⟩

theorem Plain.decodes {j : Json} (hj : j.Plain) : j.Decodes := by
  induction hj with
  | @integer n hn =>
    intro e first hfirst
    refine decodes_new hfirst nofun fun _ hv => .number ?_
    rw [hv, Value.ofInt, Number.wrap_of_inRange hn]
  | text s =>
    intro e first hfirst
    exact decodes_new hfirst nofun fun _ hv => .string hv
  | @array js _ ih =>
    intro e first hfirst
    obtain ⟨ss, e₁, hrun, hext, hrow⟩ := toValues_decodes ih e hfirst
    have hparts : ∀ s ∈ (Value.list ss).parts, e₁.heap.IsNew first s := by
      intro s hs
      obtain ⟨j, -, hmade⟩ := exists_mem_of_forall₂ hrow hs
      exact hmade.isNew
    obtain ⟨hlength, hzip⟩ := List.forall₂_iff_zip.1 hrow
    obtain ⟨s, e₂, hnew, hext', hmade⟩ :=
      decodes_new (j := .array js) (Nat.le_trans hfirst hext.size) hparts fun hh hv =>
        .list hv hlength fun s j hin => (hzip hin).written.extends (hzip hin).isNew hh
    exact ⟨s, e₂, by rw [toValue, Run.bind_of_ok hrun, hnew], hext.trans hext', hmade⟩
  | @object js hkeys _ ih =>
    intro e first hfirst
    obtain ⟨entries, e₁, hrun, hext, hnames, hrow⟩ := toEntries_decodes ih e hfirst
    have hentries : (Table.ofList entries).entries = entries :=
      Table.entries_ofList (hnames ▸ hkeys)
    have hvalues : (Table.ofList entries).values = entries.map (·.2) := by
      rw [Table.values, hentries]
    have hparts : ∀ s ∈ (Value.dictionary (.ofList entries)).parts, e₁.heap.IsNew first s := by
      intro s hs
      rw [show (Value.dictionary (.ofList entries)).parts = entries.map (·.2) from hvalues] at hs
      obtain ⟨j, -, hmade⟩ := exists_mem_of_forall₂ hrow hs
      exact hmade.isNew
    obtain ⟨hlength, hzip⟩ := List.forall₂_iff_zip.1 hrow
    obtain ⟨s, e₂, hnew, hext', hmade⟩ :=
      decodes_new (j := .object js) (Nat.le_trans hfirst hext.size) hparts fun hh hv => by
        refine .dictionary hv (by rw [Table.keys, hentries, hnames]) fun s j hin => ?_
        rw [hvalues] at hin
        exact (hzip hin).written.extends (hzip hin).isNew hh
    exact ⟨s, e₂, by rw [toValue, Run.bind_of_ok hrun, hnew], hext.trans hext', hmade⟩

end Json

namespace Run

open Heap

theorem exists_encodeJson {e : Engine} {r : Ref} (hmade : e.heap.IsMadeOf exchangedKinds r)
    (hacyclic : e.heap.Acyclic r) :
    ∃ j, encodeJson r e = .ok j.toText e ∧ e.heap.WrittenAs r j := by
  obtain ⟨j, hjson, hwritten⟩ := exists_toJsonFrom hmade hacyclic
    ⟨e.heap.above_nil r, .nil, nofun⟩ (Nat.lt_succ_self e.heap.size)
  refine ⟨j, ?_, hwritten⟩
  have hrun : encodeJson r e = (settle (e.heap.toJson r) >>= fun j => pure j.toText) e := rfl
  rw [hrun, toJson, hjson]
  rfl

theorem exists_decodeJson {j : Json} (hj : j.Plain) (e : Engine) :
    ∃ s e', decodeJson j.toText e = .ok s e' ∧ e.heap.Extends e'.heap ∧
      e'.heap.MadeFrom e.heap.size s j := by
  obtain ⟨s, e', hrun, hext, hmade⟩ := hj.decodes e e.heap.size (Nat.le_refl _)
  refine ⟨s, e', ?_, hext, hmade⟩
  simp only [decodeJson, Json.toText, String.toList_ofList, hj.not_all_isBlank, hj.parse_encode]
  exact hrun

/-- A value of Numbers, Strings, Lists and Dictionaries in which no container lies in itself is
encoded, and its text is decoded to a value with the same contents at every position, whatever was
done in between. The new value shares no container with the old one, and nothing else changes. -/
theorem decodeJson_encodeJson {e : Engine} {r : Ref} (hmade : e.heap.IsMadeOf exchangedKinds r)
    (hacyclic : e.heap.Acyclic r)
    (hrange : ∀ s n, e.heap.Reaches r s → e.heap.value s = .number n → Number.InRange n) :
    ∃ text, encodeJson r e = .ok text e ∧
      ∀ e₁ : Engine, e.heap.size ≤ e₁.heap.size →
        ∃ s e₂, decodeJson text e₁ = .ok s e₂ ∧ e.heap.Alike e₂.heap r s ∧
          e₁.heap.Extends e₂.heap ∧
          ∀ t, e.heap.Reaches r t → e₂.heap.Reaches s t → (e.heap.value t).isScalar = true := by
  obtain ⟨j, hencode, hwritten⟩ := exists_encodeJson hmade hacyclic
  refine ⟨j.toText, hencode, fun e₁ hsize => ?_⟩
  obtain ⟨s, e₂, hdecode, hext, hnew⟩ := exists_decodeJson (hwritten.plain hrange) e₁
  refine ⟨s, e₂, hdecode, hwritten.alike hnew.written, hext, fun t _ ht => ?_⟩
  by_contra hscalar
  have hlt := lt_size_of_not_isScalar e.heap t (Bool.eq_false_iff.2 hscalar)
  have hle := (hnew.isNew t ht).1
  omega

/-- A List that holds one Dictionary twice, with a key and an entry that have to be escaped, and the
least Number. -/
def sharedTwice : Heap :=
  ⟨#[.fresh (.list [⟨1⟩, ⟨1⟩, ⟨2⟩]), .fresh (.dictionary (.ofList [("\"\n", ⟨3⟩)])),
    .fresh (.number Number.minimum), .fresh (.string "\\\x01'")]⟩

theorem decodeJson_encodeJson_sharedTwice :
    ∃ text, encodeJson ⟨0⟩ ((Session.blank .standard).withHeap sharedTwice) =
        .ok text ((Session.blank .standard).withHeap sharedTwice) ∧
      ∀ e₁ : Engine, sharedTwice.size ≤ e₁.heap.size →
        ∃ s e₂, decodeJson text e₁ = .ok s e₂ ∧ sharedTwice.Alike e₂.heap ⟨0⟩ s ∧
          e₁.heap.Extends e₂.heap ∧
          ∀ t, sharedTwice.Reaches ⟨0⟩ t → e₂.heap.Reaches s t →
            (sharedTwice.value t).isScalar = true := by
  have hclosed : ∀ r ∈ [(⟨0⟩ : Ref), ⟨1⟩, ⟨2⟩, ⟨3⟩], ∀ s ∈ (sharedTwice.value r).parts,
      s ∈ [(⟨0⟩ : Ref), ⟨1⟩, ⟨2⟩, ⟨3⟩] := by
    decide
  have hmade : sharedTwice.IsMadeOf plainKinds ⟨0⟩ :=
    isMadeOf_of_closed [⟨0⟩, ⟨1⟩, ⟨2⟩, ⟨3⟩] (by decide) hclosed (by decide)
  have hnests : sharedTwice.NestsWithin 2 ⟨0⟩ := by decide
  refine decodeJson_encodeJson (e := (Session.blank .standard).withHeap sharedTwice)
    (isMadeOf_of_closed [⟨0⟩, ⟨1⟩, ⟨2⟩, ⟨3⟩] (by decide) hclosed (by decide))
    (hnests.acyclic hmade) fun s n hs hv => ?_
  have hrange : ∀ r ∈ [(⟨0⟩ : Ref), ⟨1⟩, ⟨2⟩, ⟨3⟩], ∀ n,
      sharedTwice.value r = .number n → Number.InRange n := by
    simp only [List.forall_mem_cons]
    refine ⟨nofun, nofun, ?_, nofun, nofun⟩
    intro n hn
    obtain rfl := Value.number.inj hn
    decide
  exact hrange s (hs.mem_of_closed (by decide) hclosed) n hv

end Run

end VimL
