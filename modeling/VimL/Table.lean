namespace VimL

/-!
# Tables

Finite maps from names that remember the order in which the names were first bound. Binding a
name again keeps its place. Scopes, Dictionaries, registers and options are tables.
-/

structure Table (α : Type u) where
  entries : List (String × α)
  /-- No name is bound twice. -/
  nodup : (entries.map (·.1)).Nodup

namespace Table

variable {α : Type u} {β : Type v}

def empty : Table α := ⟨[], .nil⟩

instance : Inhabited (Table α) := ⟨empty⟩

def findIn (name : String) : List (String × α) → Option α
  | [] => none
  | (other, value) :: rest => if other = name then some value else findIn name rest

def insertIn (name : String) (value : α) : List (String × α) → List (String × α)
  | [] => [(name, value)]
  | (other, previous) :: rest =>
    if other = name then (name, value) :: rest else (other, previous) :: insertIn name value rest

theorem fst_mem_insertIn {name other : String} {value : α} {entries : List (String × α)}
    (h : other ∈ (insertIn name value entries).map (·.1)) :
    other = name ∨ other ∈ entries.map (·.1) := by
  induction entries with
  | nil => exact .inl (by simpa [insertIn] using h)
  | cons entry rest ih =>
    by_cases hn : entry.1 = name
    · simp only [insertIn, hn, if_true, List.map_cons, List.mem_cons] at h ⊢
      exact h.imp_right .inr
    · simp only [insertIn, hn, if_false, List.map_cons, List.mem_cons] at h ⊢
      rcases h with h | h
      · exact .inr (.inl h)
      · exact (ih h).imp_right .inr

theorem nodup_insertIn (name : String) (value : α) {entries : List (String × α)}
    (h : (entries.map (·.1)).Nodup) : ((insertIn name value entries).map (·.1)).Nodup := by
  induction entries with
  | nil => simp [insertIn]
  | cons entry rest ih =>
    obtain ⟨hout, hrest⟩ := List.nodup_cons.1 h
    by_cases hn : entry.1 = name
    · simpa [insertIn, hn] using h
    · simp only [insertIn, hn, if_false, List.map_cons, List.nodup_cons]
      refine ⟨fun hin => ?_, ih hrest⟩
      exact (fst_mem_insertIn hin).elim hn hout

theorem map_fst_zip_sublist {β : Type v} (names : List String) (values : List β) :
    ((names.zip values).map (·.1)).Sublist names := by
  induction names generalizing values with
  | nil => simp
  | cons name rest ih =>
    cases values with
    | nil => simp
    | cons value values => simpa using ih values

def find? (t : Table α) (name : String) : Option α := findIn name t.entries

def contains (t : Table α) (name : String) : Bool := (t.find? name).isSome

def insert (t : Table α) (name : String) (value : α) : Table α :=
  ⟨insertIn name value t.entries, nodup_insertIn name value t.nodup⟩

def erase (t : Table α) (name : String) : Table α :=
  ⟨t.entries.filter fun entry => entry.1 ≠ name, t.nodup.sublist (List.filter_sublist.map _)⟩

def keys (t : Table α) : List String := t.entries.map (·.1)

def values (t : Table α) : List α := t.entries.map (·.2)

def size (t : Table α) : Nat := t.entries.length

/-- The same names with other values, as many as there are. -/
def withValues (t : Table α) (values : List β) : Table β :=
  ⟨t.keys.zip values, t.nodup.sublist (map_fst_zip_sublist t.keys values)⟩

/-- Later entries overwrite earlier ones in place. -/
def ofList (entries : List (String × α)) : Table α :=
  entries.foldl (fun t entry => t.insert entry.1 entry.2) empty

@[simp] theorem find?_empty (name : String) : (empty : Table α).find? name = none := rfl

theorem findIn_insertIn_self (name : String) (value : α) (entries : List (String × α)) :
    findIn name (insertIn name value entries) = some value := by
  induction entries with
  | nil => simp [insertIn, findIn]
  | cons entry rest ih =>
    by_cases h : entry.1 = name <;> simp [insertIn, findIn, h, ih]

theorem findIn_insertIn_of_ne {name other : String} (h : other ≠ name) (value : α)
    (entries : List (String × α)) :
    findIn other (insertIn name value entries) = findIn other entries := by
  induction entries with
  | nil => simp [insertIn, findIn, h.symm]
  | cons entry rest ih =>
    by_cases hn : entry.1 = name
    · simp [insertIn, findIn, hn, h.symm]
    · by_cases ho : entry.1 = other <;> simp [insertIn, findIn, hn, ho, h, ih]

@[simp] theorem find?_insert_self (t : Table α) (name : String) (value : α) :
    (t.insert name value).find? name = some value :=
  findIn_insertIn_self name value t.entries

theorem find?_insert_of_ne {name other : String} (h : other ≠ name) (t : Table α) (value : α) :
    (t.insert name value).find? other = t.find? other :=
  findIn_insertIn_of_ne h value t.entries

theorem mem_of_findIn {name : String} {value : α} {entries : List (String × α)}
    (h : findIn name entries = some value) : (name, value) ∈ entries := by
  induction entries with
  | nil => simp [findIn] at h
  | cons entry rest ih =>
    by_cases hn : entry.1 = name
    · have hv : entry.2 = value := by simpa [findIn, hn] using h
      exact List.mem_cons.2 (.inl (Prod.ext hn.symm hv.symm))
    · exact List.mem_cons_of_mem _ (ih (by simpa [findIn, hn] using h))

theorem findIn_of_mem {name : String} {value : α} {entries : List (String × α)}
    (hn : (entries.map (·.1)).Nodup) (h : (name, value) ∈ entries) :
    findIn name entries = some value := by
  induction entries with
  | nil => simp at h
  | cons entry rest ih =>
    obtain ⟨hout, hrest⟩ := List.nodup_cons.1 hn
    rcases List.mem_cons.1 h with rfl | h
    · simp [findIn]
    · have hne : entry.1 ≠ name := fun he => hout (List.mem_map.2 ⟨_, h, he.symm⟩)
      simpa [findIn, hne] using ih hrest h

theorem find?_eq_some_iff {t : Table α} {name : String} {value : α} :
    t.find? name = some value ↔ (name, value) ∈ t.entries :=
  ⟨mem_of_findIn, findIn_of_mem t.nodup⟩

theorem mem_keys_iff {t : Table α} {name : String} :
    name ∈ t.keys ↔ ∃ value, t.find? name = some value := by
  simp [keys, find?_eq_some_iff]

theorem find?_insert_eq_some {t : Table α} {name other : String} {value found : α}
    (h : (t.insert name value).find? other = some found) :
    (other, found) = (name, value) ∨ t.find? other = some found := by
  by_cases hn : other = name
  · subst hn
    rw [find?_insert_self] at h
    exact .inl (by rw [Option.some.inj h])
  · rw [find?_insert_of_ne hn] at h
    exact .inr h

theorem find?_of_erase (t : Table α) {name other : String} {value : α}
    (h : (t.erase name).find? other = some value) : t.find? other = some value := by
  rw [find?_eq_some_iff] at h ⊢
  exact (List.mem_filter.1 h).1

theorem find?_erase_self (t : Table α) (name : String) : (t.erase name).find? name = none := by
  cases hfound : (t.erase name).find? name with
  | none => rfl
  | some value => simp [find?_eq_some_iff, erase] at hfound

theorem find?_erase_of_ne {name other : String} (h : other ≠ name) (t : Table α) :
    (t.erase name).find? other = t.find? other := by
  ext value
  rw [find?_eq_some_iff, find?_eq_some_iff]
  simp [erase, h]

theorem mem_of_find?_foldl_insert {entries : List (String × α)} {t : Table α} {name : String}
    {value : α} (h : (entries.foldl (fun t entry => t.insert entry.1 entry.2) t).find? name =
      some value) : (name, value) ∈ entries ∨ t.find? name = some value := by
  induction entries generalizing t with
  | nil => exact .inr h
  | cons entry rest ih =>
    rcases ih h with hin | hin
    · exact .inl (List.mem_cons_of_mem _ hin)
    · rcases find?_insert_eq_some hin with heq | hin
      · exact .inl (List.mem_cons.2 (.inl heq))
      · exact .inr hin

theorem mem_of_find?_ofList {entries : List (String × α)} {name : String} {value : α}
    (h : (ofList entries).find? name = some value) : (name, value) ∈ entries :=
  (mem_of_find?_foldl_insert h).resolve_right (by simp)

theorem insertIn_of_not_mem {name : String} {value : α} {entries : List (String × α)}
    (h : name ∉ entries.map (·.1)) : insertIn name value entries = entries ++ [(name, value)] := by
  induction entries with
  | nil => rfl
  | cons entry rest ih =>
    rw [List.map_cons, List.mem_cons, not_or] at h
    obtain ⟨hne, hrest⟩ := h
    rw [insertIn, if_neg (Ne.symm hne), ih hrest, List.cons_append]

theorem entries_foldl_insert {entries : List (String × α)} {t : Table α}
    (h : ((t.entries ++ entries).map (·.1)).Nodup) :
    (entries.foldl (fun t entry => t.insert entry.1 entry.2) t).entries = t.entries ++ entries := by
  induction entries generalizing t with
  | nil => simp
  | cons entry rest ih =>
    have hout : entry.1 ∉ t.entries.map (·.1) := by
      rw [List.map_append, List.map_cons] at h
      exact fun hin => (List.nodup_append.1 h).2.2 _ hin _ List.mem_cons_self rfl
    have hinsert : (t.insert entry.1 entry.2).entries = t.entries ++ [entry] :=
      insertIn_of_not_mem hout
    rw [List.foldl_cons, ih (by rw [hinsert]; simpa using h), hinsert, List.append_assoc]
    rfl

/-- Names that are all different keep their places. -/
theorem entries_ofList {entries : List (String × α)} (h : (entries.map (·.1)).Nodup) :
    (ofList entries).entries = entries :=
  entries_foldl_insert h

end Table

end VimL
