/-!
# Finite maps keyed by names

A map from names to values, kept as a list of entries whose names increase.  Names are ordered by
code points.  Each map has one representation, so equal maps are equal values, and the entries
come out in name order.

- `NameMap.insert` binds a name, replacing an earlier entry of that name;
- `NameMap.find?` looks a name up; `find?_insert` says what one does to the other;
- `NameMap.ofList` collects entries, the last entry of a name winning; `ofList_entries` says that
  the entries of a map give the map back.
-/

namespace StackBackend

/-- The names of a list of entries increase. -/
def NamesIncrease {α : Type} (entries : List (String × α)) : Prop :=
  entries.Pairwise (fun a b => a.1 < b.1)

theorem namesIncrease_nil {α : Type} : NamesIncrease ([] : List (String × α)) := .nil

/-- A finite map from names to values. -/
structure NameMap (α : Type) where
  entries : List (String × α) := []
  increasing : NamesIncrease entries := by exact namesIncrease_nil

namespace NameMap

variable {α : Type}

@[ext] theorem ext {m n : NameMap α} (h : m.entries = n.entries) : m = n := by
  cases m; cases n; cases h; rfl

instance [DecidableEq α] : DecidableEq (NameMap α) := fun m n =>
  decidable_of_iff (m.entries = n.entries) ⟨ext, fun h => h ▸ rfl⟩

instance : Inhabited (NameMap α) := ⟨{}⟩

/-- Place an entry among others, in front of the first greater name. -/
def insertEntry (name : String) (value : α) : List (String × α) → List (String × α)
  | [] => [(name, value)]
  | entry :: rest =>
    if name < entry.1 then (name, value) :: entry :: rest
    else if name = entry.1 then (name, value) :: rest
    else entry :: insertEntry name value rest

theorem mem_insertEntry {name : String} {value : α} {entries : List (String × α)}
    {e : String × α} (h : e ∈ insertEntry name value entries) :
    e = (name, value) ∨ e ∈ entries := by
  induction entries with
  | nil => simpa [insertEntry] using h
  | cons entry rest ih =>
    rw [insertEntry] at h
    split at h
    · simpa using h
    · split at h
      · rcases List.mem_cons.1 h with h | h
        · exact .inl h
        · exact .inr (List.mem_cons_of_mem _ h)
      · rcases List.mem_cons.1 h with h | h
        · exact .inr (h ▸ List.mem_cons_self)
        · exact (ih h).imp id (List.mem_cons_of_mem _)

theorem increase_insertEntry (name : String) (value : α) {entries : List (String × α)}
    (h : NamesIncrease entries) : NamesIncrease (insertEntry name value entries) := by
  induction entries with
  | nil => simp [insertEntry, NamesIncrease]
  | cons entry rest ih =>
    obtain ⟨head, tail⟩ := List.pairwise_cons.1 h
    rw [insertEntry]
    split
    · next lt =>
      refine List.pairwise_cons.2 ⟨fun e he => ?_, h⟩
      rcases List.mem_cons.1 he with rfl | he
      · exact lt
      · exact String.lt_trans lt (head e he)
    · next notLt =>
      split
      · next same =>
        exact List.pairwise_cons.2 ⟨fun e he => by simpa [same] using head e he, tail⟩
      · next differ =>
        refine List.pairwise_cons.2 ⟨fun e he => ?_, ih tail⟩
        rcases mem_insertEntry he with rfl | he
        · exact Std.lt_of_le_of_ne (String.not_lt.1 notLt) (Ne.symm differ)
        · exact head e he

/-- Bind a name, replacing an earlier entry of that name. -/
def insert (m : NameMap α) (name : String) (value : α) : NameMap α where
  entries := insertEntry name value m.entries
  increasing := increase_insertEntry name value m.increasing

/-- The value bound to a name. -/
def find? (m : NameMap α) (name : String) : Option α :=
  m.entries.lookup name

/-- Collect entries, later entries of a name replacing earlier ones. -/
def ofList (entries : List (String × α)) : NameMap α :=
  entries.foldl (fun m e => m.insert e.1 e.2) {}

/-! ## What insertion does to look-up -/

theorem lookup_entry (other name : String) (value : α) (rest : List (String × α)) :
    ((name, value) :: rest).lookup other =
      if other = name then some value else rest.lookup other := by
  by_cases same : other = name
  · simp [same]
  · simp [List.lookup_cons, beq_eq_false_iff_ne.2 same, same]

theorem lookup_insertEntry (name other : String) (value : α) {entries : List (String × α)}
    (h : NamesIncrease entries) :
    (insertEntry name value entries).lookup other =
      if other = name then some value else entries.lookup other := by
  induction entries with
  | nil => simp [insertEntry, lookup_entry]
  | cons entry rest ih =>
    obtain ⟨key, old⟩ := entry
    have tail : NamesIncrease rest := (List.pairwise_cons.1 h).2
    rw [insertEntry]
    split
    · rw [lookup_entry]
    · split
      · next same =>
        subst same
        by_cases hit : other = name <;> simp [lookup_entry, hit]
      · next differ =>
        rw [lookup_entry, ih tail, lookup_entry]
        by_cases hit : other = name <;> simp [hit, differ]

/-- **Look-up after insertion** sees the new value under its name and the old map elsewhere. -/
theorem find?_insert (m : NameMap α) (name other : String) (value : α) :
    (m.insert name value).find? other = if other = name then some value else m.find? other :=
  lookup_insertEntry name other value m.increasing

@[simp] theorem find?_empty (name : String) : ({} : NameMap α).find? name = none := rfl

/-! ## Entries give the map back -/

theorem insertEntry_append {name : String} {value : α} {entries : List (String × α)}
    (h : ∀ e ∈ entries, e.1 < name) :
    insertEntry name value entries = entries ++ [(name, value)] := by
  induction entries with
  | nil => rfl
  | cons entry rest ih =>
    have lt : entry.1 < name := h entry List.mem_cons_self
    have notLt : ¬ name < entry.1 := fun c => String.lt_irrefl _ (String.lt_trans lt c)
    have differ : name ≠ entry.1 := fun c => String.lt_irrefl _ (c ▸ lt)
    simp [insertEntry, notLt, differ, ih fun e he => h e (List.mem_cons_of_mem _ he)]

theorem entries_foldl_insert (rest : List (String × α)) (m : NameMap α)
    (h : NamesIncrease (m.entries ++ rest)) :
    (rest.foldl (fun m e => m.insert e.1 e.2) m).entries = m.entries ++ rest := by
  induction rest generalizing m with
  | nil => simp
  | cons e rest ih =>
    have before : ∀ x ∈ m.entries, x.1 < e.1 := fun x hx =>
      (List.pairwise_append.1 h).2.2 x hx e List.mem_cons_self
    have grown : (m.insert e.1 e.2).entries = m.entries ++ [e] := insertEntry_append before
    rw [List.foldl_cons, ih (m.insert e.1 e.2) (by simpa [grown] using h), grown]
    simp

/-- Collecting the entries of a map gives the map back. -/
theorem ofList_entries (m : NameMap α) : ofList m.entries = m :=
  ext (by simpa [ofList] using entries_foldl_insert m.entries {} (by simpa using m.increasing))

end NameMap

end StackBackend
