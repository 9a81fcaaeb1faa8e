import Mathlib

/-!
# Association lists

A map as the list of its entries.  `insert` takes out what its key held and
places the new entry in front of the first larger key, so a list built by
inserts from `[]` is in the order of its keys, the order a `BTreeMap` is walked
in.  No law of reading below needs the order, or the keys to be distinct:
reading finds the first entry of a key and every operation respects that
reading.  A sum over the entries does need distinct keys, and every operation
keeps them distinct.
-/

namespace Deed.Library.Assoc

variable {κ α : Type*} [DecidableEq κ]

/-- The value of the first entry of `key`. -/
def find? : List (κ × α) → κ → Option α
  | [], _ => none
  | (other, value) :: rest, key =>
      if other = key then some value else find? rest key

/-- Every entry whose key is not `key`. -/
def erase : List (κ × α) → κ → List (κ × α)
  | [], _ => []
  | (other, held) :: rest, key =>
      if other = key then erase rest key else (other, held) :: erase rest key

/-- No key has two entries. -/
def Distinct (entries : List (κ × α)) : Prop := (entries.map Prod.fst).Nodup

section Insert

variable [LT κ] [DecidableLT κ]

/-- Puts an entry in front of the first one with a larger key. -/
def place (key : κ) (value : α) : List (κ × α) → List (κ × α)
  | [] => [(key, value)]
  | (other, held) :: rest =>
      if key < other then (key, value) :: (other, held) :: rest
      else (other, held) :: place key value rest

/-- Writes `value` at `key`, in the order of the keys. -/
def insert (entries : List (κ × α)) (key : κ) (value : α) : List (κ × α) :=
  place key value (erase entries key)

end Insert

/-! ## Reading -/

theorem find?_erase (entries : List (κ × α)) (key other : κ) :
    find? (erase entries key) other =
      if key = other then none else find? entries other := by
  induction entries with
  | nil => simp [erase, find?]
  | cons head rest ih =>
      obtain ⟨first, held⟩ := head
      unfold erase
      split
      · next same =>
          subst same
          rw [ih]
          by_cases asked : first = other <;> simp [find?, asked]
      · next different =>
          by_cases asked : first = other
          · subst asked
            simp [find?, Ne.symm different]
          · simp [find?, ih, asked]

theorem erase_sublist (entries : List (κ × α)) (key : κ) :
    (erase entries key).Sublist entries := by
  induction entries with
  | nil => exact List.Sublist.refl _
  | cons head rest ih =>
      unfold erase
      split
      · exact ih.cons head
      · exact ih.cons_cons head

theorem find?_eq_none_iff {entries : List (κ × α)} {key : κ} :
    find? entries key = none ↔ key ∉ entries.map Prod.fst := by
  induction entries with
  | nil => simp [find?]
  | cons head rest ih =>
      simp only [find?, List.map_cons, List.mem_cons, not_or]
      split
      · next same => simp [same]
      · next different => simp [ih, Ne.symm different]

theorem mem_of_find? {entries : List (κ × α)} {key : κ} {value : α}
    (found : find? entries key = some value) : (key, value) ∈ entries := by
  induction entries with
  | nil => simp [find?] at found
  | cons head rest ih =>
      obtain ⟨first, held⟩ := head
      by_cases same : first = key
      · simp_all [find?]
      · simp only [find?, same, if_false] at found
        exact List.mem_cons_of_mem _ (ih found)

theorem find?_of_mem {entries : List (κ × α)} {key : κ} {value : α}
    (distinct : Distinct entries) (member : (key, value) ∈ entries) :
    find? entries key = some value := by
  induction entries with
  | nil => cases member
  | cons head rest ih =>
      obtain ⟨fresh, tails⟩ := List.nodup_cons.1 distinct
      rcases List.mem_cons.1 member with rfl | member
      · simp [find?]
      · have different : head.1 ≠ key := by
          rintro rfl
          exact fresh (List.mem_map.2 ⟨_, member, rfl⟩)
        simp only [find?, different, if_false]
        exact ih tails member

section Insert

variable [LT κ] [DecidableLT κ]

omit [DecidableEq κ] in
theorem place_perm (key : κ) (value : α) (entries : List (κ × α)) :
    (place key value entries).Perm ((key, value) :: entries) := by
  induction entries with
  | nil => exact List.Perm.refl _
  | cons head rest ih =>
      unfold place
      split
      · exact List.Perm.refl _
      · exact (List.Perm.cons head ih).trans (List.Perm.swap _ _ _)

theorem mem_insert {entries : List (κ × α)} {key : κ} {value : α}
    {entry : κ × α} (member : entry ∈ insert entries key value) :
    entry = (key, value) ∨ entry ∈ entries := by
  rcases List.mem_cons.1 ((place_perm key value _).mem_iff.1 member) with
    same | inside
  · exact Or.inl same
  · exact Or.inr ((erase_sublist entries key).subset inside)

theorem find?_place {entries : List (κ × α)} {key other : κ} {value : α}
    (absent : find? entries key = none) :
    find? (place key value entries) other =
      if key = other then some value else find? entries other := by
  induction entries with
  | nil => simp [place, find?]
  | cons head rest ih =>
      obtain ⟨first, held⟩ := head
      simp only [find?] at absent
      split at absent
      · cases absent
      · next different =>
          unfold place
          split
          · simp [find?]
          · simp only [find?, ih absent]
            by_cases asked : key = other
            · subst asked
              simp [different]
            · simp [asked]

theorem find?_insert (entries : List (κ × α)) (key other : κ) (value : α) :
    find? (insert entries key value) other =
      if key = other then some value else find? entries other := by
  rw [insert, find?_place (by simp [find?_erase]), find?_erase]
  split <;> rfl

@[simp]
theorem find?_insert_self (entries : List (κ × α)) (key : κ) (value : α) :
    find? (insert entries key value) key = some value := by
  simp [find?_insert]

theorem find?_insert_ne {entries : List (κ × α)} {key other : κ} {value : α}
    (different : key ≠ other) :
    find? (insert entries key value) other = find? entries other := by
  simp [find?_insert, different]

end Insert

/-! ## Distinct keys and sums -/

omit [DecidableEq κ] in
theorem Distinct.sublist {part whole : List (κ × α)}
    (distinct : Distinct whole) (inside : part.Sublist whole) : Distinct part :=
  List.Nodup.sublist (inside.map _) distinct

theorem Distinct.erase {entries : List (κ × α)} (distinct : Distinct entries)
    (key : κ) : Distinct (erase entries key) :=
  distinct.sublist (erase_sublist entries key)

variable {M : Type*} [AddCommGroup M]

/-- What the entries add up to, each counted by `weight`. -/
def sumOf (weight : κ × α → M) (entries : List (κ × α)) : M :=
  (entries.map weight).sum

theorem sumOf_erase (weight : κ × α → M) {entries : List (κ × α)}
    (distinct : Distinct entries) (key : κ) :
    sumOf weight (erase entries key) =
      sumOf weight entries -
        ((find? entries key).map fun value => weight (key, value)).getD 0 := by
  induction entries with
  | nil => simp [Assoc.erase, sumOf, find?]
  | cons head rest ih =>
      obtain ⟨first, held⟩ := head
      obtain ⟨fresh, tails⟩ := List.nodup_cons.1 distinct
      simp only [sumOf, List.map_cons, List.sum_cons] at ih ⊢
      unfold Assoc.erase find?
      split
      · next same =>
          subst same
          rw [ih tails, find?_eq_none_iff.2 fresh]
          simp
      · rw [List.map_cons, List.sum_cons, ih tails, add_sub_assoc]

section Insert

variable [LT κ] [DecidableLT κ]

theorem Distinct.insert {entries : List (κ × α)} (distinct : Distinct entries)
    (key : κ) (value : α) : Distinct (insert entries key value) := by
  have placed := (place_perm key value (Assoc.erase entries key)).map Prod.fst
  refine placed.nodup_iff.2 (List.nodup_cons.2 ⟨?_, distinct.erase key⟩)
  exact find?_eq_none_iff.1 (by simp [find?_erase])

theorem sumOf_insert (weight : κ × α → M) {entries : List (κ × α)}
    (distinct : Distinct entries) (key : κ) (value : α) :
    sumOf weight (insert entries key value) =
      weight (key, value) + (sumOf weight entries -
        ((find? entries key).map fun old => weight (key, old)).getD 0) := by
  rw [← sumOf_erase weight distinct key, insert, sumOf,
    ((place_perm key value _).map weight).sum_eq]
  rfl

end Insert

end Deed.Library.Assoc

namespace Deed.Library

/-- A map: entries of which no two have the same key. -/
structure Table (κ α : Type*) [DecidableEq κ] where
  entries : List (κ × α)
  distinct : Assoc.Distinct entries

namespace Table

variable {κ α : Type*} [DecidableEq κ]

instance [DecidableEq α] : DecidableEq (Table κ α) := fun left right =>
  decidable_of_iff (left.entries = right.entries) (by
    cases left
    cases right
    simp)

def empty : Table κ α := ⟨[], List.nodup_nil⟩

def find? (table : Table κ α) (key : κ) : Option α :=
  Assoc.find? table.entries key

def insert [LT κ] [DecidableLT κ] (table : Table κ α) (key : κ) (value : α) :
    Table κ α :=
  ⟨Assoc.insert table.entries key value, table.distinct.insert key value⟩

@[simp]
theorem find?_insert [LT κ] [DecidableLT κ] (table : Table κ α)
    (key other : κ) (value : α) :
    (table.insert key value).find? other =
      if key = other then some value else table.find? other :=
  Assoc.find?_insert _ _ _ _

/-- Every entry of a table is the one its key finds. -/
theorem find?_of_mem {table : Table κ α} {key : κ} {value : α}
    (member : (key, value) ∈ table.entries) : table.find? key = some value :=
  Assoc.find?_of_mem table.distinct member

end Table

end Deed.Library
