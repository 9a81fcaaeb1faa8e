import Deed.Library.Assoc

/-!
# Old and new evidence

Entries collected in the order of their keys, groups of the entries of one key, and two
collections of marks paired so that what is in both is paired with itself first.
-/

namespace Deed.Library

variable {κ α ι : Type*}

/-! ## Ordered sets -/

section Ordered

variable [LT α] [DecidableLT α] [DecidableEq α]

/-- Puts an element in its place, once. -/
def add (set : List α) (element : α) : List α :=
  match set with
  | [] => [element]
  | first :: rest =>
      if element < first then element :: first :: rest
      else if element = first then first :: rest
      else first :: add rest element

/-- The elements in their order, each once. -/
def addAll (set elements : List α) : List α := elements.foldl add set

theorem mem_add {set : List α} {element other : α} :
    other ∈ add set element ↔ other = element ∨ other ∈ set := by
  induction set with
  | nil => simp [add]
  | cons first rest ih =>
      rw [add]
      split
      · exact List.mem_cons
      · split
        · next same =>
            subst same
            simp
        · rw [List.mem_cons, ih, List.mem_cons]
          exact or_left_comm

theorem mem_addAll {elements set : List α} {other : α} :
    other ∈ addAll set elements ↔ other ∈ set ∨ other ∈ elements := by
  induction elements generalizing set with
  | nil => simp [addAll]
  | cons first rest ih =>
      have placed : other ∈ addAll (add set first) rest ↔ other ∈ add set first ∨ other ∈ rest :=
        ih
      rw [addAll, List.foldl_cons]
      rw [addAll] at placed
      rw [placed, mem_add, List.mem_cons, or_assoc, or_left_comm]

end Ordered

/-! ## Entries and groups -/

section Entries

variable [DecidableEq κ] [LT κ] [DecidableLT κ]

/-- The value of a key after a change; a key without one starts from `start`. -/
def Assoc.update (entries : List (κ × α)) (start : α) (key : κ) (change : α → α) :
    List (κ × α) :=
  Assoc.insert entries key (change ((Assoc.find? entries key).getD start))

theorem Assoc.getD_update (entries : List (κ × α)) (start : α) (key other : κ)
    (change : α → α) :
    (Assoc.find? (Assoc.update entries start key change) other).getD start =
      if key = other then change ((Assoc.find? entries other).getD start)
      else (Assoc.find? entries other).getD start := by
  rw [Assoc.update, Assoc.find?_insert]
  split
  · next same =>
      subst same
      rfl
  · rfl

/-- Writes several entries, one after the other. -/
def Assoc.insertAll (entries added : List (κ × α)) : List (κ × α) :=
  added.foldl (fun held entry => Assoc.insert held entry.1 entry.2) entries

omit [LT κ] [DecidableLT κ] in
theorem Assoc.erase_absent {entries : List (κ × α)} {key : κ}
    (absent : key ∉ entries.map Prod.fst) : Assoc.erase entries key = entries := by
  induction entries with
  | nil => rfl
  | cons first rest ih =>
      rw [List.map_cons, List.mem_cons, not_or] at absent
      rw [Assoc.erase, if_neg (Ne.symm absent.1), ih absent.2]

theorem Assoc.insert_perm {entries : List (κ × α)} {key : κ}
    (absent : key ∉ entries.map Prod.fst) (value : α) :
    (Assoc.insert entries key value).Perm ((key, value) :: entries) := by
  rw [Assoc.insert, Assoc.erase_absent absent]
  exact Assoc.place_perm key value entries

/-- Where no key is written twice, everything that is written is there. -/
theorem Assoc.insertAll_perm {entries added : List (κ × α)}
    (distinct : (added.map Prod.fst ++ entries.map Prod.fst).Nodup) :
    (Assoc.insertAll entries added).Perm (added ++ entries) := by
  induction added generalizing entries with
  | nil => exact List.Perm.refl _
  | cons first rest ih =>
      rw [List.map_cons, List.cons_append, List.nodup_cons, List.mem_append, not_or] at distinct
      have placed := Assoc.insert_perm distinct.1.2 first.2
      have moved : ((first :: rest).map Prod.fst ++ entries.map Prod.fst).Perm
          (rest.map Prod.fst ++ (Assoc.insert entries first.1 first.2).map Prod.fst) :=
        List.perm_middle.symm.trans ((placed.map Prod.fst).symm.append_left _)
      have fresh : (rest.map Prod.fst ++
          (Assoc.insert entries first.1 first.2).map Prod.fst).Nodup := by
        apply moved.nodup
        rw [List.map_cons, List.cons_append, List.nodup_cons, List.mem_append, not_or]
        exact distinct
      exact (ih fresh).trans ((placed.append_left rest).trans List.perm_middle)

omit [LT κ] [DecidableLT κ] in
/-- Where the keys are distinct, one of them has one entry at most. -/
theorem filter_key {entries : List (κ × α)} (distinct : (entries.map Prod.fst).Nodup)
    (key : κ) :
    (entries.filter fun entry => entry.1 = key) = [] ∨
      ∃ entry, (entries.filter fun entry => entry.1 = key) = [entry] := by
  have part : ((entries.filter fun entry => entry.1 = key).map Prod.fst).Nodup :=
    distinct.sublist (List.filter_sublist.map Prod.fst)
  have keyed : ∀ entry ∈ entries.filter fun entry => entry.1 = key, entry.1 = key :=
    fun entry member => of_decide_eq_true (List.mem_filter.1 member).2
  generalize (entries.filter fun entry => entry.1 = key) = those at part keyed
  rcases those with _ | ⟨first, _ | ⟨second, rest⟩⟩
  · exact Or.inl rfl
  · exact Or.inr ⟨first, rfl⟩
  · rw [List.forall_mem_cons, List.forall_mem_cons] at keyed
    rw [List.map_cons, List.map_cons, List.nodup_cons] at part
    refine absurd ?_ part.1
    rw [keyed.1, keyed.2.1]
    exact List.mem_cons_self

/-- The values of every key, the keys in their order. -/
def grouped (entries : List (κ × α)) : List (κ × List α) :=
  entries.foldl (fun groups entry => Assoc.update groups [] entry.1 (· ++ [entry.2])) []

theorem getD_grouped (entries : List (κ × α)) (key : κ) :
    (Assoc.find? (grouped entries) key).getD [] =
      (entries.filter fun entry => entry.1 = key).map Prod.snd := by
  have whole : ∀ groups : List (κ × List α),
      (Assoc.find? (entries.foldl
        (fun groups entry => Assoc.update groups [] entry.1 (· ++ [entry.2])) groups) key).getD
          [] =
        (Assoc.find? groups key).getD [] ++
          (entries.filter fun entry => entry.1 = key).map Prod.snd := by
    induction entries with
    | nil => exact fun groups => (List.append_nil _).symm
    | cons entry rest ih =>
        intro groups
        rw [List.foldl_cons, ih, Assoc.getD_update, List.filter_cons]
        by_cases same : entry.1 = key
        · simp [same]
        · simp [same]
  exact whole []

/-- A group holds what the entries of its key hold. -/
theorem grouped_of_mem {entries : List (κ × α)} {key : κ} {values : List α}
    (member : (key, values) ∈ grouped entries) :
    values = (entries.filter fun entry => entry.1 = key).map Prod.snd := by
  have distinct : ∀ groups : List (κ × List α), Assoc.Distinct groups →
      Assoc.Distinct (entries.foldl
        (fun groups entry => Assoc.update groups [] entry.1 (· ++ [entry.2])) groups) := by
    clear member
    induction entries with
    | nil => exact fun groups kept => kept
    | cons entry rest ih => exact fun groups kept => ih _ (kept.insert _ _)
  have found := Assoc.find?_of_mem (distinct [] List.nodup_nil) member
  have held := getD_grouped entries key
  rw [grouped, found] at held
  exact held

end Entries

/-! ## Pairing -/

section Pairing

variable [DecidableEq α]

/--
Takes out of both sides the marks that are on both, one for one: what is left of the old
ones and, with their places, of the new ones.
-/
def cancel : List α → List (ι × α) → List α × List (ι × α)
  | olds, [] => (olds, [])
  | olds, new :: rest =>
      if new.2 ∈ olds then cancel (olds.erase new.2) rest
      else
        let (left, kept) := cancel olds rest
        (left, new :: kept)

theorem cancel_parts (olds : List α) (news : List (ι × α)) :
    ∃ shared : List α, olds.Perm (shared ++ (cancel olds news).1) ∧
      (news.map Prod.snd).Perm (shared ++ (cancel olds news).2.map Prod.snd) := by
  induction news generalizing olds with
  | nil => exact ⟨[], List.Perm.refl _, List.Perm.refl _⟩
  | cons new rest ih =>
      rw [cancel]
      split
      · next present =>
          obtain ⟨shared, old, fresh⟩ := ih (olds.erase new.2)
          refine ⟨new.2 :: shared, ?_, fresh.cons new.2⟩
          exact (List.perm_cons_erase present).trans (old.cons new.2)
      · obtain ⟨shared, old, fresh⟩ := ih olds
        refine ⟨shared, old, ?_⟩
        exact (fresh.cons new.2).trans List.perm_middle.symm

theorem cancel_subset (olds : List α) (news : List (ι × α)) :
    ∀ mark ∈ (cancel olds news).1, mark ∈ olds := by
  obtain ⟨shared, old, -⟩ := cancel_parts olds news
  intro mark member
  exact old.mem_iff.2 (List.mem_append_right _ member)

/-- No mark is left on both sides. -/
theorem cancel_disjoint (olds : List α) (news : List (ι × α)) :
    ∀ new ∈ (cancel olds news).2, new.2 ∉ (cancel olds news).1 := by
  induction news generalizing olds with
  | nil => exact fun new member => absurd member List.not_mem_nil
  | cons first rest ih =>
      rw [cancel]
      split
      · exact ih _
      · next absent =>
          intro new member
          rcases List.mem_cons.1 member with rfl | member
          · exact fun inside => absent (cancel_subset olds rest _ inside)
          · exact ih olds new member

/-- Nothing new is left where the marks are the same. -/
theorem cancel_same {olds : List α} {news : List (ι × α)}
    (same : olds.Perm (news.map Prod.snd)) : (cancel olds news).2 = [] := by
  obtain ⟨shared, old, fresh⟩ := cancel_parts olds news
  have left : (cancel olds news).1.Perm ((cancel olds news).2.map Prod.snd) :=
    (List.perm_append_left_iff shared).1 (old.symm.trans (same.trans fresh))
  rw [List.eq_nil_iff_forall_not_mem]
  intro new member
  apply cancel_disjoint olds news new member
  exact left.mem_iff.2 (List.mem_map_of_mem member)

end Pairing

end Deed.Library
