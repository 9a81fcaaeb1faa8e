import Deed.Stdlib.HashMapSound
import Deed.Stdlib.Set

/-!
# The shipped set is a finite set

A set is a hash map of which only the keys count.  Its operations are walks over one set that
build another, so each is a run of `including` over some of the items.
-/

namespace Deed.Stdlib.Set

open Deed.Stdlib.HashMap (Buckets Represents WellPlaced)

variable {T : Type*} {hash : T → Int64} {subject left right : Buckets T Bool}
  {s t : Finset T} {item : T}

/-- The keys of a map are the items of a finite set. -/
def Holds (hash : T → Int64) (subject : Buckets T Bool) (s : Finset T) : Prop :=
  ∃ m, Represents hash subject m ∧ ∀ item, (m item).isSome ↔ item ∈ s

theorem empty_holds (sample : T) (value : Bool) : Holds hash (HashMap.empty sample value) ∅ :=
  ⟨_, HashMap.empty_represents sample value, fun _ => by simp⟩

theorem Holds.mem_items (holds : Holds hash subject s) : item ∈ items subject ↔ item ∈ s := by
  obtain ⟨m, represents, domain⟩ := holds
  rw [items, represents.mem_keys, domain]

/-- A walk with a condition that its turns only clear asks each item until one fails. -/
theorem walkWhile_all (test : T → Bool) (list : List T) :
    walkWhile id (fun allIn held => allIn && test held) list true = list.all test := by
  induction list with
  | nil => rfl
  | cons held list ih =>
      rw [walkWhile, id_eq, if_pos rfl, List.all_cons, Bool.true_and]
      cases test held with
      | true => exact ih
      | false => cases list <;> rfl

variable [DecidableEq T]

namespace Holds

theorem set (holds : Holds hash subject s) (item : T) (value : Bool) :
    Holds hash (HashMap.set hash subject item value) (insert item s) := by
  obtain ⟨m, represents, domain⟩ := holds
  refine ⟨_, represents.set item value, ?_⟩
  intro other
  rw [Finset.mem_insert, ← domain]
  by_cases same : other = item
  · subst same
    rw [Function.update_self]
    exact iff_of_true rfl (.inl rfl)
  · rw [Function.update_of_ne same, or_iff_right same]

theorem including (holds : Holds hash subject s) (item : T) :
    Holds hash (including hash subject item) (insert item s) :=
  holds.set item true

theorem has (holds : Holds hash subject s) (item : T) :
    has hash subject item = decide (item ∈ s) := by
  obtain ⟨m, represents, domain⟩ := holds
  rw [Set.has, represents.had, ← Bool.decide_coe (m item).isSome]
  exact decide_eq_decide.mpr (domain item)

theorem items_toFinset (holds : Holds hash subject s) : (items subject).toFinset = s := by
  ext item
  rw [List.mem_toFinset, holds.mem_items]

/-- A walk that puts some of its items in. -/
theorem walk (holds : Holds hash subject s) (keep : T → Bool) (list : List T) :
    Holds hash
      (list.foldl (fun out held => if keep held then Set.including hash out held else out) subject)
      (s ∪ list.toFinset.filter fun item => keep item) := by
  induction list generalizing subject s with
  | nil =>
      rw [List.toFinset_nil, Finset.filter_empty, Finset.union_empty]
      exact holds
  | cons held list ih =>
      rw [List.foldl_cons, List.toFinset_cons, Finset.filter_insert]
      split_ifs with kept
      · have more := ih (holds.including held)
        rwa [Finset.insert_union, ← Finset.union_insert] at more
      · exact ih holds

theorem union (holds : Holds hash left s) (holds' : Holds hash right t) :
    Holds hash (union hash left right) (s ∪ t) := by
  have walked := holds.walk (fun _ => true) (items right)
  rw [holds'.items_toFinset, Finset.filter_true_of_mem (fun _ _ => rfl)] at walked
  exact walked

theorem intersection (holds : Holds hash left s) (holds' : Holds hash right t) (sample : T) :
    Holds hash (intersection hash left right sample) (s ∩ t) := by
  have walked := (@empty_holds T hash sample true).walk (Set.has hash right) (items left)
  have same : ∅ ∪ (items left).toFinset.filter (fun item => Set.has hash right item) = s ∩ t := by
    ext item
    simp [holds.items_toFinset, holds'.has]
  rwa [same] at walked

theorem difference (holds : Holds hash left s) (holds' : Holds hash right t) (sample : T) :
    Holds hash (difference hash left right sample) (s \ t) := by
  have walked := (@empty_holds T hash sample true).walk (fun item => !Set.has hash right item)
    (items left)
  have same : ∅ ∪ (items left).toFinset.filter (fun item => !Set.has hash right item) = s \ t := by
    ext item
    simp [holds.items_toFinset, holds'.has]
  have turn : (fun (out : Buckets T Bool) held =>
      if Set.has hash right held then out else Set.including hash out held) =
      fun out held => if !Set.has hash right held then Set.including hash out held else out := by
    funext out held
    cases Set.has hash right held <;> rfl
  rw [same] at walked
  rwa [Set.difference, turn]

theorem without (holds : Holds hash subject s) (item : T) :
    Holds hash (without hash subject item) (s.erase item) := by
  have walked := (@empty_holds T hash item true).walk (fun held => decide (held ≠ item))
    (items subject)
  have same : ∅ ∪ (items subject).toFinset.filter (fun held => decide (held ≠ item)) =
      s.erase item := by
    ext other
    simp [holds.items_toFinset, and_comm]
  have turn : (fun (out : Buckets T Bool) held =>
      if held = item then out else Set.including hash out held) =
      fun out held => if decide (held ≠ item) then Set.including hash out held else out := by
    funext out held
    by_cases same : held = item <;> simp [same]
  rw [same] at walked
  rwa [Set.without, turn]

end Holds

theorem within_eq (holds : Holds hash left s) (holds' : Holds hash right t) :
    within hash left right = decide (s ⊆ t) := by
  rw [within, walkWhile_all, Bool.eq_iff_iff, List.all_eq_true, decide_eq_true_eq]
  constructor
  · intro all item mem
    have held := all item (holds.mem_items.mpr mem)
    rwa [holds'.has, decide_eq_true_eq] at held
  · intro subset item mem
    rw [holds'.has, decide_eq_true_eq]
    exact subset (holds.mem_items.mp mem)

/-! ## Whole runs -/

/-- The operations that build a set, and those that build a map whose values are `Bool`s, which
is a set too. -/
inductive Ops (T : Type*)
  | none (sample : T)
  | one (item : T)
  | including (subject : Ops T) (item : T)
  | without (subject : Ops T) (item : T)
  | union (left right : Ops T)
  | intersection (left right : Ops T) (sample : T)
  | difference (left right : Ops T) (sample : T)
  | empty (sample : T) (value : Bool)
  | holding (item : T) (value : Bool)
  | set (subject : Ops T) (item : T) (value : Bool)

namespace Ops

/-- The set that the operations build. -/
def run (hash : T → Int64) : Ops T → Buckets T Bool
  | none sample => Set.none sample
  | one item => Set.one hash item
  | including subject item => Set.including hash (run hash subject) item
  | without subject item => Set.without hash (run hash subject) item
  | union left right => Set.union hash (run hash left) (run hash right)
  | intersection left right sample => Set.intersection hash (run hash left) (run hash right) sample
  | difference left right sample => Set.difference hash (run hash left) (run hash right) sample
  | empty sample value => HashMap.empty sample value
  | holding item value => HashMap.holding hash item value
  | set subject item value => HashMap.set hash (run hash subject) item value

/-- The finite set that the same operations build. -/
def meaning : Ops T → Finset T
  | none _ => ∅
  | one item => {item}
  | including subject item => insert item (meaning subject)
  | without subject item => (meaning subject).erase item
  | union left right => meaning left ∪ meaning right
  | intersection left right _ => meaning left ∩ meaning right
  | difference left right _ => meaning left \ meaning right
  | empty _ _ => ∅
  | holding item _ => {item}
  | set subject item _ => insert item (meaning subject)

theorem holds (ops : Ops T) : Holds hash (ops.run hash) ops.meaning := by
  induction ops with
  | none sample => exact empty_holds sample true
  | one item => exact (empty_holds item true).set item true
  | including subject item ih => exact ih.including item
  | without subject item ih => exact ih.without item
  | union left right ihLeft ihRight => exact ihLeft.union ihRight
  | intersection left right sample ihLeft ihRight => exact ihLeft.intersection ihRight sample
  | difference left right sample ihLeft ihRight => exact ihLeft.difference ihRight sample
  | empty sample value => exact empty_holds sample value
  | holding item value => exact (empty_holds item value).set item value
  | set subject item value ih => exact ih.set item value

end Ops

/-- A set answers what a finite set does. -/
structure Answers (hash : T → Int64) (subject : Buckets T Bool) (s : Finset T) : Prop where
  has : ∀ item, Set.has hash subject item = decide (item ∈ s)
  /-- The count stops where no `Int` holds it; no list is longer than an `Int` can count. -/
  count : (∀ slot ∈ subject, slot.length < 2 ^ 63) → Set.count subject = checked s.card
  once : (items subject).Nodup
  listed : ∀ item, item ∈ items subject ↔ item ∈ s

theorem Holds.answers (holds : Holds hash subject s) : Answers hash subject s where
  has := holds.has
  count := by
    intro countable
    obtain ⟨m, represents, domain⟩ := holds
    have whole : {item | (m item).isSome} = (s : Set T) := by
      ext item
      exact domain item
    rw [Set.count, represents.answers.size countable, whole, Set.ncard_coe_finset]
  once := by
    obtain ⟨m, represents, -⟩ := holds
    exact represents.answers.once
  listed := fun _ => holds.mem_items

theorem Holds.wellPlaced (holds : Holds hash subject s) : WellPlaced hash subject := by
  obtain ⟨m, represents, -⟩ := holds
  exact represents.wellPlaced

/-- The hash map and the set refine finite maps and finite sets: whatever `hash` answers and
whatever operations built them, each key is in its bucket once, and the map and the set answer
what the finite map and the finite set answer that the same operations build. -/
theorem refines_finite {K V : Type*} [DecidableEq K] (hash : K → Int64) :
    (∀ key, 0 ≤ (HashMap.bucketOf hash key).toInt ∧ (HashMap.bucketOf hash key).toInt < 64) ∧
      (∀ ops : HashMap.Ops K V, WellPlaced hash (ops.run hash) ∧
        HashMap.Answers hash (ops.run hash) ops.meaning) ∧
      (∀ ops : Ops K, WellPlaced hash (ops.run hash) ∧
        Answers hash (ops.run hash) ops.meaning) ∧
      ∀ left right : Ops K,
        within hash (left.run hash) (right.run hash) = decide (left.meaning ⊆ right.meaning) := by
  refine ⟨HashMap.bucketOf_range, ?_, ?_, ?_⟩
  · intro ops
    exact ⟨ops.represents.wellPlaced, ops.represents.answers⟩
  · intro ops
    exact ⟨ops.holds.wellPlaced, ops.holds.answers⟩
  · intro left right
    exact within_eq left.holds right.holds

end Deed.Stdlib.Set
