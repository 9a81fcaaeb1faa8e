import Mathlib

/-!
# Entries in the order of a comparator

A finite map whose keys are told apart only by a comparator, as the list of its entries with
the smaller keys in front.  Putting an entry in keeps the key that is there already and takes
the new value.  Reading finds for each key the first of the keys put in that are equivalent to
it, with the value put in last.
-/

namespace Deed.Library.Compared

variable {κ α : Type*}

section Operations

variable (cmp : κ → κ → Ordering)

/-- The entries with one more put in. -/
def put (key : κ) (value : α) : List (κ × α) → List (κ × α)
  | [] => [(key, value)]
  | (other, held) :: rest =>
      match cmp key other with
      | .lt => (key, value) :: (other, held) :: rest
      | .eq => (other, value) :: rest
      | .gt => (other, held) :: put key value rest

/-- The first entry whose key is equivalent. -/
def seek (key : κ) (entries : List (κ × α)) : Option (κ × α) :=
  entries.find? fun entry => cmp key entry.1 = .eq

/-- What some entries say about a key when each is put in after those before it. -/
def standing (puts : List (κ × α)) (key : κ) : Option (κ × α) :=
  (seek cmp key puts).bind fun first =>
    (seek cmp key puts.reverse).map fun last => (first.1, last.2)

/-- Entries put in one after the other. -/
def putAll (puts : List (κ × α)) : List (κ × α) :=
  puts.foldl (fun entries entry => put cmp entry.1 entry.2 entries) []

/-- Every key is smaller than the ones behind it. -/
def Ascending (entries : List (κ × α)) : Prop :=
  entries.Pairwise fun entry later => cmp entry.1 later.1 = .lt

end Operations

variable {cmp : κ → κ → Ordering} {key other : κ} {value held : α}
  {entries left right puts : List (κ × α)}

theorem putAll_append (last : κ × α) :
    putAll cmp (puts ++ [last]) = put cmp last.1 last.2 (putAll cmp puts) := by
  rw [putAll, List.foldl_append]
  rfl

theorem seek_cons {head : κ × α} {rest : List (κ × α)} :
    seek cmp key (head :: rest) =
      if cmp key head.1 = .eq then some head else seek cmp key rest := by
  rw [seek, List.find?_cons]
  by_cases same : cmp key head.1 = .eq
  · rw [if_pos same, decide_eq_true same]
  · rw [if_neg same, decide_eq_false same]
    rfl

theorem seek_append :
    seek cmp key (left ++ right) = (seek cmp key left).or (seek cmp key right) :=
  List.find?_append

theorem seek_reverse_none : seek cmp key puts.reverse = none ↔ seek cmp key puts = none := by
  simp only [seek, List.find?_eq_none, List.mem_reverse]

/-- What stands after one more is put in. -/
theorem standing_append (last : κ × α) :
    standing cmp (puts ++ [last]) other =
      if cmp other last.1 = .eq then
        some (((standing cmp puts other).map Prod.fst).getD last.1, last.2)
      else standing cmp puts other := by
  rw [standing, List.reverse_append, seek_append]
  show ((seek cmp other puts).or (seek cmp other (last :: []))).bind
    (fun first => (seek cmp other (last :: puts.reverse)).map fun last => (first.1, last.2)) = _
  rw [seek_cons, seek_cons]
  by_cases same : cmp other last.1 = .eq
  · rw [if_pos same, if_pos same, if_pos same, standing]
    cases first : seek cmp other puts with
    | none => rfl
    | some entry =>
        cases back : seek cmp other puts.reverse with
        | none =>
            rw [seek_reverse_none, first] at back
            cases back
        | some entry' => rfl
  · rw [if_neg same, if_neg same, if_neg same, standing]
    show ((seek cmp other puts).or none).bind _ = _
    rw [Option.or_none]

/-- An entry goes in among those before a larger key. -/
theorem put_below (less : cmp key other = .lt) :
    put cmp key value (left ++ (other, held) :: right) =
      put cmp key value left ++ (other, held) :: right := by
  induction left with
  | nil => simp only [put, less, List.nil_append, List.singleton_append]
  | cons head left ih =>
      rw [List.cons_append, put, put, ih]
      cases cmp key head.1 <;> rfl

variable [Std.TransCmp cmp]

theorem seek_congr (same : cmp other key = .eq) : seek cmp other entries = seek cmp key entries := by
  rw [seek, seek]
  congr 1
  funext entry
  rw [Std.TransCmp.congr_left same]

theorem standing_congr (same : cmp other key = .eq) :
    standing cmp puts other = standing cmp puts key := by
  rw [standing, standing, seek_congr same, seek_congr same]

/-! ## Keys around an entry -/

theorem gt_of_eq_of_lt {a b c : κ} (same : cmp a b = .eq) (less : cmp c b = .lt) :
    cmp a c = .gt :=
  Std.OrientedCmp.gt_of_lt (Std.TransCmp.lt_of_lt_of_eq less (Std.OrientedCmp.eq_symm same))

theorem gt_of_gt_of_lt {a b c : κ} (more : cmp a b = .gt) (less : cmp c b = .lt) :
    cmp a c = .gt :=
  Std.OrientedCmp.gt_of_lt (Std.TransCmp.lt_trans less (Std.OrientedCmp.lt_of_gt more))

/-! ## Putting in -/

theorem mem_put {entry : κ × α} (mem : entry ∈ put cmp key value entries) :
    entry ∈ entries ∨ entry.2 = value ∧ cmp key entry.1 = .eq := by
  induction entries with
  | nil =>
      rw [put, List.mem_singleton] at mem
      rw [mem]
      exact .inr ⟨rfl, Std.ReflCmp.compare_self⟩
  | cons head rest ih =>
      rcases head with ⟨other, held⟩
      rw [put] at mem
      cases order : cmp key other with
      | lt =>
          rw [order] at mem
          rcases List.mem_cons.mp mem with rfl | mem
          · exact .inr ⟨rfl, Std.ReflCmp.compare_self⟩
          · exact .inl mem
      | eq =>
          rw [order] at mem
          rcases List.mem_cons.mp mem with rfl | mem
          · exact .inr ⟨rfl, order⟩
          · exact .inl (List.mem_cons_of_mem _ mem)
      | gt =>
          rw [order] at mem
          rcases List.mem_cons.mp mem with rfl | mem
          · exact .inl (List.mem_cons_self ..)
          · exact (ih mem).imp_left (List.mem_cons_of_mem _)

theorem put_ascending (ascending : Ascending cmp entries) :
    Ascending cmp (put cmp key value entries) := by
  induction entries with
  | nil => exact List.pairwise_singleton _ _
  | cons head rest ih =>
      rcases head with ⟨other, held⟩
      have behind := List.pairwise_cons.mp ascending
      rw [put]
      cases order : cmp key other with
      | lt =>
          refine List.Pairwise.cons ?_ ascending
          intro later mem
          rcases List.mem_cons.mp mem with rfl | mem
          · exact order
          · exact Std.TransCmp.lt_trans order (behind.1 later mem)
      | eq => exact List.Pairwise.cons behind.1 behind.2
      | gt =>
          refine List.Pairwise.cons ?_ (ih behind.2)
          intro later mem
          rcases mem_put mem with mem | ⟨-, same⟩
          · exact behind.1 later mem
          · exact Std.TransCmp.lt_of_lt_of_eq (Std.OrientedCmp.lt_of_gt order) same

/-- An equivalent key takes the new value. -/
theorem put_among (before : ∀ entry ∈ left, cmp entry.1 other = .lt)
    (same : cmp key other = .eq) :
    put cmp key value (left ++ (other, held) :: right) = left ++ (other, value) :: right := by
  induction left with
  | nil => rw [List.nil_append, put, same, List.nil_append]
  | cons head left ih =>
      have less := before head (List.mem_cons_self ..)
      rw [List.cons_append, put, gt_of_eq_of_lt same less,
        ih fun entry mem => before entry (List.mem_cons_of_mem _ mem)]
      rfl

/-- An entry goes in among those behind a smaller key. -/
theorem put_above (before : ∀ entry ∈ left, cmp entry.1 other = .lt)
    (more : cmp key other = .gt) :
    put cmp key value (left ++ (other, held) :: right) =
      left ++ (other, held) :: put cmp key value right := by
  induction left with
  | nil => rw [List.nil_append, put, more, List.nil_append]
  | cons head left ih =>
      have less := before head (List.mem_cons_self ..)
      rw [List.cons_append, put, gt_of_gt_of_lt more less,
        ih fun entry mem => before entry (List.mem_cons_of_mem _ mem)]
      rfl

/-! ## Reading -/

theorem seek_below (behind : ∀ entry ∈ right, cmp other entry.1 = .lt)
    (less : cmp key other = .lt) :
    seek cmp key (left ++ (other, held) :: right) = seek cmp key left := by
  have none : seek cmp key ((other, held) :: right) = none := by
    rw [seek, List.find?_eq_none]
    intro entry mem same
    rw [decide_eq_true_eq] at same
    rcases List.mem_cons.mp mem with rfl | mem
    · rw [less] at same
      cases same
    · rw [Std.TransCmp.lt_trans less (behind entry mem)] at same
      cases same
  rw [seek, List.find?_append]
  exact (congrArg _ none).trans Option.or_none

theorem seek_front (before : ∀ entry ∈ left, cmp entry.1 other = .lt)
    (order : cmp key other ≠ .lt) : seek cmp key left = none := by
  rw [seek, List.find?_eq_none]
  intro entry mem same
  rw [decide_eq_true_eq] at same
  exact order (Std.TransCmp.lt_of_eq_of_lt same (before entry mem))

theorem seek_among (before : ∀ entry ∈ left, cmp entry.1 other = .lt)
    (same : cmp key other = .eq) :
    seek cmp key (left ++ (other, held) :: right) = some (other, held) := by
  have front := seek_front before (by rw [same]; decide : cmp key other ≠ .lt)
  rw [seek] at front ⊢
  rw [List.find?_append, front, Option.none_or, List.find?_cons_of_pos (by simpa using same)]

theorem seek_above (before : ∀ entry ∈ left, cmp entry.1 other = .lt)
    (more : cmp key other = .gt) :
    seek cmp key (left ++ (other, held) :: right) = seek cmp key right := by
  have front := seek_front before (by rw [more]; decide : cmp key other ≠ .lt)
  rw [seek] at front ⊢
  rw [List.find?_append, front, Option.none_or, List.find?_cons_of_neg (by simp [more]), seek]

/-- In entries in order a key is found where it is. -/
theorem mem_iff_seek (ascending : Ascending cmp entries) {entry : κ × α} :
    entry ∈ entries ↔ seek cmp entry.1 entries = some entry := by
  constructor
  · intro mem
    obtain ⟨left, right, rfl⟩ := List.append_of_mem mem
    have order := List.pairwise_append.mp ascending
    exact seek_among (fun earlier mem => order.2.2 earlier mem entry (List.mem_cons_self ..))
      Std.ReflCmp.compare_self
  · exact List.mem_of_find?_eq_some

/-- What an entry put in changes: an equivalent key that is there takes the new value, and
one that is not comes with it. -/
theorem seek_put (ascending : Ascending cmp entries) :
    seek cmp other (put cmp key value entries) =
      if cmp other key = .eq then some (((seek cmp key entries).map Prod.fst).getD key, value)
      else seek cmp other entries := by
  induction entries with
  | nil => rw [put, seek_cons]; rfl
  | cons head rest ih =>
      rcases head with ⟨there, old⟩
      have behind := List.pairwise_cons.mp ascending
      rw [put]
      cases order : cmp key there with
      | lt =>
          have absent : seek cmp key ([] ++ (there, old) :: rest) = none :=
            seek_below behind.1 order
          rw [List.nil_append] at absent
          rw [absent]
          exact seek_cons
      | eq =>
          have found : seek cmp key ((there, old) :: rest) = some (there, old) := by
            rw [seek_cons, if_pos order]
          have alike : cmp other there = .eq ↔ cmp other key = .eq := by
            rw [Std.TransCmp.congr_right order]
          rw [found]
          dsimp only
          rw [seek_cons, seek_cons]
          by_cases same : cmp other key = .eq
          · rw [if_pos (alike.mpr same), if_pos same]
            rfl
          · rw [if_neg (mt alike.mp same), if_neg same, if_neg (mt alike.mp same)]
      | gt =>
          have further : seek cmp key ((there, old) :: rest) = seek cmp key rest := by
            rw [seek_cons, if_neg (by rw [order]; decide)]
          rw [further]
          dsimp only
          rw [seek_cons, seek_cons, ih behind.2]
          by_cases same : cmp other key = .eq
          · have elsewhere : cmp other there ≠ .eq := by
              rw [Std.TransCmp.congr_left same, order]
              decide
            rw [if_neg elsewhere, if_pos same, if_pos same]
          · rw [if_neg same, if_neg same]

/-! ## Many put in -/

theorem putAll_ascending : Ascending cmp (putAll cmp puts) := by
  induction puts using List.reverseRecOn with
  | nil => exact List.Pairwise.nil
  | append_singleton puts last ih =>
      rw [putAll_append]
      exact put_ascending ih

/-- What is read is what stands. -/
theorem seek_putAll : seek cmp other (putAll cmp puts) = standing cmp puts other := by
  induction puts using List.reverseRecOn generalizing other with
  | nil => rfl
  | append_singleton puts last ih =>
      rw [putAll_append, seek_put putAll_ascending, standing_append, ih, ih]
      by_cases same : cmp other last.1 = .eq
      · rw [if_pos same, if_pos same, standing_congr same]
      · rw [if_neg same, if_neg same]

theorem mem_putAll {entry : κ × α} :
    entry ∈ putAll cmp puts ↔ standing cmp puts entry.1 = some entry := by
  rw [mem_iff_seek putAll_ascending, seek_putAll]

end Deed.Library.Compared
