import Mathlib

/-!
# Dropping whoever comes first

Elements lay claim to points.  From a list the elements are dropped that always are, and with
them whoever is the first to claim some point; the rest survive.  What survives does not depend
on the order of the list exactly where the claims are settled.
-/

namespace Deed.Library

open Classical

variable {α P β : Type} (always : α → Prop) (claims : α → P → Prop) (weight : α → Multiset β)

/-- Whether an element is dropped after the elements before it. -/
def Dropped (earlier : List α) (element : α) : Prop :=
  always element ∨ ∃ point, claims element point ∧ ∀ other ∈ earlier, ¬claims other point

/-- The elements of a list that are not dropped. -/
noncomputable def survivors (earlier : List α) : List α → List α
  | [] => []
  | element :: rest =>
      if Dropped always claims earlier element then survivors (element :: earlier) rest
      else element :: survivors (element :: earlier) rest

/-- What the survivors weigh. -/
noncomputable def leftOver (earlier list : List α) : Multiset β :=
  ((survivors always claims earlier list).map weight).sum

/-- An element that is dropped with others of its weight, or a point of its own. -/
def Loses (list : List α) (element : α) : Prop :=
  always element ∨
    ∃ point, claims element point ∧
      ∀ other ∈ list, claims other point → weight other = weight element

/-- Whoever claims one point weighs the same, or else loses in any case. -/
def Settled (list : List α) : Prop :=
  ∀ point,
    (∀ one ∈ list, ∀ other ∈ list, claims one point → claims other point →
      weight one = weight other) ∨
    ∀ one ∈ list, claims one point → Loses always claims weight list one

variable {always claims weight}
variable {earlier earlier' list list' : List α} {one other : α}

theorem Dropped.mono (fewer : ∀ point, (∃ other ∈ earlier, claims other point) →
    ∃ other ∈ earlier', claims other point)
    (dropped : Dropped always claims earlier' one) : Dropped always claims earlier one := by
  rcases dropped with dropped | ⟨point, claimed, fresh⟩
  · exact .inl dropped
  · refine .inr ⟨point, claimed, ?_⟩
    intro other member taken
    rcases fewer point ⟨other, member, taken⟩ with ⟨rival, member, taken⟩
    exact fresh rival member taken

/-- Only the points that were claimed before matter. -/
theorem survivors_congr (same : ∀ point, (∃ other ∈ earlier, claims other point) ↔
    ∃ other ∈ earlier', claims other point) (list : List α) :
    survivors always claims earlier list = survivors always claims earlier' list := by
  induction list generalizing earlier earlier' with
  | nil => rfl
  | cons element rest ih =>
      have next : survivors always claims (element :: earlier) rest =
          survivors always claims (element :: earlier') rest := ih <| by
        intro point
        rw [List.exists_mem_cons_iff, List.exists_mem_cons_iff, same point]
      rw [survivors, survivors, next]
      by_cases dropped : Dropped always claims earlier element
      · rw [if_pos dropped, if_pos (dropped.mono fun point => (same point).2)]
      · rw [if_neg dropped, if_neg fun dropped' =>
          dropped (dropped'.mono fun point => (same point).1)]

theorem survivors_append (earlier list list' : List α) :
    survivors always claims earlier (list ++ list') =
      survivors always claims earlier list ++
        survivors always claims (list.reverse ++ earlier) list' := by
  induction list generalizing earlier with
  | nil => rfl
  | cons element rest ih =>
      rw [List.cons_append, survivors, survivors, ih, List.reverse_cons, List.append_assoc,
        List.singleton_append]
      by_cases dropped : Dropped always claims earlier element
      · rw [if_pos dropped, if_pos dropped]
      · rw [if_neg dropped, if_neg dropped, List.cons_append]

theorem leftOver_cons (earlier list : List α) (one : α) :
    leftOver always claims weight earlier (one :: list) =
      (if Dropped always claims earlier one then 0 else weight one) +
        leftOver always claims weight (one :: earlier) list := by
  rw [leftOver, survivors]
  by_cases dropped : Dropped always claims earlier one
  · rw [if_pos dropped, if_pos dropped, zero_add, leftOver]
  · rw [if_neg dropped, if_neg dropped, List.map_cons, List.sum_cons, leftOver]

theorem leftOver_swap_earlier (earlier list : List α) (one other : α) :
    leftOver always claims weight (one :: other :: earlier) list =
      leftOver always claims weight (other :: one :: earlier) list := by
  rw [leftOver, leftOver, survivors_congr]
  intro point
  rw [List.exists_mem_cons_iff, List.exists_mem_cons_iff, List.exists_mem_cons_iff,
    List.exists_mem_cons_iff]
  exact or_left_comm

section Alike

-- Elements of one weight are alike.
variable (alwaysAlike : ∀ one other, weight one = weight other → always one → always other)
  (claimsAlike : ∀ one other point, weight one = weight other → claims one point →
    claims other point)

include claimsAlike in
/-- Who loses in any case does so whether or not an element of another weight came before. -/
theorem Loses.dropped {whole : List α} (loses : Loses always claims weight whole one)
    (within : ∀ element ∈ earlier, element ∈ whole) (member : other ∈ whole)
    (differs : weight one ≠ weight other) {point : P} (claimed : claims one point)
    (fresh : ∀ element ∈ earlier, ¬claims element point) :
    Dropped always claims (other :: earlier) one := by
  rcases loses with dropped | ⟨own, claimed', same⟩
  · exact .inl dropped
  · refine .inr ⟨own, claimed', ?_⟩
    intro element among taken
    rcases List.mem_cons.1 among with rfl | among
    · exact differs (same element member taken).symm
    · -- An element of the same weight claims the point that nobody did.
      exact fresh element among
        (claimsAlike one element point (same element (within element among) taken).symm claimed)

include claimsAlike in
theorem dropped_cons_iff {whole : List α} (settled : Settled always claims weight whole)
    (within : ∀ element ∈ earlier, element ∈ whole) (mine : one ∈ whole) (member : other ∈ whole)
    (differs : weight one ≠ weight other) :
    Dropped always claims (other :: earlier) one ↔ Dropped always claims earlier one := by
  constructor
  · intro dropped
    exact dropped.mono fun point => Exists.imp fun element found =>
      ⟨List.mem_cons_of_mem _ found.1, found.2⟩
  · rintro (dropped | ⟨point, claimed, fresh⟩)
    · exact .inl dropped
    · by_cases taken : claims other point
      · rcases settled point with same | loses
        · exact absurd (same one mine other member claimed taken) differs
        · exact (loses one mine claimed).dropped claimsAlike within member differs claimed fresh
      · refine .inr ⟨point, claimed, ?_⟩
        intro element among
        rcases List.mem_cons.1 among with rfl | among
        · exact taken
        · exact fresh element among

include alwaysAlike claimsAlike in
theorem dropped_alike (same : weight one = weight other)
    (dropped : Dropped always claims earlier one) : Dropped always claims earlier other := by
  rcases dropped with dropped | ⟨point, claimed, fresh⟩
  · exact .inl (alwaysAlike one other same dropped)
  · exact .inr ⟨point, claimsAlike one other point same claimed, fresh⟩

include alwaysAlike claimsAlike in
theorem leftOver_swap {whole : List α} (settled : Settled always claims weight whole)
    (within : ∀ element ∈ earlier, element ∈ whole) (mine : one ∈ whole)
    (member : other ∈ whole) (list : List α) :
    leftOver always claims weight earlier (one :: other :: list) =
      leftOver always claims weight earlier (other :: one :: list) := by
  rw [leftOver_cons, leftOver_cons, leftOver_cons, leftOver_cons, leftOver_swap_earlier, ← add_assoc, ← add_assoc]
  congr 1
  by_cases same : weight one = weight other
  · have first : Dropped always claims earlier one ↔ Dropped always claims earlier other :=
      ⟨dropped_alike alwaysAlike claimsAlike same, dropped_alike alwaysAlike claimsAlike same.symm⟩
    have second : Dropped always claims (one :: earlier) other ↔
        Dropped always claims (other :: earlier) one := by
      have fewer : ∀ {one other : α}, weight one = weight other → ∀ point,
          (∃ element ∈ one :: earlier, claims element point) →
            ∃ element ∈ other :: earlier, claims element point := by
        rintro one other same point ⟨element, among, taken⟩
        rcases List.mem_cons.1 among with rfl | among
        · exact ⟨other, List.mem_cons_self, claimsAlike _ _ point same taken⟩
        · exact ⟨element, List.mem_cons_of_mem _ among, taken⟩
      constructor
      · intro dropped
        exact dropped_alike alwaysAlike claimsAlike same.symm
          (dropped.mono (fewer same.symm))
      · intro dropped
        exact dropped_alike alwaysAlike claimsAlike same (dropped.mono (fewer same))
    simp only [first, second, same]
  · simp only [dropped_cons_iff claimsAlike settled within mine member same,
      dropped_cons_iff claimsAlike settled within member mine (Ne.symm same)]
    exact add_comm _ _

include alwaysAlike claimsAlike in
/-- Where the claims are settled, what is left does not depend on the order. -/
theorem leftOver_perm {whole : List α} (settled : Settled always claims weight whole)
    (perm : list.Perm list') (earlier : List α) (within : ∀ element ∈ earlier, element ∈ whole)
    (inside : ∀ element ∈ list, element ∈ whole) :
    leftOver always claims weight earlier list = leftOver always claims weight earlier list' := by
  induction perm generalizing earlier with
  | nil => rfl
  | cons element _ ih =>
      rw [leftOver_cons, leftOver_cons, ih (element :: earlier)]
      · exact List.forall_mem_cons.2 ⟨inside element List.mem_cons_self, within⟩
      · exact fun other member => inside other (List.mem_cons_of_mem _ member)
  | swap one other list =>
      have mine := inside other List.mem_cons_self
      have member := inside one (List.mem_cons_of_mem _ List.mem_cons_self)
      exact leftOver_swap alwaysAlike claimsAlike settled within mine member list
  | trans first second ih ih' =>
      rw [ih earlier within inside]
      exact ih' earlier within fun element member => inside element (first.mem_iff.2 member)

end Alike

/-- Whoever of a list claims a point. -/
noncomputable def claimants (claims : α → P → Prop) (list : List α) (point : P) : Finset α :=
  list.toFinset.filter fun element => claims element point

theorem mem_claimants {point : P} :
    one ∈ claimants claims list point ↔ one ∈ list ∧ claims one point := by
  rw [claimants, Finset.mem_filter, List.mem_toFinset]

/-- Where the claims are not settled, somebody who need not lose contests a point, and shares
with the rival every point that only the claimants of that one claim. -/
theorem exists_of_not_settled (contested : ¬Settled always claims weight list) :
    ∃ point, ∃ one ∈ list, ∃ other ∈ list, claims one point ∧ claims other point ∧
      weight one ≠ weight other ∧ ¬Loses always claims weight list one ∧
      ∀ own, claims one own → claimants claims list own ⊆ claimants claims list point →
        claims other own := by
  have some : {point | ¬((∀ one ∈ list, ∀ other ∈ list, claims one point → claims other point →
      weight one = weight other) ∨
      ∀ one ∈ list, claims one point → Loses always claims weight list one)}.Nonempty := by
    by_contra none
    apply contested
    intro point
    by_contra bad
    exact none ⟨point, bad⟩
  -- A contested point that the fewest claim.
  rcases (measure fun point => (claimants claims list point).card).wf.has_min _ some with
    ⟨point, bad, least⟩
  rcases not_or.1 bad with ⟨-, keeping⟩
  push Not at keeping
  rcases keeping with ⟨one, mine, claimed, keeps⟩
  have rival : ∃ other ∈ list, claims other point ∧ weight other ≠ weight one := by
    by_contra alone
    push Not at alone
    exact keeps (.inr ⟨point, claimed, alone⟩)
  rcases rival with ⟨other, member, taken, differs⟩
  refine ⟨point, one, mine, other, member, claimed, taken, differs.symm, keeps, ?_⟩
  intro own claimed' within
  by_contra missing
  have fewer : claimants claims list own ⊂ claimants claims list point := by
    apply (Finset.ssubset_iff_of_subset within).2
    exact ⟨other, mem_claimants.2 ⟨member, taken⟩, fun inside =>
      missing (mem_claimants.1 inside).2⟩
  have agreed := not_not.1 fun bad => least own bad (Finset.card_lt_card fewer)
  rcases agreed with same | loses
  · exact keeps (.inr ⟨own, claimed', fun element among taken =>
      same element among one mine taken claimed'⟩)
  · exact keeps (loses one mine claimed')

/-- Two of a list that differ may be taken to its end, behind those who do not claim a point. -/
theorem exists_perm {point : P} (mine : one ∈ list) (member : other ∈ list) (differ : one ≠ other)
    (claimed : claims one point) (taken : claims other point) :
    ∃ rest, list.Perm
      (list.filter (fun element => ¬claims element point) ++ one :: other :: rest) := by
  have whole := List.filter_append_perm (fun element => decide ¬claims element point) list
  have first : one ∈ list.filter fun element => !decide ¬claims element point :=
    List.mem_filter.2 ⟨mine, by simp [claimed]⟩
  have second : other ∈ (list.filter fun element => !decide ¬claims element point).erase one :=
    (List.mem_erase_of_ne differ.symm).2 (List.mem_filter.2 ⟨member, by simp [taken]⟩)
  have order := (List.perm_cons_erase first).trans ((List.perm_cons_erase second).cons one)
  exact ⟨_, whole.symm.trans (List.Perm.append_left _ order)⟩

/-- What is left depends on the order exactly where the claims are not settled. -/
theorem leftOver_perm_iff (list : List α)
    (alwaysAlike : ∀ one other, weight one = weight other → always one → always other)
    (claimsAlike : ∀ one other point, weight one = weight other → claims one point →
      claims other point)
    (heavy : ∀ element point, claims element point → weight element ≠ 0) :
    (∀ list', list.Perm list' →
      leftOver always claims weight [] list = leftOver always claims weight [] list') ↔
      Settled always claims weight list := by
  constructor
  · intro same
    by_contra contested
    rcases exists_of_not_settled contested with
      ⟨point, one, mine, other, member, claimed, taken, differs, keeps, shared⟩
    have apart : one ≠ other := fun equal => differs (congrArg weight equal)
    set outside := list.filter fun element => ¬claims element point with outsideIs
    rcases exists_perm mine member apart claimed taken with ⟨rest, perm⟩
    have perm' : list.Perm (outside ++ other :: one :: rest) :=
      perm.trans (List.Perm.append_left _ (.swap ..))
    have equal := (same _ perm).symm.trans (same _ perm')
    have free : ∀ element ∈ outside.reverse ++ [], ¬claims element point := by
      intro element inside
      rw [List.append_nil, List.mem_reverse, outsideIs, List.mem_filter] at inside
      exact of_decide_eq_true inside.2
    have mineDropped : Dropped always claims (outside.reverse ++ []) one :=
      .inr ⟨point, claimed, free⟩
    have rivalDropped : Dropped always claims (outside.reverse ++ []) other :=
      .inr ⟨point, taken, free⟩
    -- After the rival, nothing is left for the first of the two to be the first to claim.
    have kept : ¬Dropped always claims (other :: (outside.reverse ++ [])) one := by
      rintro (dropped | ⟨own, claimed', fresh⟩)
      · exact keeps (.inl dropped)
      · apply fresh other List.mem_cons_self
        apply shared own claimed'
        intro element inside
        rcases mem_claimants.1 inside with ⟨among, claimed''⟩
        by_contra missing
        apply fresh element _ claimed''
        rw [List.append_nil]
        apply List.mem_cons_of_mem
        apply List.mem_reverse.2
        apply List.mem_filter.2
        exact ⟨among, decide_eq_true fun taken => missing (mem_claimants.2 ⟨among, taken⟩)⟩
    simp only [leftOver, survivors_append, List.map_append, List.sum_append] at equal
    have equal' := add_left_cancel equal
    change leftOver always claims weight _ _ = leftOver always claims weight _ _ at equal'
    rw [leftOver_cons, leftOver_cons, leftOver_cons, leftOver_cons, leftOver_swap_earlier, if_pos mineDropped,
      if_pos rivalDropped, if_neg kept, ← add_assoc, ← add_assoc, zero_add, zero_add] at equal'
    have weights := add_right_cancel equal'
    by_cases dropped : Dropped always claims (one :: (outside.reverse ++ [])) other
    · rw [if_pos dropped] at weights
      exact heavy one point claimed weights.symm
    · rw [if_neg dropped] at weights
      exact differs weights.symm
  · intro settled list' perm
    exact leftOver_perm alwaysAlike claimsAlike settled perm []
      (fun _ absent => absurd absent List.not_mem_nil) fun _ member => member

end Deed.Library
