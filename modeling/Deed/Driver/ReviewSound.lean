import Deed.Driver.Review

/-!
# What a clean receipt means

A snapshot holds the rows that are written in a module's functions and handlers and the
tiers of the obligations found in its functions, so a receipt with nothing on it leaves
nothing of the two unmatched.
-/

namespace Deed.Driver.Review

open Deed.Library Deed.Resolve

/-! ## Receipts with nothing on them -/

namespace ReviewReceipt

theorem isClean_iff {receipt : ReviewReceipt} :
    receipt.isClean = true ↔ receipt = .empty := by
  rcases receipt with ⟨authorities, regressions, additions⟩
  simp [isClean, empty, and_assoc]

theorem and_eq_empty {first second : ReviewReceipt} :
    first.and second = .empty ↔ first = .empty ∧ second = .empty := by
  rcases first with ⟨authorities, regressions, additions⟩
  rcases second with ⟨authorities', regressions', additions'⟩
  simp only [and, empty, mk.injEq, List.append_eq_nil_iff]
  tauto

/-- Nothing is on a receipt that was written piece by piece where nothing is on a piece. -/
theorem foldl_eq_empty {α : Type*} {pieces : List α} {step : ReviewReceipt → α → ReviewReceipt}
    {quiet : α → Prop} (each : ∀ receipt piece, step receipt piece = .empty ↔
      receipt = .empty ∧ quiet piece) (start : ReviewReceipt) :
    pieces.foldl step start = .empty ↔ start = .empty ∧ ∀ piece ∈ pieces, quiet piece := by
  induction pieces generalizing start with
  | nil => simp
  | cons first rest ih =>
      rw [List.foldl_cons, ih, each, List.forall_mem_cons, and_assoc]

/-- A clean receipt passes every policy, and only a clean one passes the policy that
denies everything. -/
theorem evaluate_passed {receipt : ReviewReceipt} :
    receipt.isClean = true ↔ ∀ policy, passed (receipt.evaluate policy) = true := by
  rw [isClean_iff]
  rcases receipt with ⟨authorities, regressions, additions⟩
  constructor
  · intro clean policy
    cases clean
    simp [passed, evaluate, violation]
  · intro every
    have strict := every ⟨true, true, true⟩
    simp only [passed, evaluate, violation, List.isEmpty_iff, List.append_eq_nil_iff] at strict
    simpa [empty, and_assoc] using strict

end ReviewReceipt

/-! ## Tiers -/

/--
The tiers a subject had and the ones it has can be matched so that no matched one is
weaker and no unmatched one is guarded.
-/
def Kept (before after : List Tier) : Prop :=
  ∃ (pairs : List (Tier × Tier)) (dropped fresh : List Tier),
    before.Perm (pairs.map Prod.fst ++ dropped) ∧
    after.Perm (pairs.map Prod.snd ++ fresh) ∧
    (∀ pair ∈ pairs, tierRank pair.2 ≤ tierRank pair.1) ∧ Tier.guarded ∉ fresh

theorem Kept.perm {before before' after after' : List Tier} (kept : Kept before after)
    (old : before'.Perm before) (new : after'.Perm after) : Kept before' after' := by
  obtain ⟨pairs, dropped, fresh, matched, matched', strong, open_⟩ := kept
  exact ⟨pairs, dropped, fresh, old.trans matched, new.trans matched', strong, open_⟩

theorem Kept.nothing (before : List Tier) : Kept before [] :=
  ⟨[], before, [], List.Perm.refl _, List.Perm.refl _, by simp, by simp⟩

theorem weaker_iff {before after : Tier} :
    weaker before after = true ↔ tierRank before < tierRank after := by
  cases before <;> cases after <;> decide

theorem map_zip_append {α β : Type*} (olds : List α) (news : List β) :
    olds = (olds.zip news).map Prod.fst ++ olds.drop news.length ∧
      news = (olds.zip news).map Prod.snd ++ news.drop olds.length := by
  induction olds generalizing news with
  | nil => simp
  | cons old olds ih =>
      cases news with
      | nil => simp
      | cons new news =>
          rcases ih news with ⟨first, second⟩
          constructor
          · simpa using first
          · simpa using second

theorem compareSubject_eq_empty {key : Key} {before : List Tier} {subject : String}
    {after : List (Nat × Tier)} (quiet : compareSubject key before subject after = .empty) :
    Kept before (after.map Prod.snd) := by
  obtain ⟨shared, old, new⟩ := cancel_parts before after
  rw [compareSubject] at quiet
  simp only [ReviewReceipt.empty, ReviewReceipt.mk.injEq, List.map_eq_nil_iff,
    List.filter_eq_nil_iff, true_and] at quiet
  generalize ranked : (cancel before after).1.insertionSort
    (fun one other => tierRank one ≤ tierRank other) = olds at quiet
  generalize ranked' : (cancel before after).2.insertionSort
    (fun one other => tierRank one.2 ≤ tierRank other.2) = news at quiet
  have sorted : (cancel before after).1.Perm olds := by
    rw [← ranked]
    exact (List.perm_insertionSort _ _).symm
  have sorted' : (cancel before after).2.Perm news := by
    rw [← ranked']
    exact (List.perm_insertionSort _ _).symm
  obtain ⟨whole, whole'⟩ := map_zip_append olds news
  refine ⟨shared.map (fun tier => (tier, tier)) ++ (olds.zip news).map fun pair =>
      (pair.1, pair.2.2), olds.drop news.length, (news.drop olds.length).map Prod.snd,
      ?_, ?_, ?_, ?_⟩
  · apply old.trans
    rw [List.map_append, List.map_map, List.map_map, List.append_assoc]
    apply List.Perm.append
    · exact List.Perm.of_eq (List.map_id _).symm
    · exact sorted.trans (List.Perm.of_eq whole)
  · apply new.trans
    rw [List.map_append, List.map_map, List.map_map, List.append_assoc]
    apply List.Perm.append
    · exact List.Perm.of_eq (List.map_id _).symm
    · apply (sorted'.map Prod.snd).trans
      apply List.Perm.of_eq
      have tiers := congrArg (List.map Prod.snd) whole'
      rw [List.map_append, List.map_map] at tiers
      exact tiers
  · intro pair member
    rcases List.mem_append.1 member with member | member
    · obtain ⟨tier, -, rfl⟩ := List.mem_map.1 member
      exact le_refl _
    · obtain ⟨both, inside, rfl⟩ := List.mem_map.1 member
      exact not_lt.1 fun fell => quiet.1 both inside (weaker_iff.2 fell)
  · intro member
    obtain ⟨entry, inside, guarded⟩ := List.mem_map.1 member
    exact quiet.2 entry inside (by rw [guarded]; decide)

/-- The same tiers in another order are no finding. -/
theorem compareSubject_same {key : Key} {before : List Tier} {subject : String}
    {after : List (Nat × Tier)} (same : before.Perm (after.map Prod.snd)) :
    compareSubject key before subject after = .empty := by
  rw [compareSubject]
  simp [cancel_same same, ReviewReceipt.empty]

/-- The tiers of a subject. -/
def tiersIn (obligations : List (Occurrence × Tier)) (subject : String) : List Tier :=
  (obligations.filter fun entry => entry.1.subject == subject).map Prod.snd

theorem previousTiers_eq (before : Option DeclarationSnapshot) (subject : String) :
    previousTiers before subject = tiersIn (before.getD .default).obligations subject := by
  cases before with
  | none => rfl
  | some function => rfl

theorem tiers_of_group (obligations : List (Occurrence × Tier)) (subject : String) :
    (((obligations.map fun entry =>
      (entry.1.subject, entry.1.occurrence, entry.2)).filter fun entry =>
        entry.1 = subject).map Prod.snd).map Prod.snd = tiersIn obligations subject := by
  rw [tiersIn, List.filter_map, List.map_map, List.map_map]
  rfl

theorem group_tiers {obligations : List (Occurrence × Tier)} {subject : String}
    {group : List (Nat × Tier)} (member : (subject, group) ∈ bySubject obligations) :
    group.map Prod.snd = tiersIn obligations subject := by
  rw [grouped_of_mem member]
  exact tiers_of_group obligations subject

theorem compareObligations_eq_empty {key : Key} {before : Option DeclarationSnapshot}
    {after : DeclarationSnapshot} :
    compareObligations key before after = .empty ↔ ∀ group ∈ bySubject after.obligations,
      compareSubject key (previousTiers before group.1) group.1 group.2 = .empty := by
  have each : ∀ (receipt : ReviewReceipt) (group : String × List (Nat × Tier)),
      receipt.and (compareSubject key (previousTiers before group.1) group.1 group.2) = .empty ↔
        receipt = .empty ∧
          compareSubject key (previousTiers before group.1) group.1 group.2 = .empty :=
    fun _ _ => ReviewReceipt.and_eq_empty
  rw [compareObligations, ReviewReceipt.foldl_eq_empty each]
  exact and_iff_right rfl

theorem kept_of_compareObligations {key : Key} {before : Option DeclarationSnapshot}
    {after : DeclarationSnapshot} (quiet : compareObligations key before after = .empty)
    (subject : String) :
    Kept (tiersIn (before.getD .default).obligations subject)
      (tiersIn after.obligations subject) := by
  have each := compareObligations_eq_empty.1 quiet
  cases found : Assoc.find? (bySubject after.obligations) subject with
  | some group =>
      have member := Assoc.mem_of_find? found
      rw [← group_tiers member, ← previousTiers_eq]
      exact compareSubject_eq_empty (each _ member)
  | none =>
      have held := getD_grouped (after.obligations.map fun entry =>
        (entry.1.subject, entry.1.occurrence, entry.2)) subject
      rw [bySubject] at found
      rw [found] at held
      have absent : tiersIn after.obligations subject = [] := by
        rw [← tiers_of_group, ← held]
        rfl
      rw [absent]
      exact Kept.nothing _

theorem compareObligations_same {key : Key} {before : Option DeclarationSnapshot}
    {after : DeclarationSnapshot}
    (same : ∀ subject, (tiersIn (before.getD .default).obligations subject).Perm
      (tiersIn after.obligations subject)) :
    compareObligations key before after = .empty := by
  rw [compareObligations_eq_empty]
  intro group member
  apply compareSubject_same
  rw [group_tiers member, previousTiers_eq]
  exact same group.1

/-! ## Rows -/

theorem compareAuthority_eq_empty {key : Key} {before : Option DeclarationSnapshot}
    {after : DeclarationSnapshot} :
    compareAuthority key before after = .empty ↔ ∀ entry ∈ after.authority,
      ∃ old ∈ (before.getD .default).authority, covers old entry = true := by
  rw [compareAuthority]
  simp only [ReviewReceipt.empty, ReviewReceipt.mk.injEq, List.map_eq_nil_iff,
    List.filter_eq_nil_iff, and_true]
  apply forall₂_congr
  intro entry member
  cases before with
  | none => simp [DeclarationSnapshot.default]
  | some previous => simp

theorem covers_refl (entry : RowEntry) : covers entry entry = true := by
  simp [covers]

/-! ## Reading a snapshot -/

namespace Snapshots

/-- What is known of a key. -/
def read (out : Snapshots) (key : Key) : DeclarationSnapshot :=
  (Assoc.find? out key).getD .default

theorem read_at (out : Snapshots) (key other : Key)
    (change : DeclarationSnapshot → DeclarationSnapshot) :
    (out.at key change).read other =
      if key = other then change (out.read other) else out.read other :=
  Assoc.getD_update out .default key other change

theorem at_distinct {out : Snapshots} (distinct : Assoc.Distinct out) (key : Key)
    (change : DeclarationSnapshot → DeclarationSnapshot) : Assoc.Distinct (out.at key change) :=
  distinct.insert key _

end Snapshots

/-- The functions of a module with a name, with what was found in them. -/
def Checked.functions (checked : Checked) : List (Key × List (String × Tier)) :=
  checked.module.name.elim [] fun module =>
    checked.module.items.filterMap fun item =>
      match item with
      | .function function => some (⟨module, function.name⟩, located checked function)
      | _ => none

/-- The declaration of that name in that module declares the entry. -/
def Performs (checks : List Checked) (key : Key) (entry : RowEntry) : Prop :=
  ∃ checked ∈ checks, checked.module.name = some key.module ∧
    ∃ item ∈ checked.module.items, Item.Performs checked.module item key.declaration entry

/-- The tiers of the obligations about a subject that were found in that function. -/
def tiersOf (checks : List Checked) (key : Key) (subject : String) : List Tier :=
  ((checks.flatMap Checked.functions).filter fun function => function.1 = key).flatMap
    fun function => (function.2.filter fun found => found.1 == subject).map Prod.snd

/-- Modules that check together: no two have the same name, and none declares a name
twice. -/
structure Side where
  checks : List Checked
  modules : (checks.filterMap fun checked => checked.module.name).Nodup
  declarations : ∀ checked ∈ checks, (checked.module.items.flatMap Item.names).Nodup

end Deed.Driver.Review
