import Deed.Driver.ReviewSound

/-!
# What a snapshot holds

The rows and the tiers a snapshot has under a key, and from them what a clean receipt says
about two sets of modules and what the receipt for a rearranged set is.
-/

namespace Deed.Driver.Review

open Deed.Library Deed.Resolve

/-! ## One function's obligations -/

theorem tiersIn_cons (key : Occurrence) (tier : Tier) (rest : List (Occurrence × Tier))
    (subject : String) :
    tiersIn ((key, tier) :: rest) subject =
      (if key.subject = subject then [tier] else []) ++ tiersIn rest subject := by
  rw [tiersIn, List.filter_cons]
  by_cases same : key.subject = subject
  · simp [same, tiersIn]
  · simp [same, tiersIn]

theorem tiersIn_perm {obligations obligations' : List (Occurrence × Tier)}
    (same : obligations.Perm obligations') (subject : String) :
    (tiersIn obligations subject).Perm (tiersIn obligations' subject) :=
  (same.filter _).map _

/-- Every number that was given to a subject is below the next one. -/
def Numbered (counts : List (String × Nat)) (held : List (Occurrence × Tier)) : Prop :=
  ∀ key ∈ held.map Prod.fst, key.occurrence < (Assoc.find? counts key.subject).getD 0

theorem recordOne_perm {counts : List (String × Nat)} {held : List (Occurrence × Tier)}
    (numbered : Numbered counts held) (found : String × Tier) :
    ∃ key : Occurrence, key.subject = found.1 ∧
      (recordOne (counts, held) found).2.Perm ((key, found.2) :: held) ∧
      Numbered (recordOne (counts, held) found).1 (recordOne (counts, held) found).2 := by
  have absent : (⟨found.1, (Assoc.find? counts found.1).getD 0⟩ : Occurrence) ∉
      held.map Prod.fst :=
    fun inside => lt_irrefl _ (numbered _ inside)
  have placed := Assoc.insert_perm absent found.2
  refine ⟨_, rfl, placed, ?_⟩
  intro key member
  change key.occurrence < (Assoc.find? (Assoc.insert counts found.1 _) key.subject).getD 0
  rw [Assoc.find?_insert]
  rcases List.mem_cons.1 ((placed.map Prod.fst).mem_iff.1 member) with rfl | inside
  · rw [if_pos rfl]
    exact Nat.lt_succ_self _
  · have below := numbered key inside
    split
    · next same =>
        rw [← same] at below
        exact Nat.lt_succ_of_lt below
    · exact below

theorem record_perm {found : List (String × Tier)} {counts : List (String × Nat)}
    {held : List (Occurrence × Tier)} (numbered : Numbered counts held) (subject : String) :
    (tiersIn (found.foldl recordOne (counts, held)).2 subject).Perm
      (tiersIn held subject ++ (found.filter fun one => one.1 == subject).map Prod.snd) := by
  induction found generalizing counts held with
  | nil => simp
  | cons first rest ih =>
      obtain ⟨key, about, placed, kept⟩ := recordOne_perm numbered first
      rw [List.foldl_cons]
      apply (ih kept).trans
      apply ((tiersIn_perm placed subject).append_right _).trans
      rw [tiersIn_cons, about, List.filter_cons]
      by_cases same : first.1 = subject
      · rw [if_pos same, if_pos (beq_iff_eq.2 same), List.map_cons]
        exact List.perm_middle.symm
      · rw [if_neg same, if_neg fun equal => same (beq_iff_eq.1 equal), List.nil_append]

/-- What is recorded of a function are the tiers that were found in it. -/
theorem tiersIn_record (found : List (String × Tier)) (subject : String) :
    (tiersIn (record [] found) subject).Perm
      ((found.filter fun one => one.1 == subject).map Prod.snd) :=
  record_perm (fun _ absurdity => absurd absurdity List.not_mem_nil) subject

/-! ## One module -/

theorem read_takeAuthority (module : String) (offers : List (String × Export))
    (out : Snapshots) (key : Key) (entry : RowEntry) :
    (entry ∈ ((offers.foldl (takeAuthority module) out).read key).authority ↔
      entry ∈ (out.read key).authority ∨ module = key.module ∧
        ∃ offered : Export, (key.declaration, offered) ∈ offers ∧
          offered.kind ∈ [ExportKind.function, ExportKind.handler] ∧ entry ∈ offered.row) ∧
    ((offers.foldl (takeAuthority module) out).read key).obligations =
      (out.read key).obligations := by
  induction offers generalizing out with
  | nil => simp
  | cons first rest ih =>
      rcases first with ⟨name, offered⟩
      have later := ih (takeAuthority module out (name, offered))
      rw [List.foldl_cons, later.1, later.2]
      rw [takeAuthority]
      by_cases kind : offered.kind ∈ [ExportKind.function, ExportKind.handler]
      · rw [if_pos kind, Snapshots.read_at]
        by_cases here : (⟨module, name⟩ : Key) = key
        · subst here
          rw [if_pos rfl]
          constructor
          · rw [mem_addAll]
            constructor
            · rintro ((before | performed) | ⟨same, other, member, rest⟩)
              · exact Or.inl before
              · exact Or.inr ⟨rfl, offered, List.mem_cons_self, kind, performed⟩
              · exact Or.inr ⟨same, other, List.mem_cons_of_mem _ member, rest⟩
            · rintro (before | ⟨same, other, member, kind', performed⟩)
              · exact Or.inl (Or.inl before)
              · rcases List.mem_cons.1 member with equal | member
                · cases equal
                  exact Or.inl (Or.inr performed)
                · exact Or.inr ⟨same, other, member, kind', performed⟩
          · rfl
        · rw [if_neg here]
          refine ⟨or_congr_right (and_congr_right fun same => ?_), rfl⟩
          have different : name ≠ key.declaration := by
            rintro rfl
            subst same
            exact here rfl
          apply exists_congr
          intro other
          have elsewhere : (key.declaration, other) ≠ (name, offered) :=
            fun equal => different (congrArg Prod.fst equal).symm
          have joined := (@List.mem_cons _ (name, offered) rest (key.declaration, other)).trans
            (or_iff_right elsewhere)
          rw [joined]
      · rw [if_neg kind]
        refine ⟨or_congr_right (and_congr_right fun _ => exists_congr fun other => ?_), rfl⟩
        constructor
        · exact fun ⟨member, rest⟩ => ⟨List.mem_cons_of_mem _ member, rest⟩
        · rintro ⟨member, kind', performed⟩
          rcases List.mem_cons.1 member with equal | member
          · cases equal
            exact absurd kind' kind
          · exact ⟨member, kind', performed⟩

/-- Obligations that were recorded under a key, function after function. -/
def recorded (functions : List (Key × List (String × Tier))) (key : Key)
    (held : List (Occurrence × Tier)) : List (Occurrence × Tier) :=
  (functions.filter fun function => function.1 = key).foldl
    (fun held function => record held function.2) held

theorem recorded_append (first second : List (Key × List (String × Tier))) (key : Key)
    (held : List (Occurrence × Tier)) :
    recorded (first ++ second) key held = recorded second key (recorded first key held) := by
  rw [recorded, List.filter_append, List.foldl_append]
  rfl

/-- An item's function, with what was found in it. -/
def Checked.function (checked : Checked) (module : String) :
    Item → Option (Key × List (String × Tier))
  | .function function => some (⟨module, function.name⟩, located checked function)
  | _ => none

theorem read_takeObligations (checked : Checked) (module : String) (items : List Item)
    (out : Snapshots) (key : Key) :
    ((items.foldl (takeObligations checked module) out).read key).authority =
      (out.read key).authority ∧
    ((items.foldl (takeObligations checked module) out).read key).obligations =
      recorded (items.filterMap (checked.function module)) key (out.read key).obligations := by
  induction items generalizing out with
  | nil => exact ⟨rfl, rfl⟩
  | cons first rest ih =>
      have later := ih (takeObligations checked module out first)
      rw [List.foldl_cons, later.1, later.2]
      cases first with
      | function function =>
          rw [takeObligations, Snapshots.read_at, List.filterMap_cons]
          by_cases here : (⟨module, function.name⟩ : Key) = key
          · simp [here, Checked.function, recorded]
          · simp [here, Checked.function, recorded]
      | _ => exact ⟨rfl, rfl⟩

theorem read_snapshotOne (checked : Checked)
    (distinct : (checked.module.items.flatMap Item.names).Nodup) (out : Snapshots) (key : Key) :
    (∀ entry, entry ∈ ((snapshotOne out checked).read key).authority ↔
      entry ∈ (out.read key).authority ∨ checked.module.name = some key.module ∧
        ∃ item ∈ checked.module.items,
          Item.Performs checked.module item key.declaration entry) ∧
    ((snapshotOne out checked).read key).obligations =
      recorded checked.functions key (out.read key).obligations := by
  rw [snapshotOne, Checked.functions]
  cases checked.module.name with
  | none => simp [recorded]
  | some module =>
      have found := read_takeObligations checked module checked.module.items
        ((Exports.of checked.module).foldl (takeAuthority module) out) key
      constructor
      · intro entry
        have offers := read_takeAuthority module (Exports.of checked.module) out key entry
        rw [found.1, offers.1, exports_perform distinct, Option.some.injEq]
      · rw [found.2, (read_takeAuthority module (Exports.of checked.module) out key
          ⟨"", "", none, false⟩).2]
        rfl

/-! ## A set of modules -/

theorem read_snapshot {checks : List Checked}
    (distinct : ∀ checked ∈ checks, (checked.module.items.flatMap Item.names).Nodup)
    (out : Snapshots) (key : Key) :
    (∀ entry, entry ∈ ((checks.foldl snapshotOne out).read key).authority ↔
      entry ∈ (out.read key).authority ∨ Performs checks key entry) ∧
    ((checks.foldl snapshotOne out).read key).obligations =
      recorded (checks.flatMap Checked.functions) key (out.read key).obligations := by
  induction checks generalizing out with
  | nil =>
      constructor
      · intro entry
        exact (or_iff_left fun ⟨_, absurdity, _⟩ => absurd absurdity List.not_mem_nil).symm
      · rfl
  | cons first rest ih =>
      rw [List.forall_mem_cons] at distinct
      have later := ih distinct.2 (snapshotOne out first)
      have now := read_snapshotOne first distinct.1 out key
      rw [List.foldl_cons, List.flatMap_cons]
      constructor
      · intro entry
        rw [later.1, now.1, or_assoc]
        apply or_congr_right
        rw [Performs, Performs]
        simp only [List.mem_cons, exists_eq_or_imp]
      · rw [later.2, now.2, recorded_append]

theorem performs_snapshot (side : Side) (key : Key) (entry : RowEntry) :
    entry ∈ ((snapshot side.checks).read key).authority ↔ Performs side.checks key entry := by
  rw [snapshot, (read_snapshot side.declarations [] key).1]
  exact or_iff_right List.not_mem_nil

/-- The name of an item that is a function. -/
def Item.functionName : Item → Option String
  | .function function => some function.name
  | _ => none

theorem functionNames_sublist (items : List Item) :
    (items.filterMap Item.functionName).Sublist (items.flatMap Item.names) := by
  induction items with
  | nil => exact List.Sublist.refl _
  | cons first rest ih =>
      rw [List.filterMap_cons, List.flatMap_cons]
      cases first with
      | function function => exact ih.cons_cons function.name
      | _ => exact ih.trans (List.sublist_append_right _ _)

theorem functions_keys {checked : Checked} {module : String}
    (named : checked.module.name = some module) :
    checked.functions.map Prod.fst =
      (checked.module.items.filterMap Item.functionName).map fun name => ⟨module, name⟩ := by
  rw [Checked.functions, named, List.map_filterMap, Option.elim_some, List.map_filterMap]
  congr 1
  funext item
  cases item <;> rfl

theorem module_of_function {checked : Checked} {key : Key}
    (member : key ∈ checked.functions.map Prod.fst) :
    checked.module.name = some key.module := by
  cases named : checked.module.name with
  | none =>
      rw [Checked.functions, named] at member
      cases member
  | some module =>
      rw [functions_keys named] at member
      obtain ⟨name, -, rfl⟩ := List.mem_map.1 member
      rfl

/-- No two functions of a side have the same key. -/
theorem functions_distinct (side : Side) :
    ((side.checks.flatMap Checked.functions).map Prod.fst).Nodup := by
  rw [List.map_flatMap, List.nodup_flatMap]
  constructor
  · intro checked member
    cases named : checked.module.name with
    | none =>
        rw [Checked.functions, named]
        exact List.nodup_nil
    | some module =>
        rw [functions_keys named]
        apply List.Nodup.map (fun one other same => congrArg Key.declaration same)
        exact (side.declarations checked member).sublist (functionNames_sublist _)
  · apply (List.pairwise_filterMap.1 side.modules).imp
    intro first second apart key member member'
    exact apart _ (module_of_function member) _ (module_of_function member') rfl

/-- The tiers a snapshot has are the ones that were found. -/
theorem tiers_snapshot (side : Side) (key : Key) (subject : String) :
    (tiersIn ((snapshot side.checks).read key).obligations subject).Perm
      (tiersOf side.checks key subject) := by
  have found := (read_snapshot side.declarations [] key).2
  rw [snapshot, found, tiersOf, recorded]
  have distinct := functions_distinct side
  generalize side.checks.flatMap Checked.functions = functions at distinct
  rcases filter_key distinct key with none_ | ⟨function, one⟩
  · rw [none_]
    exact List.Perm.refl _
  · rw [one]
    exact (tiersIn_record function.2 subject).trans
      (List.Perm.of_eq (List.append_nil _).symm)

end Deed.Driver.Review
