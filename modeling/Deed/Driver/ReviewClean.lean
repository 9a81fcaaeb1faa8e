import Deed.Driver.ReviewSnapshot

/-!
# What a clean receipt leaves out

What a clean receipt says about the powers and the obligations of two sides, and what the
receipt for a rearranged side is.
-/

namespace Deed.Driver.Review

open Deed.Library Deed.Resolve

/-! ## Powers -/

/-- Something a declaration may do: an operation, or what stands behind a row variable. -/
inductive Power where
  | operation (module effect operation : String)
  | row (module variable_ : String) (operation : Option String)

/-- What an entry of a row allows. -/
def grants (entry : RowEntry) : Set Power := fun power =>
  match power with
  | .operation module effect operation =>
      entry.variable_ = false ∧ entry.module = module ∧ entry.effect = effect ∧
        (entry.operation = none ∨ entry.operation = some operation)
  | .row module name operation =>
      entry.variable_ = true ∧ entry.module = module ∧ entry.effect = name ∧
        entry.operation = operation

/-- An old entry covers a new one exactly where the new one allows nothing else. -/
theorem covers_iff {old new : RowEntry} : covers old new = true ↔ grants new ⊆ grants old := by
  rcases old with ⟨module, effect, operation, variable_⟩
  rcases new with ⟨module', effect', operation', variable'⟩
  constructor
  · intro covered
    simp only [covers, Bool.or_eq_true, beq_iff_eq, Bool.and_eq_true, Bool.not_eq_true',
      Option.isNone_iff_eq_none] at covered
    rcases covered with same | ⟨⟨⟨⟨rfl, rfl⟩, rfl⟩, rfl⟩, rfl⟩
    · rw [same]
    · rintro (⟨m, e, o⟩ | ⟨m, v, o⟩) ⟨real, here, named, -⟩
      · exact ⟨rfl, here, named, Or.inl rfl⟩
      · cases real
  · intro every
    cases variable' with
    | true =>
        obtain ⟨rfl, rfl, rfl, rfl⟩ :=
          every (show Power.row module' effect' operation' ∈ _ from ⟨rfl, rfl, rfl, rfl⟩)
        exact covers_refl _
    | false =>
        cases operation' with
        | none =>
            have first : Power.operation module' effect' "" ∈ _ :=
              every ⟨rfl, rfl, rfl, Or.inl rfl⟩
            have second : Power.operation module' effect' "_" ∈ _ :=
              every ⟨rfl, rfl, rfl, Or.inl rfl⟩
            obtain ⟨rfl, rfl, rfl, whole | one⟩ := first
            · cases whole
              exact covers_refl _
            · cases one
              obtain ⟨-, -, -, whole | other⟩ := second
              · cases whole
              · exact absurd (Option.some.inj other) (by decide)
        | some named =>
            obtain ⟨rfl, rfl, rfl, whole | one⟩ :=
              every (show Power.operation module' effect' named ∈ _ from
                ⟨rfl, rfl, rfl, Or.inr rfl⟩)
            · cases whole
              simp [covers]
            · cases one
              exact covers_refl _

/-! ## Clean receipts -/

theorem between_eq_empty {before after : List Checked} :
    ReviewReceipt.between before after = .empty ↔ ∀ entry ∈ snapshot after,
      compareAuthority entry.1 (Assoc.find? (snapshot before) entry.1) entry.2 = .empty ∧
        compareObligations entry.1 (Assoc.find? (snapshot before) entry.1) entry.2 =
          .empty := by
  have each : ∀ (receipt : ReviewReceipt) (entry : Key × DeclarationSnapshot),
      (receipt.and (compareAuthority entry.1 (Assoc.find? (snapshot before) entry.1)
        entry.2)).and (compareObligations entry.1 (Assoc.find? (snapshot before) entry.1)
          entry.2) = .empty ↔ receipt = .empty ∧
      (compareAuthority entry.1 (Assoc.find? (snapshot before) entry.1) entry.2 = .empty ∧
        compareObligations entry.1 (Assoc.find? (snapshot before) entry.1) entry.2 =
          .empty) := by
    intro receipt entry
    rw [ReviewReceipt.and_eq_empty, ReviewReceipt.and_eq_empty, and_assoc]
  rw [ReviewReceipt.between, ReviewReceipt.foldl_eq_empty each]
  exact and_iff_right rfl

theorem snapshot_distinct (checks : List Checked) : Assoc.Distinct (snapshot checks) := by
  have offers : ∀ (module : String) (exports : List (String × Export)) (out : Snapshots),
      Assoc.Distinct out → Assoc.Distinct (exports.foldl (takeAuthority module) out) := by
    intro module exports
    induction exports with
    | nil => exact fun out distinct => distinct
    | cons first rest ih =>
        intro out distinct
        apply ih
        rw [takeAuthority]
        split
        · exact Snapshots.at_distinct distinct _ _
        · exact distinct
  have items : ∀ (checked : Checked) (module : String) (items : List Item) (out : Snapshots),
      Assoc.Distinct out →
        Assoc.Distinct (items.foldl (takeObligations checked module) out) := by
    intro checked module items
    induction items with
    | nil => exact fun out distinct => distinct
    | cons first rest ih =>
        intro out distinct
        apply ih
        cases first with
        | function function => exact Snapshots.at_distinct distinct _ _
        | _ => exact distinct
  have whole : ∀ out : Snapshots, Assoc.Distinct out →
      Assoc.Distinct (checks.foldl snapshotOne out) := by
    induction checks with
    | nil => exact fun out distinct => distinct
    | cons first rest ih =>
        intro out distinct
        apply ih
        rw [snapshotOne]
        split
        · exact distinct
        · exact items _ _ _ _ (offers _ _ _ distinct)
  exact whole [] List.nodup_nil

theorem read_of_find? {out : Snapshots} {key : Key} {known : DeclarationSnapshot}
    (found : Assoc.find? out key = some known) : out.read key = known := by
  rw [Snapshots.read, found]
  rfl

/-- What a clean receipt says of one key. -/
theorem clean_at {before after : Side}
    (clean : ReviewReceipt.between before.checks after.checks = .empty) (key : Key) :
    (∀ entry, Performs after.checks key entry →
      ∃ old, Performs before.checks key old ∧ covers old entry = true) ∧
    ∀ subject, Kept (tiersOf before.checks key subject) (tiersOf after.checks key subject) := by
  have each := between_eq_empty.1 clean
  have tiers := fun side subject => tiers_snapshot side key subject
  cases found : Assoc.find? (snapshot after.checks) key with
  | some known =>
      obtain ⟨authorities, obligations⟩ := each _ (Assoc.mem_of_find? found)
      have current := read_of_find? found
      constructor
      · intro entry performed
        have member := (performs_snapshot after key entry).2 performed
        rw [current] at member
        obtain ⟨old, known_, covered⟩ := compareAuthority_eq_empty.1 authorities entry member
        exact ⟨old, (performs_snapshot before key old).1 known_, covered⟩
      · intro subject
        have kept := kept_of_compareObligations obligations subject
        rw [← current] at kept
        exact kept.perm (tiers before subject).symm (tiers after subject).symm
  | none =>
      have current : (snapshot after.checks).read key = .default := by
        rw [Snapshots.read, found]
        rfl
      constructor
      · intro entry performed
        have member := (performs_snapshot after key entry).2 performed
        rw [current] at member
        cases member
      · intro subject
        have same := tiers after subject
        rw [current] at same
        rw [(same : ([] : List Tier).Perm _).nil_eq.symm]
        exact Kept.nothing _

/-! ## Rearranged sides -/

/-- The one list is the other in another order, up to a relation. -/
def Rearranged {α β : Type*} (moved : α → β → Prop) (olds : List α) (news : List β) : Prop :=
  ∃ placed, olds.Perm placed ∧ List.Forall₂ moved placed news

/-- The same signature and contract over the same statements in another order. -/
structure FnDecl.Moved (before after : FnDecl) : Prop where
  name : before.name = after.name
  rows : before.rows = after.rows
  uses : before.uses = after.uses
  body : before.body.Perm after.body

inductive Item.Moved : Item → Item → Prop
  | same (item : Item) : Item.Moved item item
  | function {before after : FnDecl} (moved : FnDecl.Moved before after) :
      Item.Moved (.function before) (.function after)
  | handler {before after : HandlerDecl} (name : before.name = after.name)
      (effect : before.effect = after.effect)
      (operations : Rearranged FnDecl.Moved before.operations after.operations) :
      Item.Moved (.handler before) (.handler after)

structure Module.Moved (before after : Module) : Prop where
  name : before.name = after.name
  uses : before.uses = after.uses
  items : Rearranged Item.Moved before.items after.items

/-- Only declarations, statements and modules are in another order. -/
def Reordered (before after : List Checked) : Prop :=
  Rearranged (fun old new => Module.Moved old.module new.module) before after

/-- The checker found the same obligations and discharged them in the same way, whatever
their order. -/
def SameTiers (before after : List Checked) : Prop :=
  ∀ key subject, (tiersOf before key subject).Perm (tiersOf after key subject)

theorem Rearranged.source {α β : Type*} {moved : α → β → Prop} {olds : List α} {news : List β}
    (rearranged : Rearranged moved olds news) {new : β} (member : new ∈ news) :
    ∃ old ∈ olds, moved old new := by
  obtain ⟨placed, perm, each⟩ := rearranged
  have found : ∀ {placed : List α} {news : List β}, List.Forall₂ moved placed news →
      new ∈ news → ∃ old ∈ placed, moved old new := by
    intro placed news each
    induction each with
    | nil => exact fun absurdity => absurd absurdity List.not_mem_nil
    | cons pair rest ih =>
        intro member
        rcases List.mem_cons.1 member with rfl | member
        · exact ⟨_, List.mem_cons_self, pair⟩
        · obtain ⟨old, inside, moved⟩ := ih member
          exact ⟨old, List.mem_cons_of_mem _ inside, moved⟩
  obtain ⟨old, inside, moved⟩ := found each member
  exact ⟨old, perm.mem_iff.2 inside, moved⟩

theorem find?_perm {κ α : Type*} [DecidableEq κ] {entries entries' : List (κ × α)}
    (distinct : Assoc.Distinct entries) (same : entries.Perm entries') (key : κ) :
    Assoc.find? entries key = Assoc.find? entries' key := by
  have distinct' : Assoc.Distinct entries' := (same.map Prod.fst).nodup_iff.1 distinct
  ext value
  constructor
  · exact fun found =>
      Assoc.find?_of_mem distinct' (same.mem_iff.1 (Assoc.mem_of_find? found))
  · exact fun found =>
      Assoc.find?_of_mem distinct (same.mem_iff.2 (Assoc.mem_of_find? found))

theorem effectNames_sublist (items : List Item) :
    ((items.filterMap Item.effectRow).map Prod.fst).Sublist (items.flatMap Item.names) := by
  induction items with
  | nil => exact List.Sublist.refl _
  | cons first rest ih =>
      rw [List.filterMap_cons, List.flatMap_cons]
      cases first with
      | effect name rows => exact ih.cons_cons name
      | _ => exact ih.trans (List.sublist_append_right _ _)

theorem effectRows_perm {module : Module}
    (distinct : (module.items.flatMap Item.names).Nodup) :
    (effectRows module).Perm (module.items.filterMap Item.effectRow) ∧
      Assoc.Distinct (effectRows module) := by
  have fresh := distinct.sublist (effectNames_sublist module.items)
  have written : (effectRows module).Perm (module.items.filterMap Item.effectRow ++ []) :=
    Assoc.insertAll_perm (by rwa [List.map_nil, List.append_nil])
  rw [List.append_nil] at written
  exact ⟨written, (written.map Prod.fst).nodup_iff.2 fresh⟩

theorem Item.Moved.effectRow {old new : Item} (moved : Item.Moved old new) :
    old.effectRow = new.effectRow := by
  cases moved <;> rfl

theorem effectRows_moved {before after : Module} (moved : Module.Moved before after)
    (distinct : (before.items.flatMap Item.names).Nodup)
    (distinct' : (after.items.flatMap Item.names).Nodup) (effect : String) :
    Assoc.find? (effectRows before) effect = Assoc.find? (effectRows after) effect := by
  obtain ⟨placed, perm, each⟩ := moved.items
  have rows : placed.filterMap Item.effectRow = after.items.filterMap Item.effectRow := by
    generalize after.items = items at each
    clear perm
    induction each with
    | nil => rfl
    | cons pair rest ih => rw [List.filterMap_cons, List.filterMap_cons, pair.effectRow, ih]
  have old := effectRows_perm distinct
  have new := effectRows_perm distinct'
  apply find?_perm old.2
  apply old.1.trans
  apply (perm.filterMap Item.effectRow).trans
  rw [rows]
  exact new.1.symm

theorem entry_moved {before after : Module} (name : before.name = after.name)
    (uses : before.uses = after.uses) (rows : List String) (ref : EffectRef) :
    ((RowLowering.of before).declaring rows).entry ref =
      ((RowLowering.of after).declaring rows).entry ref := by
  rw [RowLowering.of, RowLowering.of, name, uses]

theorem Item.Performs.moved {before after : Module} (moved : Module.Moved before after)
    (distinct : (before.items.flatMap Item.names).Nodup)
    (distinct' : (after.items.flatMap Item.names).Nodup) {old new : Item} {name : String}
    {entry : RowEntry} (placed : Item.Moved old new)
    (performed : Item.Performs after new name entry) : Item.Performs before old name entry := by
  cases performed with
  | @function decl ref written listed =>
      rw [forFunction, ← entry_moved moved.name moved.uses]
      cases placed with
      | same => exact Item.Performs.function written listed
      | @function before' _ same =>
          rw [← same.name, ← same.rows]
          rw [← same.uses] at written
          exact Item.Performs.function written listed
  | @handler decl operation ref implemented written listed =>
      rw [forHandler, ← entry_moved moved.name moved.uses,
        ← effectRows_moved moved distinct distinct']
      cases placed with
      | same => exact Item.Performs.handler implemented written listed
      | @handler before' _ same effect operations =>
          rw [← same, ← effect]
          obtain ⟨operation', implemented', like⟩ := operations.source implemented
          rw [← like.uses] at written
          exact Item.Performs.handler implemented' written listed

theorem Performs.reordered {before after : Side}
    (reordered : Reordered before.checks after.checks) {key : Key} {entry : RowEntry}
    (performed : Performs after.checks key entry) : Performs before.checks key entry := by
  obtain ⟨checked, member, named, item, inside, performs⟩ := performed
  obtain ⟨checked', member', moved⟩ := reordered.source member
  obtain ⟨item', inside', placed⟩ := moved.items.source inside
  refine ⟨checked', member', moved.name.trans named, item', inside', ?_⟩
  exact Item.Performs.moved moved (before.declarations _ member')
    (after.declarations _ member) placed performs

/-! ## The receipt -/

/--
A clean receipt leaves out nothing: what a function or a handler of a module with a name
declares without a star, the same declaration was allowed before, and the tiers of what was
found in a function are matched by the tiers of before.  Another order of the declarations,
the statements or the modules is no finding as long as the tiers are the same.
-/
theorem receipt_hides_nothing (before after : Side) :
    ((ReviewReceipt.between before.checks after.checks).isClean = true →
      (∀ key entry, Performs after.checks key entry →
        ∃ old, Performs before.checks key old ∧ grants entry ⊆ grants old) ∧
      ∀ key subject,
        Kept (tiersOf before.checks key subject) (tiersOf after.checks key subject)) ∧
    (Reordered before.checks after.checks → SameTiers before.checks after.checks →
      ReviewReceipt.between before.checks after.checks = .empty) := by
  constructor
  · intro clean
    have quiet := ReviewReceipt.isClean_iff.1 clean
    constructor
    · intro key entry performed
      obtain ⟨old, allowed, covered⟩ := (clean_at quiet key).1 entry performed
      exact ⟨old, allowed, covers_iff.1 covered⟩
    · exact fun key subject => (clean_at quiet key).2 subject
  · intro reordered same
    rw [between_eq_empty]
    rintro ⟨key, known⟩ member
    have current := read_of_find? (Assoc.find?_of_mem (snapshot_distinct _) member)
    constructor
    · rw [compareAuthority_eq_empty]
      intro entry performed
      rw [← current, performs_snapshot] at performed
      refine ⟨entry, ?_, covers_refl entry⟩
      exact (performs_snapshot before key entry).2 (Performs.reordered reordered performed)
    · apply compareObligations_same
      intro subject
      rw [← current]
      exact ((tiers_snapshot before key subject).trans (same key subject)).trans
        (tiers_snapshot after key subject).symm

/-- `save`, with what its contract lists. -/
def saving (module : Option String) (uses : List EffectRef) : Checked where
  module := ⟨module, [], [.effect "Store" [], .function ⟨"save", [], uses, [], ⟨0, 60⟩⟩]⟩
  obligations := []

/-- `take`, with where its call of `needs` stands and how its argument was discharged. -/
def taking (body : List String) (offset : Nat) (tier : Tier) : Checked where
  module :=
    ⟨some "sample", [],
      [.typeAlias "Positive", .function ⟨"needs", [], [], ["value"], ⟨52, 94⟩⟩,
        .function ⟨"take", [], [], body, ⟨96, 176⟩⟩]⟩
  obligations := [⟨tier, ⟨offset, offset + 1⟩, "Positive"⟩]

/-- A module alone. -/
def alone (checked : Checked)
    (declarations : (checked.module.items.flatMap Item.names).Nodup) : Side where
  checks := [checked]
  modules := by
    rw [List.filterMap_cons]
    cases checked.module.name with
    | none => exact List.nodup_nil
    | some module => exact List.nodup_singleton _
  declarations := by
    intro other member
    cases List.mem_singleton.1 member
    exact declarations

theorem receipt_hides_nothing_narrowed :
    (∃ old, Performs (saving (some "sample") [⟨"Store", none, false⟩] :: []) ⟨"sample", "save"⟩
        old ∧ grants ⟨"sample", "Store", some "write", false⟩ ⊆ grants old) ∧
      ReviewReceipt.between
        [taking ["if n <= 0 { return 0 }", "let a = needs(n)", "a"] 166 .proven]
        [taking ["if n <= 0 { return 0 }", "let a = needs(n)", "a"] 166 .proven] = .empty := by
  constructor
  · apply ((receipt_hides_nothing (alone (saving (some "sample") [⟨"Store", none, false⟩])
      (by decide)) (alone (saving (some "sample") [⟨"Store", some "write", false⟩])
      (by decide))).1 (by decide)).1
    refine ⟨_, List.mem_singleton.2 rfl, rfl, _, List.mem_cons_of_mem _ List.mem_cons_self, ?_⟩
    exact @Item.Performs.function _ ⟨"save", [], [⟨"Store", some "write", false⟩], [], ⟨0, 60⟩⟩
        ⟨"Store", some "write", false⟩ List.mem_cons_self rfl
  · apply (receipt_hides_nothing (alone _ (by decide)) (alone _ (by decide))).2
    · refine ⟨_, List.Perm.refl _, List.Forall₂.cons ⟨rfl, rfl, ?_⟩ List.Forall₂.nil⟩
      refine ⟨_, List.Perm.refl _, ?_⟩
      exact List.forall₂_same.2 fun item _ => Item.Moved.same item
    · exact fun key subject => List.Perm.refl _

/--
Below the guard `needs(n)` is proven, above it the same call is guarded, and the receipt
says so.  A module without a name is not on a receipt: who asks for one is told to name it.
-/
theorem receipt_of_reordered :
    (∃ before after : Side, Reordered before.checks after.checks ∧
      ReviewReceipt.between before.checks after.checks =
        ⟨[], [⟨"sample", "take", "Positive", 0, .proven, .guarded⟩], []⟩) ∧
    ∃ before after : Side,
      (ReviewReceipt.between before.checks after.checks).isClean = true ∧
      (∃ checked ∈ after.checks, ∃ item ∈ checked.module.items,
        Item.Performs checked.module item "save" ⟨"", "Store", some "write", false⟩) ∧
      ∀ checked ∈ before.checks, ∀ item ∈ checked.module.items, ∀ name entry,
        ¬Item.Performs checked.module item name entry := by
  constructor
  · refine ⟨alone (taking ["if n <= 0 { return 0 }", "let a = needs(n)", "a"] 166 .proven)
      (by decide), alone (taking ["let a = needs(n)", "if n <= 0 { return 0 }", "a"] 139
      .guarded) (by decide), ?_, by decide⟩
    refine ⟨_, List.Perm.refl _, List.Forall₂.cons ⟨rfl, rfl, ?_⟩ List.Forall₂.nil⟩
    refine ⟨_, List.Perm.refl _, List.Forall₂.cons (Item.Moved.same _) (List.Forall₂.cons
      (Item.Moved.same _) (List.Forall₂.cons (Item.Moved.function ⟨rfl, rfl, rfl, ?_⟩)
        List.Forall₂.nil))⟩
    exact List.Perm.swap _ _ _
  · refine ⟨alone (saving none []) (by decide),
      alone (saving none [⟨"Store", some "write", false⟩]) (by decide), by decide, ?_, ?_⟩
    · refine ⟨_, List.mem_singleton.2 rfl, _, List.mem_cons_of_mem _ List.mem_cons_self, ?_⟩
      exact @Item.Performs.function _ ⟨"save", [], [⟨"Store", some "write", false⟩], [], ⟨0, 60⟩⟩
          ⟨"Store", some "write", false⟩ List.mem_cons_self rfl
    · intro checked member item inside name entry performs
      cases List.mem_singleton.1 member
      rcases List.mem_cons.1 inside with rfl | inside
      · cases performs
      · cases List.mem_singleton.1 inside
        cases performs with
        | function written listed => cases written

end Deed.Driver.Review
