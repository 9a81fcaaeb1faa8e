import Deed.Resolve.Exports

/-!
# What a reviewer has to trust

`crates/deed-driver/src/review.rs`: the receipt for a change from one set of checked modules
to another, and the policies that turn its findings into a verdict.  The tiers are what the
checker answered; the receipt only compares them.
-/

namespace Deed.Driver.Review

open Deed.Library Deed.Resolve

/-! ## What was checked -/

/-- How an obligation was discharged. -/
inductive Tier where
  | proven | tested | guarded
deriving DecidableEq, Repr

def tierRank : Tier → Nat
  | .proven => 0
  | .tested => 1
  | .guarded => 2

/-- One obligation, where it was found and how it was discharged. -/
structure ObligationReport where
  tier : Tier
  span : Ast.Span
  subject : String
deriving DecidableEq, Repr

/-- A module and the obligations found in its file, in source order. -/
structure Checked where
  module : Module
  obligations : List ObligationReport
deriving DecidableEq, Repr

/-- A span lies inside another. -/
def containsSpan (outer inner : Ast.Span) : Bool :=
  outer.start ≤ inner.start && inner.stop ≤ outer.stop

/-! ## The receipt -/

structure AuthorityChange where
  module : String
  declaration : String
  authority : String
deriving DecidableEq, Repr

structure TierRegression where
  module : String
  declaration : String
  subject : String
  occurrence : Nat
  before : Tier
  after : Tier
deriving DecidableEq, Repr

structure GuardedAddition where
  module : String
  declaration : String
  subject : String
  occurrence : Nat
deriving DecidableEq, Repr

structure ReviewReceipt where
  authorityAdded : List AuthorityChange
  tierRegressions : List TierRegression
  guardedAdded : List GuardedAddition
deriving DecidableEq, Repr

namespace ReviewReceipt

/-- The receipt with nothing on it. -/
def empty : ReviewReceipt := ⟨[], [], []⟩

/-- What two receipts say, one after the other. -/
def and (first second : ReviewReceipt) : ReviewReceipt where
  authorityAdded := first.authorityAdded ++ second.authorityAdded
  tierRegressions := first.tierRegressions ++ second.tierRegressions
  guardedAdded := first.guardedAdded ++ second.guardedAdded

def isClean (receipt : ReviewReceipt) : Bool :=
  receipt.authorityAdded.isEmpty && receipt.tierRegressions.isEmpty &&
    receipt.guardedAdded.isEmpty

end ReviewReceipt

/-! ## Policies -/

structure ReviewPolicy where
  denyNewAuthority : Bool
  denyWeakerPromises : Bool
  denyNewGuarded : Bool

inductive PolicyRule where
  | newAuthority | weakerPromises | newGuarded
deriving DecidableEq, Repr

structure PolicyViolation where
  rule : PolicyRule
  findings : Nat
deriving DecidableEq, Repr

/-- A rule that is asked for is broken by the findings it is about. -/
def violation (asked : Bool) (rule : PolicyRule) (findings : Nat) : List PolicyViolation :=
  if asked && findings != 0 then [⟨rule, findings⟩] else []

def ReviewReceipt.evaluate (receipt : ReviewReceipt) (policy : ReviewPolicy) :
    List PolicyViolation :=
  violation policy.denyNewAuthority .newAuthority receipt.authorityAdded.length ++
    violation policy.denyWeakerPromises .weakerPromises receipt.tierRegressions.length ++
      violation policy.denyNewGuarded .newGuarded receipt.guardedAdded.length

/-- A verdict passes where no rule was broken. -/
def passed (violations : List PolicyViolation) : Bool := violations.isEmpty

/-! ## Snapshots -/

/-- A declaration, by its module and its name. -/
structure Key where
  module : String
  declaration : String
deriving DecidableEq, Repr

instance : LT Key where
  lt left right :=
    left.module < right.module ∨
      left.module = right.module ∧ left.declaration < right.declaration

instance : DecidableLT Key := fun left right =>
  inferInstanceAs (Decidable (left.module < right.module ∨
    left.module = right.module ∧ left.declaration < right.declaration))

/-- The obligation about a subject that is so many after the first. -/
structure Occurrence where
  subject : String
  occurrence : Nat
deriving DecidableEq, Repr

instance : LT Occurrence where
  lt left right :=
    left.subject < right.subject ∨
      left.subject = right.subject ∧ left.occurrence < right.occurrence

instance : DecidableLT Occurrence := fun left right =>
  inferInstanceAs (Decidable (left.subject < right.subject ∨
    left.subject = right.subject ∧ left.occurrence < right.occurrence))

structure DeclarationSnapshot where
  authority : List RowEntry
  obligations : List (Occurrence × Tier)
deriving DecidableEq, Repr

/-- A declaration nothing is known of. -/
def DeclarationSnapshot.default : DeclarationSnapshot := ⟨[], []⟩

abbrev Snapshots := List (Key × DeclarationSnapshot)

/-- The snapshot of a key after a change. -/
def Snapshots.at (out : Snapshots) (key : Key)
    (change : DeclarationSnapshot → DeclarationSnapshot) : Snapshots :=
  Assoc.update out .default key change

/-- One more obligation, under the number of those about its subject before it. -/
def recordOne (state : List (String × Nat) × List (Occurrence × Tier))
    (found : String × Tier) : List (String × Nat) × List (Occurrence × Tier) :=
  let occurrence := (Assoc.find? state.1 found.1).getD 0
  (Assoc.insert state.1 found.1 (occurrence + 1),
    Assoc.insert state.2 ⟨found.1, occurrence⟩ found.2)

/-- The obligations of one function, numbered subject by subject. -/
def record (held : List (Occurrence × Tier)) (found : List (String × Tier)) :
    List (Occurrence × Tier) :=
  (found.foldl recordOne ([], held)).2

/-- The obligations inside a function, by what had to hold and how it was discharged. -/
def located (checked : Checked) (function : FnDecl) : List (String × Tier) :=
  (checked.obligations.filter fun report => containsSpan function.span report.span).map
    fun report => (report.subject, report.tier)

/-- What an exported function or handler declares it performs. -/
def takeAuthority (module : String) (out : Snapshots) (offered : String × Export) : Snapshots :=
  if offered.2.kind ∈ [ExportKind.function, ExportKind.handler] then
    out.at ⟨module, offered.1⟩ fun snapshot =>
      { snapshot with authority := addAll snapshot.authority offered.2.row }
  else out

/-- What was found in a function. -/
def takeObligations (checked : Checked) (module : String) (out : Snapshots) (item : Item) :
    Snapshots :=
  match item with
  | .function function =>
      out.at ⟨module, function.name⟩ fun snapshot =>
        { snapshot with obligations := record snapshot.obligations (located checked function) }
  | _ => out

/-- A module without a name has no identity a receipt could use. -/
def snapshotOne (out : Snapshots) (checked : Checked) : Snapshots :=
  match checked.module.name with
  | none => out
  | some module =>
      checked.module.items.foldl (takeObligations checked module)
        ((Exports.of checked.module).foldl (takeAuthority module) out)

def snapshot (checks : List Checked) : Snapshots := checks.foldl snapshotOne []

/-! ## The comparison -/

/-- An entry is allowed by an old one that is the same or that is about its whole effect. -/
def covers (old new : RowEntry) : Bool :=
  old == new ||
    (!old.variable_ && !new.variable_ && old.module == new.module && old.effect == new.effect &&
      old.operation.isNone)

/-- How a receipt writes an entry. -/
def authority (row : RowEntry) (currentModule : String) : String :=
  if row.variable_ then "row " ++ row.effect
  else
    let effect :=
      if row.module.isEmpty || row.module == currentModule then row.effect
      else row.module ++ "/" ++ row.effect
    match row.operation with
    | some operation => effect ++ "." ++ operation
    | none => effect

/-- The entries nothing old allows. -/
def compareAuthority (key : Key) (before : Option DeclarationSnapshot)
    (after : DeclarationSnapshot) : ReviewReceipt where
  authorityAdded :=
    (after.authority.filter fun entry =>
      before.elim true fun previous => !previous.authority.any fun old => covers old entry).map
        fun entry => ⟨key.module, key.declaration, authority entry key.module⟩
  tierRegressions := []
  guardedAdded := []

/-- An obligation that fell to a weaker tier. -/
def weaker : Tier → Tier → Bool
  | .proven, .tested | .proven, .guarded | .tested, .guarded => true
  | _, _ => false

/-- The old tiers of a subject against the new ones. -/
def compareSubject (key : Key) (before : List Tier) (subject : String)
    (after : List (Nat × Tier)) : ReviewReceipt :=
  let left := cancel before after
  let before := left.1.insertionSort fun one other => tierRank one ≤ tierRank other
  let after := left.2.insertionSort fun one other => tierRank one.2 ≤ tierRank other.2
  { authorityAdded := []
    tierRegressions :=
      ((before.zip after).filter fun pair => weaker pair.1 pair.2.2).map fun pair =>
        ⟨key.module, key.declaration, subject, pair.2.1, pair.1, pair.2.2⟩
    guardedAdded :=
      ((after.drop before.length).filter fun entry => entry.2 == .guarded).map fun entry =>
        ⟨key.module, key.declaration, subject, entry.1⟩ }

/-- The old tiers of a subject. -/
def previousTiers (before : Option DeclarationSnapshot) (subject : String) : List Tier :=
  before.elim [] fun function =>
    (function.obligations.filter fun entry => entry.1.subject == subject).map Prod.snd

/-- The obligations by their subjects. -/
def bySubject (obligations : List (Occurrence × Tier)) : List (String × List (Nat × Tier)) :=
  grouped (obligations.map fun entry => (entry.1.subject, entry.1.occurrence, entry.2))

def compareObligations (key : Key) (before : Option DeclarationSnapshot)
    (after : DeclarationSnapshot) : ReviewReceipt :=
  (bySubject after.obligations).foldl
    (fun receipt group =>
      receipt.and (compareSubject key (previousTiers before group.1) group.1 group.2)) .empty

def ReviewReceipt.between (before after : List Checked) : ReviewReceipt :=
  let old := snapshot before
  let new := snapshot after
  new.foldl
    (fun receipt entry =>
      (receipt.and (compareAuthority entry.1 (Assoc.find? old entry.1) entry.2)).and
        (compareObligations entry.1 (Assoc.find? old entry.1) entry.2)) .empty

end Deed.Driver.Review
