import Deed.Eval.Shrink

/-!
# Smaller forms of a value

`Simpler` of `crates/deed-interp/src/property.rs`: which variants a value could be replaced
by, worked out once from the choices that a module declares, and the smaller forms of a value.
-/

namespace Deed.Eval

/-- A variant of a choice: what it is called in its module, where that is known, and its fields. -/
structure ChoiceVariant where
  identity : Option Origin
  fields : Option (List String)
deriving DecidableEq, Repr

/-- A choice with its variants. -/
structure ChoiceDecl where
  variants : List ChoiceVariant
deriving DecidableEq, Repr

namespace ChoiceDecl

/-- The variants that have an identity. -/
def identities (choice : ChoiceDecl) : List Origin :=
  choice.variants.filterMap ChoiceVariant.identity

/-- Those that carry no field. -/
def empty (choice : ChoiceDecl) : List Origin :=
  (choice.variants.filter fun variant => (variant.fields.getD []).isEmpty).filterMap
    ChoiceVariant.identity

end ChoiceDecl

/-- The choices of a module, no two variants of which have one name. -/
structure Choices where
  choices : List ChoiceDecl
  distinct : (choices.flatMap ChoiceDecl.identities).Nodup

/-- Variant identity to the fieldless variants of the same choice; a later entry comes first. -/
structure Simpler where
  fieldless : List (Origin × List Origin)

namespace Simpler

/-- The fieldless variants that a variant can be replaced by.  A fieldless variant is not simpler
than itself. -/
def others (choice : ChoiceDecl) (identity : Origin) : List Origin :=
  choice.empty.filter fun it => it ≠ identity

/-- The entries for the variants of a choice. -/
def entries (table : List (Origin × List Origin)) (choice : ChoiceDecl) :
    List (Origin × List Origin) :=
  choice.identities.foldl (fun table identity =>
    if (others choice identity).isEmpty then table
    else (identity, others choice identity) :: table) table

/-- `Simpler::of` -/
def of (declared : Choices) : Simpler := ⟨declared.choices.foldl entries []⟩

variable (simpler : Simpler)

/-- The variants that a variant can be replaced by. -/
def siblings (identity : Origin) : List Origin := (simpler.fieldless.lookup identity).getD []

/-- Fewer elements first. -/
def shorter (elements : List Value) : List Value :=
  if elements.isEmpty then []
  else
    .list [] ::
      if 1 < elements.length then
        .list (elements.take (elements.length / 2)) ::
          (List.range elements.length).map fun skip => .list (elements.eraseIdx skip)
      else []

/-- Shorter first, then plainer. -/
def plainer (characters : List Char) : List (List Char) :=
  if characters.isEmpty then []
  else
    [] ::
      (if 1 < characters.length then
        characters.take (characters.length / 2) ::
          (List.range characters.length).map fun skip => characters.eraseIdx skip
      else []) ++
      (characters.zipIdx.filter fun character => character.1 ≠ 'a').map fun character =>
        characters.set character.2 'a'

/-- Integers towards zero.  The magnitude of one of them is no integer. -/
def towardsZero (number : Int64) : Option (List Int64) :=
  if number = 0 then some []
  else
    (checkedAbs number).map fun magnitude =>
      0 :: (if 1 < magnitude then [number / 2] else []) ++
        [if 0 < number then number - 1 else number + 1]

mutual

/-- Smaller forms of a value, best first; none where computing them overflows. -/
def smaller : Value → Option (List Value)
  | .record fields => (shrinkFields fields).map fun changed => changed.map .record
  | .variant origin name fields =>
      (shrinkFields fields).map fun changed =>
        (simpler.siblings (origin, name)).map (fun other => .variant other.1 other.2 []) ++
          changed.map (.variant origin name)
  | .list elements =>
      (shrinkElements elements).map fun changed => shorter elements ++ changed.map .list
  | .str text => some ((plainer text.toList).map fun characters => .str (String.ofList characters))
  | .result ok value => (smaller value).map fun inner => inner.map (.result ok)
  | .bool true => some [.bool false]
  | .int number => (towardsZero number).map fun candidates => candidates.map .int
  | _ => some []

/-- Some elements with one of them simpler. -/
def shrinkElements : List Value → Option (List (List Value))
  | [] => some []
  | element :: rest =>
      (smaller element).bind fun candidates =>
        (shrinkElements rest).map fun changed =>
          candidates.map (fun candidate => candidate :: rest) ++
            changed.map fun rest => element :: rest

/-- Some fields with the value of one of them simpler. -/
def shrinkFields : List (String × Value) → Option (List (List (String × Value)))
  | [] => some []
  | (name, value) :: rest =>
      (smaller value).bind fun candidates =>
        (shrinkFields rest).map fun changed =>
          candidates.map (fun candidate => (name, candidate) :: rest) ++
            changed.map fun rest => (name, value) :: rest

end

end Simpler

end Deed.Eval
