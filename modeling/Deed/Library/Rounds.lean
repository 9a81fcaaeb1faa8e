import Mathlib.Data.List.Basic
import Mathlib.Logic.Relation
import Mathlib.Tactic.Common

/-!
# Rounds towards a fixed point

Each of finitely many places finds facts about itself from what is known so far.  A round
visits the places in their order and adds what each one finds, where the later ones already
see what the earlier ones found.  After so many rounds exactly the facts are known that have
a derivation which turns back to an earlier place fewer times.
-/

namespace Deed.Library.Rounds

variable {Known Fact : Type*}

/-- The places and what they find. -/
structure Finding (Known Fact : Type*) where
  places : Nat
  /-- Which facts are known. -/
  knows : Known → Fact → Prop
  /-- Which place a fact is about. -/
  place : Fact → Nat
  /-- What is found at the place of a fact. -/
  finds : Known → Fact → Prop
  /-- What is known after one place added what it found. -/
  visit : Nat → Known → Known
  start : Known
  inside : ∀ fact, (∃ known, finds known fact) → place fact < places
  unknown : ∀ fact, ¬knows start fact
  raises : ∀ known more, (∀ fact, knows known fact → knows more fact) →
    ∀ fact, finds known fact → finds more fact
  visited : ∀ index known fact, knows (visit index known) fact ↔
    knows known fact ∨ place fact = index ∧ finds known fact

variable (finding : Finding Known Fact)

namespace Finding

/-- What the first places add, one after the other. -/
def visits : Nat → Known → Known
  | 0, known => known
  | count + 1, known => finding.visit count (visits count known)

/-- One visit of every place. -/
def round (known : Known) : Known := finding.visits finding.places known

/-- So many rounds from the start. -/
def rounds : Nat → Known
  | 0 => finding.start
  | count + 1 => finding.round (rounds count)

/-- No place finds what is not known. -/
def Settled (known : Known) : Prop :=
  ∀ fact, finding.finds known fact → finding.knows known fact

/-- A derivation of a fact: what it is found from is derived too.  Facts about an earlier
place come in the same round, and the number bounds how often any of its branches goes back
to the same place or a later one. -/
inductive Derives : Nat → Fact → Prop
  | found {turns : Nat} {fact : Fact} (known : Known) (finds : finding.finds known fact)
      (earlier : ∀ other, finding.knows known other → finding.place other < finding.place fact →
        Derives (turns + 1) other)
      (later : ∀ other, finding.knows known other → finding.place fact ≤ finding.place other →
        Derives turns other) :
      Derives (turns + 1) fact

variable {finding}

/-- What is derived with fewer turns is derived with more. -/
theorem Derives.more {turns : Nat} {fact : Fact} (derives : finding.Derives turns fact) :
    finding.Derives (turns + 1) fact := by
  induction derives with
  | found known finds earlier later ihEarlier ihLater =>
      exact .found known finds ihEarlier ihLater

variable (finding) in
/-- In the middle of a round, the facts of the places visited have the derivations of this
round and the others those of the round before. -/
theorem knows_visits {turns : Nat} {known : Known}
    (before : ∀ fact, finding.knows known fact ↔ finding.Derives turns fact) (count : Nat)
    (fact : Fact) :
    finding.knows (finding.visits count known) fact ↔
      finding.place fact < count ∧ finding.Derives (turns + 1) fact ∨
        count ≤ finding.place fact ∧ finding.Derives turns fact := by
  induction count generalizing fact with
  | zero =>
      rw [visits, before]
      constructor
      · exact fun derives => Or.inr ⟨Nat.zero_le _, derives⟩
      · rintro (⟨below, -⟩ | ⟨-, derives⟩)
        · exact absurd below (Nat.not_lt_zero _)
        · exact derives
  | succ count ih =>
      rw [visits, finding.visited, ih]
      constructor
      · rintro ((⟨below, derives⟩ | ⟨above, derives⟩) | ⟨here, finds⟩)
        · exact Or.inl ⟨Nat.lt_succ_of_lt below, derives⟩
        · rcases Nat.eq_or_lt_of_le above with here | past
          · exact Or.inl ⟨by omega, derives.more⟩
          · exact Or.inr ⟨past, derives⟩
        · refine Or.inl ⟨by omega, .found _ finds ?_ ?_⟩
          · intro other knows below
            rcases (ih other).1 knows with ⟨-, derives⟩ | ⟨above, -⟩
            · exact derives
            · omega
          · intro other knows above
            rcases (ih other).1 knows with ⟨below, -⟩ | ⟨-, derives⟩
            · omega
            · exact derives
      · rintro (⟨below, derives⟩ | ⟨above, derives⟩)
        · rcases Nat.lt_succ_iff_lt_or_eq.1 below with before_ | here
          · exact Or.inl (Or.inl ⟨before_, derives⟩)
          · cases derives with
            | found from_ finds earlier later =>
                refine Or.inr ⟨here, finding.raises from_ _ ?_ fact finds⟩
                intro other knows
                rw [ih]
                by_cases below' : finding.place other < count
                · exact Or.inl ⟨below', earlier other knows (by omega)⟩
                · exact Or.inr ⟨by omega, later other knows (by omega)⟩
        · exact Or.inl (Or.inr ⟨by omega, derives⟩)

theorem Derives.inside {turns : Nat} {fact : Fact} (derives : finding.Derives turns fact) :
    finding.place fact < finding.places := by
  cases derives with
  | found known finds earlier later => exact finding.inside fact ⟨known, finds⟩

variable (finding) in
/-- After so many rounds, what is known is what is derived with as many turns. -/
theorem knows_rounds (count : Nat) (fact : Fact) :
    finding.knows (finding.rounds count) fact ↔ finding.Derives count fact := by
  induction count generalizing fact with
  | zero =>
      refine iff_of_false (finding.unknown fact) ?_
      rintro ⟨⟩
  | succ count ih =>
      rw [rounds, round, finding.knows_visits ih]
      constructor
      · rintro (⟨-, derives⟩ | ⟨-, derives⟩)
        · exact derives
        · exact derives.more
      · exact fun derives => Or.inl ⟨derives.inside, derives⟩

/-- What is derived is known wherever nothing more is found. -/
theorem Derives.knows {known : Known} (settled : finding.Settled known) {turns : Nat}
    {fact : Fact} (derives : finding.Derives turns fact) : finding.knows known fact := by
  induction derives with
  | found from_ finds earlier later ihEarlier ihLater =>
      refine settled _ (finding.raises from_ known ?_ _ finds)
      intro other knows
      rcases Nat.lt_or_ge (finding.place other) (finding.place _) with below | above
      · exact ihEarlier other knows below
      · exact ihLater other knows above

variable (finding) in
/-- The rounds have come to rest exactly when every derivation can be had with as few
turns. -/
theorem settled_rounds (count : Nat) :
    finding.Settled (finding.rounds count) ↔
      ∀ fact, (∃ turns, finding.Derives turns fact) → finding.Derives count fact := by
  constructor
  · rintro settled fact ⟨turns, derives⟩
    exact (finding.knows_rounds count fact).1 (derives.knows settled)
  · intro enough fact finds
    rw [finding.knows_rounds]
    refine enough fact ⟨count + 1, .found _ finds ?_ ?_⟩
    · intro other knows _
      exact ((finding.knows_rounds count other).1 knows).more
    · intro other knows _
      exact (finding.knows_rounds count other).1 knows

variable (finding) in
/-- What the rounds know is known wherever nothing more is found. -/
theorem rounds_least {known : Known} (settled : finding.Settled known) (count : Nat)
    {fact : Fact} (knows : finding.knows (finding.rounds count) fact) :
    finding.knows known fact :=
  ((finding.knows_rounds count fact).1 knows).knows settled

end Finding

end Deed.Library.Rounds
