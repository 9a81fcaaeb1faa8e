import Deed.Eval.Shrink

/-!
# Shrinking keeps the failure

What `shrink` returns are arguments that still fail and what was found with them.  The one
integer whose magnitude is no integer is the exception: a search from it ends at its
neighbour, whether or not that fails.
-/

namespace Deed.Eval

variable {Diagnostic : Type} {attempt : List Value → PropertyAttempt Diagnostic}
  {smaller : Value → List Value} {state : Shrinking Diagnostic}

/-- An attempt with some arguments fails. -/
def Fails (attempt : List Value → PropertyAttempt Diagnostic) (args : List Value) : Prop :=
  ∃ diagnostic, attemptWith attempt args = some diagnostic

/-- The arguments fail, and this is what is found with them. -/
def Kept (attempt : List Value → PropertyAttempt Diagnostic) (args : List Value)
    (failure : Diagnostic) : Prop :=
  attemptWith attempt args = some failure

theorem attemptWith_eq_none {args : List Value} (passes : ¬Fails attempt args) :
    attemptWith attempt args = none :=
  Option.eq_none_iff_forall_ne_some.2 fun diagnostic found => passes ⟨diagnostic, found⟩

/-! ## What is tried -/

/-- What a search tries between zero and a magnitude where nothing fails. -/
def middles (start : Int64) : Nat → Int64 → Int64 → List Int64
  | 0, _, _ => []
  | turns + 1, good, bad =>
      if bad - good = 1 then []
      else
        let middle := good + (bad - good) / 2
        signed start middle :: middles start turns middle bad

/-- The integers that a search for one other than zero tries where none of them fails. -/
def searched (start : Int64) (budget : Nat) : List Int64 :=
  0 :: middles start (budget - 1) 0 (magnitude start) ++ [signed start (magnitude start)]

/-- The arguments that the search at an index tries where none of them fails. -/
def triedAt (args : List Value) (index budget : Nat) : List (List Value) :=
  match args[index]? with
  | some (.int start) =>
      if start = 0 then []
      else (searched start budget).map fun candidate => args.set index (.int candidate)
  | _ => []

/-- The arguments, and the attempts left, after a search in which nothing fails. -/
def leave (args : List Value) (index budget : Nat) : List Value × Nat :=
  match args[index]? with
  | some (.int start) =>
      if start = 0 then (args, budget)
      else (args.set index (.int (signed start (magnitude start))),
        budget - 1 - (middles start (budget - 1) 0 (magnitude start)).length)
  | _ => (args, budget)

/-- Whatever is tried from some searches on where nothing of it fails. -/
def triedFrom (smaller : Value → List Value) : List Nat → List Value → Nat → List (List Value)
  | [], args, budget => (candidates smaller args).take (budget - 1)
  | index :: rest, args, budget =>
      triedAt args index budget ++
        triedFrom smaller rest (leave args index budget).1 (leave args index budget).2

/-! ## What is at an index -/

theorem triedAt_int {args : List Value} {index : Nat} {start : Int64}
    (place : args[index]? = some (.int start)) (budget : Nat) :
    triedAt args index budget =
      if start = 0 then []
      else (searched start budget).map fun candidate => args.set index (.int candidate) := by
  rw [triedAt, place]

theorem triedAt_other {args : List Value} {index : Nat}
    (other : ∀ start, args[index]? ≠ some (.int start)) (budget : Nat) :
    triedAt args index budget = [] := by
  unfold triedAt
  split
  · next start place => exact absurd place (other start)
  · rfl

theorem leave_int {args : List Value} {index : Nat} {start : Int64}
    (place : args[index]? = some (.int start)) (budget : Nat) :
    leave args index budget =
      if start = 0 then (args, budget)
      else (args.set index (.int (signed start (magnitude start))),
        budget - 1 - (middles start (budget - 1) 0 (magnitude start)).length) := by
  rw [leave, place]

theorem leave_other {args : List Value} {index : Nat}
    (other : ∀ start, args[index]? ≠ some (.int start)) (budget : Nat) :
    leave args index budget = (args, budget) := by
  unfold leave
  split
  · next start place => exact absurd place (other start)
  · rfl

theorem shrinkInt_other {index : Nat}
    (other : ∀ start, state.args[index]? ≠ some (.int start)) :
    shrinkInt attempt state index = state := by
  unfold shrinkInt
  split
  · next start place => exact absurd place (other start)
  · rfl

/-- An index is that of an integer or it is not. -/
theorem int_or_other (args : List Value) (index : Nat) :
    (∃ start, args[index]? = some (.int start)) ∨
      ∀ start, args[index]? ≠ some (.int start) := by
  rw [← not_exists]
  exact em _

/-! ## One search -/

/-- A search finds a magnitude that fails, or it has tried all there is and found nothing. -/
theorem bisect_cases (attempt : List Value → PropertyAttempt Diagnostic) (args : List Value) (index : Nat) (start : Int64) (turns : Nat)
    (good : Int64) (found : Found Diagnostic) :
    ((∃ candidate ∈ middles start turns good found.bad,
        Fails attempt (args.set index (.int candidate))) ∧
      Kept attempt (args.set index
          (.int (signed start (bisect attempt args index start turns good found).bad)))
        (bisect attempt args index start turns good found).failure) ∨
    (∀ candidate ∈ middles start turns good found.bad,
        ¬Fails attempt (args.set index (.int candidate))) ∧
      bisect attempt args index start turns good found =
        { found with budget := found.budget - (middles start turns good found.bad).length } := by
  induction turns generalizing good found with
  | zero => exact .inr ⟨fun _ absent => absurd absent List.not_mem_nil, rfl⟩
  | succ turns ih =>
      rw [bisect, middles]
      by_cases close : found.bad - good = 1
      · rw [if_pos close, if_pos close]
        exact .inr ⟨fun _ absent => absurd absent List.not_mem_nil, rfl⟩
      · rw [if_neg close, if_neg close]
        dsimp only
        cases tried : tryValue attempt args index (signed start (good + (found.bad - good) / 2)) with
        | some diagnostic =>
            refine .inl ⟨⟨_, List.mem_cons_self, diagnostic, tried⟩, ?_⟩
            rcases ih good ⟨good + (found.bad - good) / 2, diagnostic, found.budget - 1⟩ with
              ⟨-, kept⟩ | ⟨-, same⟩
            · exact kept
            · dsimp only
              rw [same]
              exact tried
        | none =>
            rcases ih (good + (found.bad - good) / 2) { found with budget := found.budget - 1 } with
              ⟨⟨candidate, member, fails⟩, kept⟩ | ⟨none, same⟩
            · exact .inl ⟨⟨candidate, List.mem_cons_of_mem _ member, fails⟩, kept⟩
            · refine .inr ⟨?_, ?_⟩
              · apply List.forall_mem_cons.2 ⟨?_, none⟩
                rintro ⟨diagnostic, fails⟩
                exact Option.some_ne_none _ (fails.symm.trans tried)
              · dsimp only at same ⊢
                rw [same, List.length_cons, Nat.sub_sub, Nat.add_comm 1]

/-- What is tried in a search decides whether it ends with arguments that fail. -/
theorem kept_of_triedAt (index : Nat)
    (fails : ∃ args ∈ triedAt state.args index state.budget, Fails attempt args) :
    Kept attempt (shrinkInt attempt state index).args (shrinkInt attempt state index).failure := by
  rcases fails with ⟨args, member, fails⟩
  rcases int_or_other state.args index with ⟨start, place⟩ | other
  · rw [triedAt_int place] at member
    by_cases real : start = 0
    · rw [if_pos real] at member
      exact absurd member List.not_mem_nil
    · rw [if_neg real] at member
      rw [shrinkInt, place]
      dsimp only
      rw [if_neg real]
      cases zero : tryValue attempt state.args index 0 with
      | some diagnostic => exact zero
      | none =>
          dsimp only
          rcases bisect_cases attempt state.args index start (state.budget - 1) 0
            ⟨magnitude start, state.failure, state.budget - 1⟩ with ⟨-, kept⟩ | ⟨none, same⟩
          · unfold Kept at kept ⊢
            rw [kept, Option.getD_some]
          · -- Nothing before the last attempt failed, and so that one does.
            rw [same]
            rcases List.mem_map.1 member with ⟨candidate, among, rfl⟩
            rw [searched, List.cons_append] at among
            rcases List.mem_cons.1 among with rfl | among
            · rcases fails with ⟨diagnostic, fails⟩
              exact absurd (fails.symm.trans zero) (Option.some_ne_none _)
            · rcases List.mem_append.1 among with among | last
              · exact absurd fails (none candidate among)
              · rw [List.mem_singleton.1 last] at fails
                rcases fails with ⟨diagnostic, fails⟩
                unfold Kept
                dsimp only
                rw [fails, Option.getD_some]
  · rw [triedAt_other other] at member
    exact absurd member List.not_mem_nil

/-- A search in which nothing fails. -/
theorem shrinkInt_eq (state : Shrinking Diagnostic) (index : Nat)
    (passes : ∀ args ∈ triedAt state.args index state.budget, ¬Fails attempt args) :
    shrinkInt attempt state index =
      ⟨(leave state.args index state.budget).1, state.failure,
        (leave state.args index state.budget).2⟩ := by
  rcases int_or_other state.args index with ⟨start, place⟩ | other
  · rw [triedAt_int place] at passes
    rw [leave_int place, shrinkInt, place]
    dsimp only
    by_cases real : start = 0
    · rw [if_pos real, if_pos real]
    · rw [if_neg real] at passes
      rw [if_neg real, if_neg real]
      have each : ∀ candidate ∈ searched start state.budget,
          ¬Fails attempt (state.args.set index (.int candidate)) :=
        fun candidate member => passes _ (List.mem_map.2 ⟨candidate, member, rfl⟩)
      have zero : tryValue attempt state.args index 0 = none :=
        attemptWith_eq_none (each 0 List.mem_cons_self)
      have last := attemptWith_eq_none (each (signed start (magnitude start))
        (List.mem_append_right _ (List.mem_singleton_self _)))
      rw [zero]
      dsimp only
      rcases bisect_cases attempt state.args index start (state.budget - 1) 0
        ⟨magnitude start, state.failure, state.budget - 1⟩ with
        ⟨⟨candidate, member, fails⟩, -⟩ | ⟨-, same⟩
      · refine absurd fails (each candidate ?_)
        exact List.mem_append_left _ (List.mem_cons_of_mem _ member)
      · rw [same]
        dsimp only
        rw [last, Option.getD_none]
  · rw [leave_other other, shrinkInt_other other]

/-! ## The whole of it -/

theorem saturated_toInt (number : Int64) : saturated number.toInt = number := by
  have low := Int64.minValue_le_toInt number
  have high := Int64.toInt_le number
  rw [saturated, if_neg (Int.not_lt.2 low), if_neg (Int.not_lt.2 high), Int64.ofInt_toInt]

/-- Every integer but one is its magnitude with its sign. -/
theorem signed_magnitude {start : Int64} (other : start ≠ Int64.minValue) :
    signed start (magnitude start) = start := by
  rw [magnitude, checkedAbs, if_neg other, Option.getD_some, signed]
  by_cases negative : start < 0
  · rw [if_pos negative, if_pos negative]
    have low := Int64.minValue_le_toInt start
    have least : start.toInt ≠ Int64.minValue.toInt := fun same => other (Int64.toInt_inj.1 same)
    have below := Int64.lt_iff_toInt_lt.1 negative
    rw [Int64.toInt_minValue] at low least
    rw [Int64.toInt_zero] at below
    have opposite : (-start).toInt = -start.toInt := by
      rw [Int64.toInt_neg]
      apply Int.bmod_eq_of_le <;> omega
    rw [opposite, Int.zero_sub, Int.neg_neg, saturated_toInt]
  · rw [if_neg negative, if_neg negative]

/-- Searches that leave the arguments be were for zero, or for no integer. -/
theorem leave_cases (args : List Value) (index budget : Nat) :
    (triedAt args index budget = [] ∧ leave args index budget = (args, budget)) ∨
    ∃ start, args[index]? = some (.int start) ∧
      (leave args index budget).1 = args.set index (.int (signed start (magnitude start))) ∧
        (leave args index budget).1 ∈ triedAt args index budget := by
  rcases int_or_other args index with ⟨start, place⟩ | other
  · rw [triedAt_int place, leave_int place]
    by_cases zero : start = 0
    · rw [if_pos zero, if_pos zero]
      exact .inl ⟨rfl, rfl⟩
    · rw [if_neg zero, if_neg zero]
      refine .inr ⟨start, place, rfl, List.mem_map.2 ⟨_, ?_, rfl⟩⟩
      exact List.mem_append_right _ (List.mem_singleton_self _)
  · exact .inl ⟨triedAt_other other _, leave_other other _⟩

theorem set_getElem? {α : Type} {list : List α} {index : Nat} {element : α}
    (place : list[index]? = some element) : list.set index element = list := by
  rcases List.getElem?_eq_some_iff.1 place with ⟨below, rfl⟩
  exact List.set_getElem_self below

/-- The candidates that there are attempts left for decide what the last loop ends with. -/
theorem tryEach_cases (attempt : List Value → PropertyAttempt Diagnostic)
    (tuples : List (List Value)) (budget : Nat) :
    (∃ left args diagnostic, tryEach attempt tuples budget = (left, some (args, diagnostic)) ∧
      Kept attempt args diagnostic ∧ ∃ tuple ∈ tuples.take (budget - 1), Fails attempt tuple) ∨
    (∃ left, tryEach attempt tuples budget = (left, none)) ∧
      ∀ tuple ∈ tuples.take (budget - 1), ¬Fails attempt tuple := by
  induction tuples generalizing budget with
  | nil => exact .inr ⟨⟨budget, rfl⟩, by simp⟩
  | cons tuple tuples ih =>
      rw [tryEach]
      by_cases spent : budget - 1 = 0
      · rw [if_pos spent, spent]
        exact .inr ⟨⟨0, rfl⟩, fun _ absent => absurd absent List.not_mem_nil⟩
      · rw [if_neg spent]
        rcases Nat.exists_eq_succ_of_ne_zero spent with ⟨more, more_eq⟩
        rw [more_eq, List.take_succ_cons]
        cases tried : attemptWith attempt tuple with
        | some diagnostic =>
            exact .inl ⟨_, tuple, diagnostic, rfl, tried, tuple, List.mem_cons_self,
              diagnostic, tried⟩
        | none =>
            rcases ih (more + 1) with
              ⟨left, args, diagnostic, same, kept, other, member, fails⟩ | ⟨same, none⟩
            · exact .inl ⟨left, args, diagnostic, same, kept, other,
                List.mem_cons_of_mem _ member, fails⟩
            · refine .inr ⟨same, List.forall_mem_cons.2 ⟨?_, none⟩⟩
              rintro ⟨diagnostic, fails⟩
              exact Option.some_ne_none _ (fails.symm.trans tried)

theorem greedy_kept (state : Shrinking Diagnostic) (turns : Nat) (kept : Kept attempt state.args state.failure) :
    Kept attempt (greedy attempt smaller turns state).args
      (greedy attempt smaller turns state).failure := by
  induction turns generalizing state with
  | zero => exact kept
  | succ turns ih =>
      rw [greedy]
      by_cases spent : state.budget = 0
      · rw [if_pos spent]
        exact kept
      · rw [if_neg spent]
        rcases tryEach_cases attempt (candidates smaller state.args) state.budget with
          ⟨left, args, diagnostic, same, kept', -⟩ | ⟨⟨left, same⟩, -⟩
        · rw [same]
          exact ih ⟨args, diagnostic, left⟩ kept'
        · rw [same]
          exact kept

/-- The last loop finds arguments that fail where it is given none exactly if it tries some. -/
theorem greedy_kept_iff (passes : ¬Fails attempt state.args) :
    Kept attempt (greedy attempt smaller state.budget state).args
      (greedy attempt smaller state.budget state).failure ↔
      ∃ tuple ∈ (candidates smaller state.args).take (state.budget - 1), Fails attempt tuple := by
  cases budget : state.budget with
  | zero =>
      rw [greedy]
      refine iff_of_false (fun kept => passes ⟨_, kept⟩) ?_
      rintro ⟨tuple, member, -⟩
      exact absurd member List.not_mem_nil
  | succ turns =>
      rw [greedy, if_neg (by omega), ← budget]
      rcases tryEach_cases attempt (candidates smaller state.args) state.budget with
        ⟨left, args, diagnostic, same, kept, found⟩ | ⟨⟨left, same⟩, none⟩
      · rw [same]
        exact iff_of_true (greedy_kept ⟨args, diagnostic, left⟩ turns kept) found
      · rw [same]
        refine iff_of_false (fun kept => passes ⟨_, kept⟩) ?_
        rintro ⟨tuple, member, fails⟩
        exact none tuple member fails

/-- What `shrink` does from some searches on. -/
def shrinkFrom (attempt : List Value → PropertyAttempt Diagnostic)
    (smaller : Value → List Value) (indices : List Nat) (state : Shrinking Diagnostic) :
    Shrinking Diagnostic :=
  let searched := indices.foldl (shrinkInt attempt) state
  greedy attempt smaller searched.budget searched

/-- Arguments that pass stay as they are where nothing fails that is tried with them. -/
theorem not_kept_of_tried (indices : List Nat) (passes : ¬Fails attempt state.args)
    (none : ∀ tuple ∈ triedFrom smaller indices state.args state.budget, ¬Fails attempt tuple) :
    ¬Kept attempt (shrinkFrom attempt smaller indices state).args
      (shrinkFrom attempt smaller indices state).failure := by
  induction indices generalizing state with
  | nil =>
      intro kept
      rcases (greedy_kept_iff passes).1 kept with ⟨tuple, member, fails⟩
      exact none tuple member fails
  | cons index indices ih =>
      rw [triedFrom] at none
      have next := shrinkInt_eq state index
        fun tuple member => none tuple (List.mem_append_left _ member)
      rw [shrinkFrom, List.foldl_cons, next]
      apply ih
      · rcases leave_cases state.args index state.budget with
          ⟨-, same⟩ | ⟨start, -, -, member⟩
        · rw [same]
          exact passes
        · exact none _ (List.mem_append_left _ member)
      · exact fun tuple member => none tuple (List.mem_append_right _ member)

/-- What a search from the least integer is followed by, itself included, in the order of the
searches: something that is tried and fails. -/
def Followed (attempt : List Value → PropertyAttempt Diagnostic)
    (smaller : Value → List Value) : List Nat → Shrinking Diagnostic → Prop
  | [], _ => True
  | index :: rest, state =>
      (state.args[index]? = some (.int Int64.minValue) →
        ∃ tuple ∈ triedFrom smaller (index :: rest) state.args state.budget,
          Fails attempt tuple) ∧
      Followed attempt smaller rest (shrinkInt attempt state index)

/-- A search that nothing fails in leaves arguments that pass, or it leaves them as they were. -/
theorem leave_passes (index : Nat)
    (passes : ∀ tuple ∈ triedAt state.args index state.budget, ¬Fails attempt tuple) :
    (leave state.args index state.budget).1 = state.args ∨
      ¬Fails attempt (leave state.args index state.budget).1 := by
  rcases leave_cases state.args index state.budget with ⟨-, same⟩ | ⟨start, -, -, member⟩
  · rw [same]
    exact .inl rfl
  · exact .inr (passes _ member)

theorem kept_of_followed (indices : List Nat)
    (followed : Followed attempt smaller indices state)
    (start : Kept attempt state.args state.failure ∨ ¬Fails attempt state.args ∧
      ∃ tuple ∈ triedFrom smaller indices state.args state.budget, Fails attempt tuple) :
    Kept attempt (shrinkFrom attempt smaller indices state).args
      (shrinkFrom attempt smaller indices state).failure := by
  induction indices generalizing state with
  | nil =>
      rcases start with kept | ⟨passes, found⟩
      · exact greedy_kept _ _ kept
      · exact (greedy_kept_iff passes).2 found
  | cons index indices ih =>
      rw [shrinkFrom, List.foldl_cons]
      apply ih followed.2
      by_cases found : ∃ tuple ∈ triedAt state.args index state.budget, Fails attempt tuple
      · exact .inl (kept_of_triedAt index found)
      · push Not at found
        have next := shrinkInt_eq state index found
        -- What fails among all that is tried is tried later.
        have later : (∃ tuple ∈ triedFrom smaller (index :: indices) state.args state.budget,
              Fails attempt tuple) →
            ∃ tuple ∈ triedFrom smaller indices (leave state.args index state.budget).1
              (leave state.args index state.budget).2, Fails attempt tuple := by
          rintro ⟨tuple, member, fails⟩
          rcases List.mem_append.1 member with here | member
          · exact absurd fails (found tuple here)
          · exact ⟨tuple, member, fails⟩
        rw [next]
        rcases start with kept | ⟨passes, tried⟩
        · rcases leave_cases state.args index state.budget with
            ⟨-, same⟩ | ⟨first, place, left, member⟩
          · rw [same]
            exact .inl kept
          · by_cases least : first = Int64.minValue
            · rw [least] at place
              exact .inr ⟨found _ member, later (followed.1 place)⟩
            · -- The search ends where it began, with arguments that fail.
              rw [left, signed_magnitude least, set_getElem? place] at member
              exact absurd ⟨_, kept⟩ (found _ member)
        · rcases leave_passes index found with same | passes'
          · refine .inr ⟨?_, later tried⟩
            rw [same]
            exact passes
          · exact .inr ⟨passes', later tried⟩

theorem followed_of_kept (indices : List Nat)
    (kept : Kept attempt (shrinkFrom attempt smaller indices state).args
      (shrinkFrom attempt smaller indices state).failure) :
    Followed attempt smaller indices state := by
  induction indices generalizing state with
  | nil => trivial
  | cons index indices ih =>
      refine ⟨?_, ih kept⟩
      intro place
      by_contra none
      push Not at none
      have here : ∀ tuple ∈ triedAt state.args index state.budget, ¬Fails attempt tuple :=
        fun tuple member => none tuple (List.mem_append_left _ member)
      have next := shrinkInt_eq state index here
      rw [shrinkFrom, List.foldl_cons, next] at kept
      apply not_kept_of_tried indices _ _ kept
      · rcases leave_cases state.args index state.budget with ⟨empty, -⟩ | ⟨first, -, -, member⟩
        · rw [triedAt, place] at empty
          exact absurd empty (by simp [searched])
        · exact here _ member
      · exact fun tuple member => none tuple (List.mem_append_right _ member)

/-- Shrinking keeps the failure exactly where every search from the least integer, or what
comes after it, tries something that fails. -/
theorem shrink_kept_iff (attempt : List Value → PropertyAttempt Diagnostic)
    (smaller : Value → List Value) {args : List Value} {failure : Diagnostic} (budget : Nat)
    (fails : Kept attempt args failure) :
    Kept attempt (shrink attempt smaller args failure budget).1
        (shrink attempt smaller args failure budget).2 ↔
      Followed attempt smaller (List.range args.length) ⟨args, failure, budget⟩ :=
  ⟨followed_of_kept _, fun followed => kept_of_followed _ followed (.inl fails)⟩

/-! ### One argument that fails -/

/-- A function that fails on one integer alone. -/
def failsOn (number : Int64) (args : List Value) : PropertyAttempt Unit :=
  match args with
  | [.int other] => if other = number then .failed () else .rejected
  | _ => .rejected

theorem shrink_kept_seven : Kept (failsOn 7)
    (shrink (failsOn 7) (fun _ => []) [.int 7] () 300).1
    (shrink (failsOn 7) (fun _ => []) [.int 7] () 300).2 := by
  have fails : Kept (failsOn 7) [.int 7] () := rfl
  apply (shrink_kept_iff (failsOn 7) (fun _ => []) 300 fails).2
  refine ⟨?_, trivial⟩
  intro place
  have same : (7 : Int64) = Int64.minValue := Value.int.inj (Option.some.inj place)
  exact absurd same (by decide)

set_option maxRecDepth 4000 in
/-- The least integer fails and its neighbour does not, which is what shrinking it returns. -/
theorem shrink_least : Kept (failsOn Int64.minValue) [.int Int64.minValue] () ∧
    (shrink (failsOn Int64.minValue) (fun _ => []) [.int Int64.minValue] () 300).1 =
      [.int (-9223372036854775807)] ∧
    ¬Kept (failsOn Int64.minValue)
      (shrink (failsOn Int64.minValue) (fun _ => []) [.int Int64.minValue] () 300).1
      (shrink (failsOn Int64.minValue) (fun _ => []) [.int Int64.minValue] () 300).2 := by
  have neighbour : (shrink (failsOn Int64.minValue) (fun _ => []) [.int Int64.minValue] () 300).1 =
      [.int (-9223372036854775807)] := by
    rfl
  refine ⟨rfl, neighbour, ?_⟩
  rw [neighbour]
  intro kept
  exact Option.some_ne_none _ kept.symm

end Deed.Eval
