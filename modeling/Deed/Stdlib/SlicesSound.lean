import Deed.Stdlib.Slices

/-!
# Cutting lists up

What `take`, `drop`, `windows` and `chunks` answer for a count, as a number, which may be
below zero or past the end of the list.  The one run that stops is that of `windows` where
the end of a slice is past the last `Int`.
-/

namespace Deed.Stdlib

variable {α : Type*} {items : List α}

/-- How many elements a list has, as an `Int`. -/
theorem toInt_length (countable : items.length < 2 ^ 63) :
    (length items).toInt = items.length :=
  Int64.toInt_ofNat_of_lt countable

/-- A count as it clamps from below. -/
def clamped (count : Int64) : Nat := count.toInt.toNat

/-! ## Taking and dropping -/

theorem take_walk {kept : List α} (upto : Int64) (items : List α)
    (countable : kept.length + items.length < 2 ^ 63) :
    walkWhile (fun kept => decide (length kept < upto)) (fun kept item => push kept item) items
        kept =
      kept ++ items.take (clamped upto - kept.length) := by
  induction items generalizing kept with
  | nil => rw [walkWhile, List.take_nil, List.append_nil]
  | cons item items ih =>
      rw [List.length_cons] at countable
      have short : kept.length < 2 ^ 63 := by omega
      have less : length kept < upto ↔ kept.length < clamped upto := by
        rw [Int64.lt_iff_toInt_lt, toInt_length short, clamped]
        omega
      rw [walkWhile]
      by_cases more : length kept < upto
      · rw [decide_eq_true more, if_pos rfl, ih (by rw [push, List.length_append]; simp; omega), push,
          List.length_append, List.length_singleton, List.append_assoc, List.singleton_append]
        have place := less.1 more
        obtain ⟨rest, room⟩ : ∃ rest, clamped upto - kept.length = rest + 1 :=
          ⟨clamped upto - kept.length - 1, by omega⟩
        rw [room, List.take_succ_cons, show clamped upto - (kept.length + 1) = rest by omega]
      · have full := mt less.2 more
        rw [decide_eq_false more, if_neg Bool.false_ne_true,
          show clamped upto - kept.length = 0 by omega, List.take_zero, List.append_nil]

theorem take_eq (countable : items.length < 2 ^ 63) (upto : Int64) :
    take items upto = items.take (clamped upto) := by
  rw [take, take_walk upto items (by rw [List.length_nil, Nat.zero_add]; exact countable),
    List.nil_append, List.length_nil, Nat.sub_zero]

/-- The turns of a walk that starts at a place. -/
def turnsFrom (start : Nat) (items : List α) : List (α × Int64) :=
  (items.zipIdx start).map fun turn => (turn.1, Int64.ofNat turn.2)

theorem turnsFrom_cons (start : Nat) (item : α) (items : List α) :
    turnsFrom start (item :: items) =
      (item, Int64.ofNat start) :: turnsFrom (start + 1) items := by
  rw [turnsFrom, List.zipIdx_cons, List.map_cons]
  rfl

/-- The indices of the turns. -/
theorem map_snd_turns (items : List α) :
    (turns items).map Prod.snd = (List.range items.length).map Int64.ofNat := by
  have indices : items.zipIdx.map Prod.snd = List.range items.length := by
    rw [List.zipIdx_map_snd, List.range_eq_range']
  rw [turns, List.map_map, ← indices, List.map_map]
  rfl

theorem drop_walk {kept : List α} {start : Nat} (count : Int64) (items : List α)
    (countable : start + items.length < 2 ^ 63) :
    (turnsFrom start items).foldl
        (fun kept turn => if turn.2 < count then kept else push kept turn.1) kept =
      kept ++ items.drop (clamped count - start) := by
  induction items generalizing kept start with
  | nil => rw [List.drop_nil, List.append_nil]; rfl
  | cons item items ih =>
      rw [List.length_cons] at countable
      have less : Int64.ofNat start < count ↔ start < clamped count := by
        rw [Int64.lt_iff_toInt_lt, Int64.toInt_ofNat_of_lt (by omega), clamped]
        omega
      rw [turnsFrom_cons, List.foldl_cons]
      by_cases early : Int64.ofNat start < count
      · have place := less.1 early
        rw [if_pos early, ih (by omega)]
        obtain ⟨rest, left⟩ : ∃ rest, clamped count - start = rest + 1 :=
          ⟨clamped count - start - 1, by omega⟩
        rw [left, List.drop_succ_cons, show clamped count - (start + 1) = rest by omega]
      · have place := mt less.2 early
        rw [if_neg early, ih (by omega), push, List.append_assoc, List.singleton_append,
          show clamped count - (start + 1) = 0 by omega,
          show clamped count - start = 0 by omega, List.drop_zero, List.drop_zero]

theorem drop_eq (countable : items.length < 2 ^ 63) (count : Int64) :
    drop items count = items.drop (clamped count) := by
  have walked := @drop_walk α [] 0 count items (by rw [Nat.zero_add]; exact countable)
  rw [List.nil_append, Nat.sub_zero] at walked
  exact walked

theorem flatten_eq (items : List (List α)) : flatten items = items.flatten := by
  have turn : (fun (out group : List α) => concat out group) = fun out group => out ++ group := by
    funext out group
    exact concat_eq out group
  rw [flatten, turn, List.foldl_append_eq_append, List.nil_append, List.map_id']

/-! ## Walks that push some of what they meet -/

/-- A walk that may stop and that pushes what it makes of some of its turns. -/
theorem foldlM_push {β γ : Type*} (holds : γ → Bool) (make : γ → β)
    {turn : List β → γ → Option (List β)} (items : List γ)
    (goes : ∀ item ∈ items, ∀ out,
      turn out item = some (if holds item then push out (make item) else out))
    (start : List β) :
    items.foldlM turn start = some (start ++ (items.filter holds).map make) := by
  induction items generalizing start with
  | nil => rw [List.filter_nil, List.map_nil, List.append_nil]; rfl
  | cons item items ih =>
      rw [List.foldlM_cons, goes item List.mem_cons_self start, Option.bind_eq_bind,
        Option.bind_some, ih fun later mem => goes later (List.mem_cons_of_mem _ mem),
        List.filter_cons]
      by_cases held : holds item = true
      · rw [if_pos held, if_pos held, push, List.append_assoc, List.map_cons,
          List.singleton_append]
      · rw [if_neg held, if_neg held]

/-- A walk stops where one of its turns stops whatever was pushed before. -/
theorem foldlM_none {β γ : Type*} {turn : β → γ → Option β} {item : γ} {items : List γ}
    (among : item ∈ items) (stops : ∀ out, turn out item = none) (start : β) :
    items.foldlM turn start = none := by
  induction items generalizing start with
  | nil => exact absurd among List.not_mem_nil
  | cons first items ih =>
      rw [List.foldlM_cons]
      rcases List.mem_cons.1 among with rfl | later
      · rw [stops start]
        rfl
      · cases turn start first with
        | none => rfl
        | some next => exact ih later next

/-! ## Slices at indices -/

/-- The slice of a length at a place. -/
def sliceAt (items : List α) (size start : Nat) : List α := (items.drop start).take size

theorem take_drop_eq (countable : items.length < 2 ^ 63) {size : Int64} {start : Nat}
    (inside : start < items.length) :
    take (drop items (Int64.ofNat start)) size = sliceAt items (clamped size) start := by
  have place : clamped (Int64.ofNat start) = start := by
    rw [clamped, Int64.toInt_ofNat_of_lt (by omega), Int.toNat_natCast]
  rw [drop_eq countable, place, take_eq (by rw [List.length_drop]; omega), sliceAt]

/-- The slices at some of the indices. -/
theorem filter_turns (holds : Int64 → Bool) (countable : items.length < 2 ^ 63) (size : Int64) :
    ((turns items).filter fun turn => holds turn.2).map
        (fun turn => take (drop items turn.2) size) =
      ((List.range items.length).filter fun start => holds (Int64.ofNat start)).map
        (sliceAt items (clamped size)) := by
  have indices := map_snd_turns items
  have pulled : ((turns items).filter fun turn => holds turn.2).map
      (fun turn => take (drop items turn.2) size) =
      (((turns items).map Prod.snd).filter holds).map fun start => take (drop items start) size := by
    rw [List.filter_map, List.map_map]
    rfl
  rw [pulled, indices, List.filter_map, List.map_map]
  apply List.map_congr_left
  intro start mem
  exact take_drop_eq countable (List.mem_range.1 (List.mem_filter.1 mem).1)

/-- The numbers below a bound that are below another one. -/
theorem filter_range_lt (count bound : Nat) :
    (List.range count).filter (fun start => decide (start < bound)) =
      List.range (min bound count) := by
  induction count with
  | zero => rw [List.range_zero, List.filter_nil, Nat.min_zero, List.range_zero]
  | succ count ih =>
      rw [List.range_succ, List.filter_append, ih]
      by_cases below : count < bound
      · rw [List.filter_singleton, decide_eq_true below, cond_true,
          show min bound count = count by omega, show min bound (count + 1) = count + 1 by omega,
          List.range_succ]
      · rw [List.filter_singleton, decide_eq_false below, cond_false, List.append_nil,
          show min bound count = bound by omega, show min bound (count + 1) = bound by omega]

/-- The multiples of a number below a bound. -/
theorem filter_range_dvd {size : Nat} (pos : 0 < size) (count : Nat) :
    (List.range count).filter (fun start => decide (size ∣ start)) =
      (List.range ((count + size - 1) / size)).map (· * size) := by
  induction count with
  | zero => rw [List.range_zero, List.filter_nil, Nat.div_eq_of_lt (by omega)]; rfl
  | succ count ih =>
      have next : (count + 1 + size - 1) / size = count / size + 1 := by
        rw [show count + 1 + size - 1 = count + size by omega, Nat.add_div_right _ pos]
      rw [List.range_succ, List.filter_append, ih, next, List.filter_singleton]
      by_cases multiple : size ∣ count
      · obtain ⟨times, rfl⟩ := multiple
        have before : (size * times + size - 1) / size = times := by
          rw [show size * times + size - 1 = size - 1 + size * times by omega,
            Nat.add_mul_div_left _ _ pos, Nat.div_eq_of_lt (by omega), Nat.zero_add]
        rw [decide_eq_true (Nat.dvd_mul_right _ _), cond_true, before,
          Nat.mul_div_cancel_left _ pos, List.range_succ, List.map_append, List.map_singleton,
          Nat.mul_comm times]
      · have before : (count + size - 1) / size = count / size + 1 := by
          have left : 0 < count % size := Nat.pos_of_ne_zero (mt Nat.dvd_of_mod_eq_zero multiple)
          have division := Nat.div_add_mod count size
          have small := Nat.mod_lt count pos
          rw [show count + size - 1 = (count % size - 1 + size) + size * (count / size) by omega,
            Nat.add_mul_div_left _ _ pos, Nat.add_div_right _ pos,
            Nat.div_eq_of_lt (by omega), Nat.zero_add, Nat.add_comm]
        rw [decide_eq_false multiple, cond_false, List.append_nil, before]

/-- The slices of a positive length one after the other. -/
theorem flatten_slices (items : List α) (size count : Nat) :
    ((List.range count).map fun turn => sliceAt items size (turn * size)).flatten =
      items.take (count * size) := by
  induction count with
  | zero => rw [List.range_zero, List.map_nil, List.flatten_nil, Nat.zero_mul, List.take_zero]
  | succ count ih =>
      rw [List.range_succ, List.map_append, List.flatten_append, ih, List.map_singleton,
        List.flatten_singleton, sliceAt, Nat.succ_mul, List.take_add]

/-! ## Windows -/

section Sized

variable {size : Int64}

theorem clamped_pos (pos : ¬size ≤ 0) : size.toInt = clamped size ∧ 0 < clamped size := by
  rw [Int64.le_iff_toInt_le] at pos
  have zero : (0 : Int64).toInt = 0 := rfl
  rw [clamped]
  omega

/-- The turn of `windows` at an index that is in the list. -/
theorem toInt_turn (countable : items.length < 2 ^ 63) {turn : α × Int64}
    (mem : turn ∈ turns items) :
    ∃ start, start < items.length ∧ turn.2 = Int64.ofNat start ∧ turn.2.toInt = start := by
  have index : turn.2 ∈ (turns items).map Prod.snd := List.mem_map_of_mem mem
  rw [map_snd_turns] at index
  obtain ⟨start, inside, same⟩ := List.mem_map.1 index
  rw [List.mem_range] at inside
  refine ⟨start, inside, same.symm, ?_⟩
  rw [← same, Int64.toInt_ofNat_of_lt (by omega)]

/-- The runs of a length in a list, in the order they start in. -/
def runsOf (items : List α) (size : Nat) : List (List α) :=
  (List.range (items.length + 1 - size)).map (sliceAt items size)

theorem windows_eq (countable : items.length < 2 ^ 63) (pos : ¬size ≤ 0)
    (fits : items.length + size.toInt ≤ 2 ^ 63) :
    windows items size = some (runsOf items (clamped size)) := by
  have value := clamped_pos pos
  rw [windows, if_neg pos, foldlM_push
    (fun turn => decide (turn.2.toInt + size.toInt ≤ items.length))
    (fun turn => take (drop items turn.2) size)]
  · rw [List.nil_append]
    congr 1
    rw [filter_turns (fun index => decide (index.toInt + size.toInt ≤ items.length))
      countable, runsOf, ← Nat.min_eq_left (show items.length + 1 - clamped size ≤ items.length by
        omega), ← filter_range_lt]
    congr 1
    apply List.filter_congr
    intro start mem
    rw [List.mem_range] at mem
    rw [Int64.toInt_ofNat_of_lt (by omega), decide_eq_decide]
    omega
  · intro turn mem out
    obtain ⟨start, inside, -, index⟩ := toInt_turn countable mem
    obtain ⟨stop, ends⟩ : ∃ stop, plus turn.2 size = some stop := by
      refine Option.ne_none_iff_exists'.1 (mt checked_eq_none.1 (not_not.2 ?_))
      rw [index, Wasm.Fits64]
      omega
    have place := checked_eq_some.1 ends
    have within_ : stop ≤ length items ↔ turn.2.toInt + size.toInt ≤ items.length := by
      rw [Int64.le_iff_toInt_le, toInt_length countable, place]
    rw [ends, Option.bind_some]
    simp only [within_, decide_eq_true_eq]
    split <;> rfl

/-- Where the end of a slice is past the last `Int`, the run stops. -/
theorem windows_none (countable : items.length < 2 ^ 63) (pos : ¬size ≤ 0)
    (past : 2 ^ 63 < items.length + size.toInt) : windows items size = none := by
  have bound := Int64.toInt_lt size
  have some_ : 0 < items.length := by omega
  have among : Int64.ofNat (items.length - 1) ∈ (turns items).map Prod.snd := by
    rw [map_snd_turns]
    exact List.mem_map_of_mem (List.mem_range.2 (by omega))
  obtain ⟨turn, mem, index⟩ := List.mem_map.1 among
  rw [windows, if_neg pos]
  refine foldlM_none mem (fun out => ?_) []
  have stops : plus turn.2 size = none := by
    rw [plus, checked_eq_none, index, Int64.toInt_ofNat_of_lt (by omega), Wasm.Fits64]
    omega
  rw [stops]
  rfl

/-! ## Chunks -/

/-- How many chunks of a length a list has. -/
def chunkCount (items : List α) (size : Nat) : Nat := (items.length + size - 1) / size

theorem chunks_eq (countable : items.length < 2 ^ 63) (pos : ¬size ≤ 0) :
    chunks items size = some ((List.range (chunkCount items (clamped size))).map fun turn =>
      sliceAt items (clamped size) (turn * clamped size)) := by
  have value := clamped_pos pos
  have bound := Int64.toInt_lt size
  rw [chunks, if_neg pos, foldlM_push
    (fun turn => decide (size.toInt ∣ turn.2.toInt))
    (fun turn => take (drop items turn.2) size)]
  · rw [List.nil_append]
    congr 1
    rw [filter_turns (fun index => decide (size.toInt ∣ index.toInt)) countable,
      chunkCount, ← Function.comp_def (sliceAt items (clamped size)) (· * clamped size),
      ← List.map_map, ← filter_range_dvd value.2]
    congr 1
    apply List.filter_congr
    intro start mem
    rw [List.mem_range] at mem
    rw [Int64.toInt_ofNat_of_lt (by omega), value.1, decide_eq_decide, Int.natCast_dvd_natCast]
  · intro turn mem out
    obtain ⟨start, inside, -, index⟩ := toInt_turn countable mem
    have small := Nat.mod_lt start value.2
    obtain ⟨left, answer⟩ : ∃ left, remainder turn.2 size = some left := by
      rw [remainder, if_neg]
      · refine Option.ne_none_iff_exists'.1 (mt checked_eq_none.1 (not_not.2 ?_))
        rw [index, value.1, ← Int.ofNat_tmod, Wasm.Fits64]
        omega
      · rintro (zero | ⟨-, minus⟩)
        · exact pos (zero ▸ Int64.le_refl 0)
        · rw [minus] at pos
          exact pos (by decide)
    have divides : left = 0 ↔ size.toInt ∣ turn.2.toInt := by
      rw [remainder] at answer
      split at answer
      · cases answer
      · rw [← Int64.toInt_inj, checked_eq_some.1 answer]
        exact (Int.dvd_iff_tmod_eq_zero).symm
    rw [answer, Option.bind_some]
    simp only [divides, decide_eq_true_eq]
    split <;> rfl

/-- Cut into chunks and put together again a list is what it was. -/
theorem flatten_chunks (pos : 0 < clamped size) :
    ((List.range (chunkCount items (clamped size))).map fun turn =>
      sliceAt items (clamped size) (turn * clamped size)).flatten = items := by
  rw [flatten_slices]
  apply List.take_of_length_le
  have division := Nat.div_add_mod (items.length + clamped size - 1) (clamped size)
  have small := Nat.mod_lt (items.length + clamped size - 1) pos
  rw [chunkCount, Nat.mul_comm]
  omega

/-- Every chunk but the last has the length asked for. -/
theorem length_chunk {turn : Nat} (pos : 0 < clamped size)
    (inside : turn < chunkCount items (clamped size)) :
    0 < (sliceAt items (clamped size) (turn * clamped size)).length ∧
      (sliceAt items (clamped size) (turn * clamped size)).length ≤ clamped size ∧
      (turn + 1 < chunkCount items (clamped size) →
        (sliceAt items (clamped size) (turn * clamped size)).length = clamped size) := by
  have room : ∀ {turn}, turn < chunkCount items (clamped size) →
      turn * clamped size < items.length := by
    intro turn inside
    have reach := Nat.mul_le_of_le_div _ _ _ (Nat.succ_le_of_lt inside)
    rw [Nat.succ_mul] at reach
    omega
  have here := room inside
  rw [sliceAt, List.length_take, List.length_drop]
  refine ⟨by omega, by omega, fun further => ?_⟩
  have next := room further
  rw [Nat.succ_mul] at next
  omega

end Sized

/-! ## All of them -/

/-- What cutting a list up by a count is to come to. -/
structure Sliced (items : List α) (count : Int64) : Prop where
  rejoined : concat (take items count) (drop items count) = items
  taken : (length (take items count)).toInt = max 0 (min count.toInt items.length)
  windowed : windows items count =
    some (if 1 ≤ count.toInt ∧ count.toInt ≤ items.length then runsOf items (clamped count)
      else [])
  chunked : ∃ pieces, chunks items count = some pieces ∧ (count ≤ 0 → pieces = []) ∧
    (0 < count → flatten pieces = items ∧ ∀ front last, pieces = front ++ [last] →
      (∀ piece ∈ front, piece.length = clamped count) ∧
        0 < last.length ∧ last.length ≤ clamped count)

theorem runsOf_eq_nil {size : Nat} (long : items.length < size) : runsOf items size = [] := by
  rw [runsOf, Nat.sub_eq_zero_of_le long, List.range_zero, List.map_nil]

theorem chunked (countable : items.length < 2 ^ 63) (count : Int64) :
    ∃ pieces, chunks items count = some pieces ∧ (count ≤ 0 → pieces = []) ∧
      (0 < count → flatten pieces = items ∧ ∀ front last, pieces = front ++ [last] →
        (∀ piece ∈ front, piece.length = clamped count) ∧
          0 < last.length ∧ last.length ≤ clamped count) := by
  by_cases pos : count ≤ 0
  · refine ⟨[], by rw [chunks, if_pos pos], fun _ => rfl, fun positive => ?_⟩
    exact absurd pos (Int64.not_le.2 positive)
  · have size := (clamped_pos pos).2
    refine ⟨_, chunks_eq countable pos, fun negative => absurd negative pos, fun _ => ?_⟩
    refine ⟨(flatten_eq _).trans (flatten_chunks size), fun front last whole => ?_⟩
    cases count' : chunkCount items (clamped count) with
    | zero =>
        rw [count', List.range_zero, List.map_nil] at whole
        exact absurd whole.symm (List.concat_ne_nil last front)
    | succ turns =>
        rw [count', List.range_succ, List.map_append, List.map_singleton] at whole
        obtain ⟨same, same'⟩ := List.append_inj' whole rfl
        have ends := @length_chunk _ items _ turns size (by rw [count']; exact Nat.lt_succ_self _)
        rw [List.cons.inj same' |>.1] at ends
        refine ⟨?_, ends.1, ends.2.1⟩
        rw [← same]
        intro piece mem
        obtain ⟨turn, inside, rfl⟩ := List.mem_map.1 mem
        rw [List.mem_range] at inside
        exact (length_chunk size (by rw [count']; omega)).2.2 (by rw [count']; omega)

/-- Every count is answered quietly where no end of a slice that `windows` asks about is past
the last `Int`, and nowhere else. -/
theorem sliced_iff (countable : items.length < 2 ^ 63) (count : Int64) :
    Sliced items count ↔ count ≤ 0 ∨ items.length + count.toInt ≤ 2 ^ 63 := by
  constructor
  · intro sliced
    by_contra past
    rw [not_or, not_le] at past
    have stops := windows_none countable past.1 past.2
    rw [sliced.windowed] at stops
    exact absurd stops (Option.some_ne_none _)
  · intro fits
    refine ⟨?_, ?_, ?_, chunked countable count⟩
    · rw [concat_eq, take_eq countable, drop_eq countable, List.take_append_drop]
    · rw [take_eq countable, toInt_length (by rw [List.length_take]; omega), List.length_take,
        clamped]
      omega
    · by_cases pos : count ≤ 0
      · rw [Int64.le_iff_toInt_le, show (0 : Int64).toInt = 0 from rfl] at pos
        rw [windows, if_pos (Int64.le_iff_toInt_le.2 pos), if_neg (by omega)]
      · have value := clamped_pos pos
        rw [windows_eq countable pos (fits.resolve_left pos)]
        split
        · rfl
        · next outside =>
            rw [runsOf_eq_nil (by omega)]

/-- Three numbers in twos. -/
theorem sliced_three : Sliced [1, 2, 3] 2 ↔
    (2 : Int64) ≤ 0 ∨ ([1, 2, 3].length : Int) + (2 : Int64).toInt ≤ 2 ^ 63 :=
  sliced_iff (by decide) 2

/-- `windows([1, 2], Int.max)` stops. -/
theorem windows_stops : ¬Sliced [1, 2] Int64.maxValue := by
  intro sliced
  have stops : windows [1, 2] Int64.maxValue = none := by decide
  rw [sliced.windowed] at stops
  exact absurd stops (Option.some_ne_none _)

end Deed.Stdlib
