import Deed.Codegen.Datum
import Deed.Codegen.Equality

/-!
# Compiled equality is structural

The comparison of one shape calls the comparisons of the shapes it holds, so what they
answer is proved by induction on the value that is compared: each piece of a comparison
goes on where its parts are equal and answers `false` where they are not.
-/

namespace Deed.Codegen.Equality

open Deed.Wasm Deed.Mir Deed.Runtime

/-- The module holds the comparison of each shape where its callers expect it, and the
text helper where a shape needs it. -/
structure Emitted (engine : Engine) (program : Program) (shapes : List Ty)
    (at_ : Where) : Prop where
  numbered : at_.equals.map Prod.fst = shapes
  placed : ∀ entry ∈ at_.equals, ∃ typeIndex, engine.module.function entry.2.toNat =
    .ok (signature, ⟨typeIndex, (compile program entry.1 at_).1,
      (compile program entry.1 at_).2⟩)
  text : needsText program shapes = true →
    ∃ typeIndex, engine.module.function at_.sameText.toNat =
      .ok (Helper.sameText.signature, ⟨typeIndex, Code.strEq.1, Code.strEq.2⟩)

/-- There is something that compares two words of a type. -/
def Available (program : Program) (shapes : List Ty) (ty : Ty) : Prop :=
  (walked ty = true → ty ∈ shapes) ∧ (ty = .str → needsText program shapes = true)

/-- An instruction goes on with whether two words stand for the same. -/
def Decides (engine : Engine) (memory : Memory) (compare : Ins) (left right : Int)
    (same : Prop) : Prop :=
  ∀ (rest : List Ins) (locals stack : List Value) (post : Outcome → Prop),
    (same → Runs engine rest ⟨memory, locals, word32 1 :: stack⟩ post) →
    (¬ same → Runs engine rest ⟨memory, locals, word32 0 :: stack⟩ post) →
    Runs engine (compare :: rest)
      ⟨memory, locals, word64 right :: word64 left :: stack⟩ post

/-- What answering `false` leaves behind. -/
def Refused (memory : Memory) (apart : Prop) (machine : Machine) : Prop :=
  machine.memory = memory ∧ machine.stack = [word32 0] ∧ apart

variable {engine : Engine} {program : Program} {shapes : List Ty} {at_ : Where}
  {memory : Memory} {locals : List Value}

/-- A test that answers `false` unless two parts are the same. -/
theorem does_unless {test : List Ins} {same : Prop}
    (tests : ∀ (rest : List Ins) (stack : List Value) (post : Outcome → Prop),
      (same → Runs engine rest ⟨memory, locals, word32 1 :: stack⟩ post) →
      (¬ same → Runs engine rest ⟨memory, locals, word32 0 :: stack⟩ post) →
      Runs engine (test ++ rest) ⟨memory, locals, stack⟩ post) :
    Does engine ⟨memory, locals⟩ (unless_ test) (fun now => now = locals ∧ same)
      (Refused memory (¬ same)) := by
  intro rest stack post goes ends
  rw [unless_, List.append_assoc]
  apply tests
  · intro alike
    rw [List.cons_append, runs_i32Eqz (by decide), List.singleton_append, runs_answer,
      if_neg (by decide)]
    exact goes locals ⟨rfl, alike⟩
  · intro apart
    rw [List.cons_append, runs_i32Eqz (by decide), List.singleton_append, runs_answer,
      if_pos rfl]
    exact ends _ ⟨rfl, rfl, apart⟩

theorem runs_both {left right : Nat} {offset : UInt32} {first second : Int}
    {rest : List Ins} {stack : List Value} {post : Outcome → Prop}
    (atLeft : locals[2]? = some (word32 left)) (atRight : locals[3]? = some (word32 right))
    (small : left < 2 ^ 32) (small' : right < 2 ^ 32)
    (reads : memory.read (left + offset.toNat) = some first)
    (reads' : memory.read (right + offset.toNat) = some second) :
    Runs engine (both offset ++ rest) ⟨memory, locals, stack⟩ post ↔
      Runs engine rest ⟨memory, locals, word64 second :: word64 first :: stack⟩ post := by
  simp only [both, List.cons_append, List.nil_append, runs_localGet, UInt32.reduceToNat,
    atLeft, atRight, Option.elim_some, runs_i64Load small, runs_i64Load small', reads,
    reads']

theorem decides_words {left right : Int} (fits : Fits64 left) (fits' : Fits64 right)
    {same : Prop} (stands : left = right ↔ same) :
    Decides engine memory .i64Eq left right same := by
  intro rest locals stack post goes stops
  rw [runs_i64Eq fits fits']
  by_cases alike : left = right
  · have yes : boolean (left = right) = word32 1 := by
      rw [boolean, if_pos alike]
      rfl
    rw [yes]
    exact goes (stands.1 alike)
  · have no : boolean (left = right) = word32 0 := by
      rw [boolean, if_neg alike]
      rfl
    rw [no]
    exact stops fun holds => alike (stands.2 holds)

/-- Whether two words at one offset stand for the same. -/
theorem does_field {left right : Nat} {offset : UInt32} {first second : Int} {ty : Ty}
    {compare : Ins} {same : Prop} (found : compares ty at_ = some compare)
    (decides : Decides engine memory compare first second same)
    (atLeft : locals[2]? = some (word32 left)) (atRight : locals[3]? = some (word32 right))
    (small : left < 2 ^ 32) (small' : right < 2 ^ 32)
    (reads : memory.read (left + offset.toNat) = some first)
    (reads' : memory.read (right + offset.toNat) = some second) :
    Does engine ⟨memory, locals⟩ (field offset ty at_) (fun now => now = locals ∧ same)
      (Refused memory (¬ same)) := by
  rw [field, found]
  apply does_unless
  intro rest stack post goes stops
  rw [List.append_assoc, runs_both atLeft atRight small small' reads reads']
  exact decides rest locals stack post goes stops

/-! ## Records and choices -/

/-- Wherever two words of one type hold data, something decides whether the data are the
same. -/
def Compared (engine : Engine) (program : Program) (shapes : List Ty) (at_ : Where)
    (memory : Memory) (left : Datum) : Prop :=
  ∀ (right : Datum) (ty : Ty) (word other : Int), Available program shapes ty →
    Holds program memory left ty word → Holds program memory right ty other →
    ∃ compare, compares ty at_ = some compare ∧
      Decides engine memory compare word other (left = right)

theorem toNat_fieldOffset {tagged : Bool} {position : Nat}
    (small : ((if tagged then 1 else 0) + position) * 8 < 2 ^ 32) :
    (fieldOffset tagged position).toNat = ((if tagged then 1 else 0) + position) * 8 := by
  rw [fieldOffset, WORD_eq, UInt32.toNat_ofNat', Nat.mod_eq_of_lt small]

/-- The fields of a variant, one after the other. -/
theorem does_fields {tagged : Bool} {left right : Nat} {declared : List Field}
    (size : memory.size ≤ 2 ^ 30)
    (available : ∀ one ∈ declared, Available program shapes one.ty)
    (atLeft : locals[2]? = some (word32 left)) (atRight : locals[3]? = some (word32 right))
    (position : Nat) {lefts rights : List Datum}
    (each : ∀ datum ∈ lefts, Compared engine program shapes at_ memory datum)
    (holds : HoldsRow program memory lefts (declared.map Field.ty)
      (left + ((if tagged then 1 else 0) + position) * 8))
    (holds' : HoldsRow program memory rights (declared.map Field.ty)
      (right + ((if tagged then 1 else 0) + position) * 8)) :
    Does engine ⟨memory, locals⟩ (fields tagged at_ declared position)
      (fun now => now = locals ∧ lefts = rights) (Refused memory (¬ lefts = rights)) := by
  induction declared generalizing position lefts rights with
  | nil =>
      rcases lefts with _ | ⟨first, lefts⟩
      · rcases rights with _ | ⟨other, rights⟩
        · exact Does.nil ⟨rfl, rfl⟩
        · exact absurd holds' (by simp [HoldsRow])
      · exact absurd holds (by simp [HoldsRow])
  | cons one declared ih =>
      rcases lefts with _ | ⟨first, lefts⟩
      · exact absurd holds (by simp [HoldsRow])
      rcases rights with _ | ⟨other, rights⟩
      · exact absurd holds' (by simp [HoldsRow])
      rw [List.map_cons, HoldsRow] at holds holds'
      rcases holds with ⟨⟨word, reads, here⟩, after⟩
      rcases holds' with ⟨⟨word', reads', here'⟩, after'⟩
      have inside := read_inside reads
      have inside' := read_inside reads'
      have offset := @toNat_fieldOffset tagged position (by omega)
      rcases each first List.mem_cons_self other one.ty word word'
        (available one List.mem_cons_self) here here' with ⟨compare, found, decides⟩
      rw [← offset] at reads reads'
      have compared := does_field found decides atLeft atRight (by omega) (by omega) reads
        reads'
      rw [fields]
      refine Does.append (compared.mono (fun _ => id) ?_) ?_
      · rintro machine ⟨kept, answered, apart⟩
        exact ⟨kept, answered, fun same => apart (List.cons.inj same).1⟩
      · rintro now ⟨rfl, rfl⟩
        have next : ∀ address : Nat, address + ((if tagged then 1 else 0) + position) * 8 + WORD =
            address + ((if tagged then 1 else 0) + (position + 1)) * 8 := by
          intro address
          rw [WORD_eq]
          ring
        rw [next] at after after'
        have later := ih (fun one present => available one (List.mem_cons_of_mem _ present))
          (position + 1)
          (fun datum present => each datum (List.mem_cons_of_mem _ present)) after after'
        refine later.mono ?_ ?_
        · rintro now ⟨rfl, rfl⟩
          exact ⟨rfl, rfl⟩
        · rintro machine ⟨kept, answered, apart⟩
          exact ⟨kept, answered, fun same => apart (List.cons.inj same).2⟩

/-- The answer of a comparison. -/
def Tells (memory : Memory) (same : Prop) (after : Memory) (value : Value) : Prop :=
  after = memory ∧ ((same ∧ value = word32 1) ∨ (¬ same ∧ value = word32 0))

/-- What goes on where two values are the same answers whether they are. -/
theorem answers_of_does {code : List Ins} {same : Prop}
    (does : Does engine ⟨memory, locals⟩ code (fun _ => same) (Refused memory (¬ same))) :
    Runs engine (code ++ [.i32Const 1, .return_]) ⟨memory, locals, []⟩
      (Answered (Tells memory same) fun _ => False) := by
  apply does
  · intro now alike
    rw [runs_plain rfl]
    exact runs_return.2 (answered_returned.2 ⟨rfl, Or.inl ⟨alike, rfl⟩⟩)
  · rintro ⟨after, left, stack⟩ ⟨rfl, answered, apart⟩
    exact ⟨word32 0, [], answered, rfl, Or.inr ⟨apart, rfl⟩⟩

/-- Both addresses, narrowed. -/
theorem does_narrowed {left right : Nat} {extra : List Value} :
    Does engine ⟨memory, word64 left :: word64 right :: word32 0 :: word32 0 :: extra⟩
      narrowed
      (fun now => now = word64 left :: word64 right :: word32 left :: word32 right :: extra)
      (fun _ => False) := by
  intro rest stack post goes ends
  simp only [narrowed, List.cons_append, List.nil_append, runs_localGet, UInt32.reduceToNat,
    List.getElem?_cons_zero, List.getElem?_cons_succ, Option.elim_some, runs_i32WrapI64,
    runs_localSet, List.length_cons, List.set_cons_zero, List.set_cons_succ]
  rw [if_pos (by omega), if_pos (by omega)]
  exact goes _ rfl

/-- Two words at the start of both values that have to agree. -/
theorem does_heads {left right : Nat} {first second : Int} {same : Prop}
    (atLeft : locals[2]? = some (word32 left)) (atRight : locals[3]? = some (word32 right))
    (small : left < 2 ^ 32) (small' : right < 2 ^ 32)
    (reads : memory.read left = some first) (reads' : memory.read right = some second)
    (stands : first = second ↔ same) :
    Does engine ⟨memory, locals⟩ (unless_ (both 0 ++ [.i64Eq]))
      (fun now => now = locals ∧ same) (Refused memory (¬ same)) := by
  apply does_unless
  intro rest stack post goes stops
  rw [List.append_assoc, runs_both atLeft atRight small small' reads reads']
  exact decides_words (read_fits reads) (read_fits reads') stands rest locals stack post goes
    stops

theorem runs_aggregate {id : LayoutId} {left right : Datum} {word other : Int}
    (size : memory.size ≤ 2 ^ 30)
    (available : ∀ held ∈ heldBy program (.aggregate id), Available program shapes held)
    (each : ∀ inner, sizeOf inner < sizeOf left →
      Compared engine program shapes at_ memory inner)
    (holds : Holds program memory left (.aggregate id) word)
    (holds' : Holds program memory right (.aggregate id) other) :
    Runs engine (aggregate program id at_).2
      ⟨memory, [word64 word, word64 other, word32 0, word32 0], []⟩
      (Answered (Tells memory (left = right)) fun _ => False) := by
  rcases holds.ofAggregate with
    ⟨variant, lefts, held, rfl, found, a, rfl, room, tag, row⟩
  rcases holds'.ofAggregate with
    ⟨variant', rights, held', rfl, found', b, rfl, room', tag', row'⟩
  have lefts_ : ∀ datum ∈ lefts, Compared engine program shapes at_ memory datum :=
    fun datum present => each datum (Datum.sizeOf_field present)
  have listed : ∀ one ∈ held.fields, Available program shapes one.ty := by
    intro one present
    apply available
    exact List.mem_flatMap.2
      ⟨held, List.mem_of_getElem? found, List.mem_map_of_mem present⟩
  -- The tags agree, or the comparison ends.
  have heads : Does engine
      ⟨memory, [word64 a, word64 b, word32 a, word32 b]⟩
      (if (program.layout id).isTagged then unless_ (both 0 ++ [.i64Eq]) else [])
      (fun now => now = [word64 a, word64 b, word32 a, word32 b] ∧ variant = variant')
      (Refused memory (¬ Datum.made variant lefts = .made variant' rights)) := by
    cases tagged : (program.layout id).isTagged with
    | true =>
        have stands : ((variant : Int) = (variant' : Int)) ↔ variant = variant' :=
          Int.ofNat_inj
        refine (does_heads rfl rfl (by omega) (by omega) (tag tagged) (tag' tagged)
          stands).mono (fun _ arrived => arrived) ?_
        rintro machine ⟨kept, answered, apart⟩
        exact ⟨kept, answered, fun same => apart (Datum.made.inj same).1⟩
    | false =>
        exact Does.nil ⟨rfl, (untagged_variant tagged found).trans
          (untagged_variant tagged found').symm⟩
  -- The fields of the variant that both hold are compared.
  have compared : variant = variant' → Does engine
      ⟨memory, [word64 a, word64 b, word32 a, word32 b]⟩
      (arms 2 (program.layout id).isTagged ((program.layout id).variants.map fun variant =>
        fields (program.layout id).isTagged at_ variant.fields 0) 0)
      (fun now => now = [word64 a, word64 b, word32 a, word32 b] ∧ lefts = rights)
      (Refused memory (¬ lefts = rights)) := by
    rintro rfl
    have alike : held = held' := Option.some.inj (found.symm.trans found')
    rw [← alike] at row'
    have start : ∀ address : Nat,
        address + (if (program.layout id).isTagged then WORD else 0) =
          address + ((if (program.layout id).isTagged then 1 else 0) + 0) * 8 := by
      intro address
      cases (program.layout id).isTagged <;> rfl
    rw [start] at row row'
    apply does_arms (program.variants_lt id) found rfl (by omega) tag
    · rintro now ⟨rfl, -⟩
      rfl
    · exact does_fields size listed rfl rfl 0 lefts_ row row'
  have whole : Does engine ⟨memory, [word64 a, word64 b, word32 0, word32 0]⟩
      (narrowed ++ ((if (program.layout id).isTagged then unless_ (both 0 ++ [.i64Eq])
        else []) ++ arms 2 (program.layout id).isTagged
          ((program.layout id).variants.map fun variant =>
            fields (program.layout id).isTagged at_ variant.fields 0) 0))
      (fun _ => Datum.made variant lefts = .made variant' rights)
      (Refused memory (¬ Datum.made variant lefts = .made variant' rights)) := by
    refine Does.append (does_narrowed.mono (fun _ arrived => arrived) fun _ => False.elim) ?_
    rintro now rfl
    apply heads.append
    rintro now ⟨rfl, rfl⟩
    refine (compared rfl).mono ?_ ?_
    · rintro now ⟨-, rfl⟩
      rfl
    · rintro machine ⟨kept, answered, apart⟩
      exact ⟨kept, answered, fun same => apart (Datum.made.inj same).2⟩
  have code : (aggregate program id at_).2 = (narrowed ++
      ((if (program.layout id).isTagged then unless_ (both 0 ++ [.i64Eq]) else []) ++
        arms 2 (program.layout id).isTagged ((program.layout id).variants.map fun variant =>
          fields (program.layout id).isTagged at_ variant.fields 0) 0)) ++
      [.i32Const 1, .return_] := by
    simp only [aggregate, seq_cons, seq_nil, List.append_nil, List.append_assoc]
  rw [code]
  exact answers_of_does whole

/-! ## Lists -/

theorem walked_call {ty : Ty} (emitted : Emitted engine program shapes at_)
    (present : ty ∈ shapes) :
    ∃ index typeIndex, at_.call ty = some (.call index) ∧
      engine.module.function index.toNat =
        .ok (signature, ⟨typeIndex, (compile program ty at_).1, (compile program ty at_).2⟩) := by
  rw [← emitted.numbered] at present
  rcases callOf_mem present with ⟨index, called, listed⟩
  rcases emitted.placed (ty, index) listed with ⟨typeIndex, placed⟩
  exact ⟨index, typeIndex, called, placed⟩

/-- Something compares two words of a type that is available. -/
theorem compares_available {ty : Ty} (emitted : Emitted engine program shapes at_)
    (available : Available program shapes ty) : ∃ compare, compares ty at_ = some compare := by
  rw [compares]
  by_cases text : ty = .str
  · exact ⟨_, if_pos text⟩
  · rw [if_neg text]
    by_cases walks : walked ty = true
    · rcases walked_call emitted (available.1 walks) with ⟨index, typeIndex, called, -⟩
      exact ⟨.call index, (if_pos walks).trans called⟩
    · exact ⟨.i64Eq, if_neg walks⟩

/-- What the loop over the elements keeps: the elements before the counter agree. -/
def Walked (memory : Memory) (locals : List Value) (lefts rights : List Datum) (count : Nat)
    (now : Memory) (reached : List Value) : Prop :=
  now = memory ∧ reached = locals.set 5 (word32 count) ∧
    lefts.take count = rights.take count

theorem does_walk {a b : Nat} {element : Ty} {compare : Ins} {lefts rights : List Datum}
    (size : memory.size ≤ 2 ^ 30) (available : Available program shapes element)
    (found : compares element at_ = some compare)
    (each : ∀ datum ∈ lefts, Compared engine program shapes at_ memory datum)
    (length : locals.length = 6) (atLeft : locals[2]? = some (word32 a))
    (atRight : locals[3]? = some (word32 b))
    (atCount : locals[4]? = some (word32 lefts.length))
    (lengths : rights.length = lefts.length) (inside : a + 8 + lefts.length * 8 ≤ memory.size)
    (inside' : b + 8 + lefts.length * 8 ≤ memory.size)
    (row : HoldsRow program memory lefts (List.replicate lefts.length element) (a + 8))
    (row' : HoldsRow program memory rights (List.replicate rights.length element) (b + 8)) :
    Does engine ⟨memory, locals⟩ (walk compare) (fun _ => lefts = rights)
      (Refused memory (¬ lefts = rights)) := by
  intro rest stack post goes ends
  rw [walk]
  refine runs_countTo lefts.length (Walked memory locals lefts rights) (by omega)
    (by rw [length]; exact Nat.lt_of_sub_eq_succ rfl) ⟨rfl, rfl, rfl⟩ ?_ ?_ ?_
  · rintro count now reached ⟨-, rfl, -⟩
    refine ⟨List.getElem?_set_self (by omega), ?_⟩
    rw [List.getElem?_set_ne (by decide)]
    exact atCount
  · rintro count now reached below ⟨rfl, rfl, agree⟩
    have below' : count < rights.length := by omega
    have typed : (List.replicate lefts.length element)[count]? = some element := by
      rw [List.getElem?_replicate, if_pos below]
    have typed' : (List.replicate rights.length element)[count]? = some element := by
      rw [List.getElem?_replicate, if_pos below']
    rcases row.get (List.getElem?_eq_getElem below) typed with ⟨word, reads, here⟩
    rcases row'.get (List.getElem?_eq_getElem below') typed' with ⟨word', reads', here'⟩
    rcases each _ (List.getElem_mem below) _ element word word' available here here' with
      ⟨compare', found', decides⟩
    rw [← Option.some.inj (found.symm.trans found')] at decides
    have counter : (locals.set 5 (word32 count))[UInt32.toNat 5]? = some (word32 count) :=
      List.getElem?_set_self (by omega)
    have left' : (locals.set 5 (word32 count))[UInt32.toNat 2]? = some (word32 a) :=
      (List.getElem?_set_ne (by decide)).trans atLeft
    have right' : (locals.set 5 (word32 count))[UInt32.toNat 3]? = some (word32 b) :=
      (List.getElem?_set_ne (by decide)).trans atRight
    have turn : Does engine ⟨now, locals.set 5 (word32 count)⟩
        (unless_ (seq [elementAt 2 5, [.i64Load 0], elementAt 3 5, [.i64Load 0, compare]]))
        (fun reached => reached = locals.set 5 (word32 count) ∧ lefts[count] = rights[count])
        (Refused now (¬ lefts[count] = rights[count])) := by
      apply does_unless
      intro rest stack post goes stops
      rw [WORD_eq] at reads reads'
      simp only [seq_cons, seq_nil, List.append_nil, List.append_assoc, List.cons_append,
        List.nil_append]
      rw [runs_elementAt left' counter, runs_i64Load (by omega), UInt32.toNat_zero,
        Nat.add_zero, reads, Option.elim_some, runs_elementAt right' counter,
        runs_i64Load (by omega), UInt32.toNat_zero, Nat.add_zero, reads', Option.elim_some]
      exact decides rest _ stack post goes stops
    apply turn
    · rintro reached ⟨rfl, alike⟩
      have further : Walked now locals lefts rights (count + 1) now
          ((locals.set 5 (word32 count)).set 5 (word32 (count + 1))) := by
        refine ⟨rfl, List.set_set .., ?_⟩
        rw [List.take_succ_eq_append_getElem below, List.take_succ_eq_append_getElem below', agree,
          alike]
      exact (runs_nextTurn counter).2 further
    · rintro machine ⟨kept, answered, apart⟩
      rw [looped_returned]
      refine ends machine ⟨kept, answered, fun same => apart ?_⟩
      simp only [same]
  · rintro now reached ⟨rfl, rfl, agree⟩
    apply goes
    rw [List.take_length, ← lengths, List.take_length] at agree
    exact agree

theorem runs_list {element : Ty} {left right : Datum} {word other : Int}
    (emitted : Emitted engine program shapes at_) (size : memory.size ≤ 2 ^ 30)
    (available : Available program shapes element)
    (each : ∀ inner, sizeOf inner < sizeOf left →
      Compared engine program shapes at_ memory inner)
    (holds : Holds program memory left (.list element) word)
    (holds' : Holds program memory right (.list element) other) :
    Runs engine (list element at_).2
      ⟨memory, [word64 word, word64 other, word32 0, word32 0, word32 0, word32 0], []⟩
      (Answered (Tells memory (left = right)) fun _ => False) := by
  rcases holds.ofList with ⟨lefts, rfl, a, rfl, reads, row⟩
  rcases holds'.ofList with ⟨rights, rfl, b, rfl, reads', row'⟩
  have inside := read_inside reads
  have inside' := read_inside reads'
  have lengths : ((lefts.length : Int) = (rights.length : Int)) ↔
      rights.length = lefts.length := by
    rw [Int.ofNat_inj]
    exact eq_comm
  -- The lengths agree, or the comparison ends.
  have heads : Does engine
      ⟨memory, [word64 a, word64 b, word32 0, word32 0, word32 0, word32 0]⟩
      (narrowed ++ unless_ (both 0 ++ [.i64Eq]))
      (fun now => now = [word64 a, word64 b, word32 a, word32 b, word32 0, word32 0] ∧
        rights.length = lefts.length)
      (Refused memory (¬ Datum.list lefts = .list rights)) := by
    refine Does.append (does_narrowed.mono (fun _ arrived => arrived) fun _ => False.elim) ?_
    rintro now rfl
    refine (does_heads rfl rfl (by omega) (by omega) reads reads' lengths).mono
      (fun _ arrived => arrived) ?_
    rintro machine ⟨kept, answered, apart⟩
    exact ⟨kept, answered, fun same => apart (by rw [Datum.list.inj same])⟩
  rw [list]
  by_cases nothing : element = .unit
  · rw [if_pos nothing]
    rw [nothing] at row row'
    apply answers_of_does
    refine heads.mono ?_ fun _ ended => ended
    rintro now ⟨-, same⟩
    rw [row.units, row'.units, same]
  · rcases compares_available emitted available with ⟨compare, found⟩
    rw [if_neg nothing, found]
    have walks : Does engine
        ⟨memory, [word64 a, word64 b, word32 0, word32 0, word32 0, word32 0]⟩
        ((narrowed ++ unless_ (both 0 ++ [.i64Eq])) ++
          ([.localGet 2, .i64Load 0, .i32WrapI64, .localSet 4] ++ walk compare))
        (fun _ => Datum.list lefts = .list rights)
        (Refused memory (¬ Datum.list lefts = .list rights)) := by
      apply heads.append
      rintro now ⟨rfl, same⟩
      have opened : Does engine
          ⟨memory, [word64 a, word64 b, word32 a, word32 b, word32 0, word32 0]⟩
          [.localGet 2, .i64Load 0, .i32WrapI64, .localSet 4]
          (fun now => now =
            [word64 a, word64 b, word32 a, word32 b, word32 lefts.length, word32 0])
          (Refused memory (¬ Datum.list lefts = .list rights)) := by
        intro rest stack post goes ends
        simp only [List.cons_append, List.nil_append, runs_localGet, UInt32.reduceToNat,
          List.getElem?_cons_zero, List.getElem?_cons_succ, Option.elim_some]
        rw [runs_i64Load (by omega), UInt32.toNat_zero, Nat.add_zero, reads, Option.elim_some,
          runs_i32WrapI64, runs_localSet, if_pos (Nat.lt_of_sub_eq_succ rfl)]
        exact goes _ rfl
      apply opened.append
      rintro now rfl
      rw [ELEMENTS_eq] at row row'
      refine (does_walk size available found
        (fun datum present => each datum (Datum.sizeOf_element present)) rfl rfl rfl rfl same
        ?_ ?_ row row').mono ?_ ?_
      · exact row.inside inside
      · rw [← same]
        exact row'.inside inside'
      · rintro now rfl
        rfl
      · rintro machine ⟨kept, answered, apart⟩
        exact ⟨kept, answered, fun same => apart (Datum.list.inj same)⟩
    have answers := answers_of_does walks
    simp only [seq_cons, seq_nil, List.append_nil, List.append_assoc] at answers ⊢
    exact answers

/-! ## Every shape -/

/-- The function emitted for one shape answers whether two values of it are the same. -/
theorem runs_compile {ty : Ty} {left right : Datum} {word other : Int}
    (emitted : Emitted engine program shapes at_) (size : memory.size ≤ 2 ^ 30)
    (available : ∀ held ∈ heldBy program ty, Available program shapes held)
    (walks : walked ty = true)
    (each : ∀ inner, sizeOf inner < sizeOf left →
      Compared engine program shapes at_ memory inner)
    (holds : Holds program memory left ty word)
    (holds' : Holds program memory right ty other) :
    Runs engine (compile program ty at_).2
      ⟨memory, [word64 word, word64 other] ++ (compile program ty at_).1.map Value.zero, []⟩
      (Answered (Tells memory (left = right)) fun _ => False) := by
  cases ty with
  | aggregate id => exact runs_aggregate size available each holds holds'
  | list element =>
      have locals : (list element at_).1 = [.i32, .i32, .i32, .i32] := by
        rw [list]
        split
        · rfl
        · split <;> rfl
      show Runs engine (list element at_).2
        ⟨memory, [word64 word, word64 other] ++ (list element at_).1.map Value.zero, []⟩ _
      rw [locals]
      exact runs_list emitted size (available element List.mem_cons_self) each holds holds'
  | unit | bool | int | str | capability | closure => exact absurd walks Bool.false_ne_true

/-- What a shape of a closure holds is available. -/
theorem available_held {ty : Ty}
    (closed : ∀ ty ∈ shapes, ∀ held ∈ heldBy program ty, walked held = true → held ∈ shapes)
    (present : ty ∈ shapes) :
    ∀ held ∈ heldBy program ty, Available program shapes held := by
  intro held holds
  refine ⟨closed ty present held holds, ?_⟩
  rintro rfl
  exact List.any_eq_true.2 ⟨ty, present, List.any_eq_true.2 ⟨.str, holds, rfl⟩⟩

theorem decides_of_answers {index typeIndex : UInt32} {called : FuncType}
    {extra : List ValType} {body : List Ins} {left right : Int} {same : Prop}
    (placed : engine.module.function index.toNat = .ok (called, ⟨typeIndex, extra, body⟩))
    (arity : called = signature)
    (answers : Runs engine body
      ⟨memory, [word64 left, word64 right] ++ extra.map Value.zero, []⟩
      (Answered (Tells memory same) fun _ => False)) :
    Decides engine memory (.call index) left right same := by
  intro rest locals stack post goes stops
  apply runs_call_placed placed (by rw [arity]; rfl) (by rw [arity]; rfl) answers
  · rintro after value ⟨rfl, ⟨alike, rfl⟩ | ⟨apart, rfl⟩⟩
    · exact goes alike
    · exact stops apart
  · exact fun _ => False.elim

/-- Words that need no walk are equal exactly when what they hold is. -/
theorem words_stand {left right : Datum} {ty : Ty} {word other : Int}
    (plain : walked ty = false) (number : ty ≠ .str)
    (holds : Holds program memory left ty word)
    (holds' : Holds program memory right ty other) : word = other ↔ left = right := by
  cases ty with
  | str => exact absurd rfl number
  | list element => exact absurd plain.symm Bool.false_ne_true
  | aggregate id => exact absurd plain.symm Bool.false_ne_true
  | unit =>
      cases left <;> simp [Holds] at holds
      cases right <;> simp [Holds] at holds'
      simp [holds, holds']
  | bool =>
      cases left <;> simp [Holds] at holds
      cases right <;> simp [Holds] at holds'
      next yes no => cases yes <;> cases no <;> simp [holds, holds']
  | int =>
      cases left <;> simp [Holds] at holds
      cases right <;> simp [Holds] at holds'
      simp [holds, holds']
  | capability =>
      cases left <;> simp [Holds] at holds
      cases right <;> simp [Holds] at holds'
      simp [holds, holds']
  | closure =>
      cases left <;> simp [Holds] at holds
      cases right <;> simp [Holds] at holds'
      simp [holds, holds']

theorem text_decides {left right : Nat} {text other : String}
    (emitted : Emitted engine program shapes at_) (pages : memory.pages ≤ engine.ceiling)
    (needed : needsText program shapes = true) (first : StringAt memory left text)
    (second : StringAt memory right other) :
    Decides engine memory (.call at_.sameText) left right
      (Datum.text text = .text other) := by
  rcases emitted.text needed with ⟨typeIndex, placed⟩
  have same : (Datum.text text = .text other) = (text = other) := Datum.text.injEq ..
  rw [same]
  apply decides_of_answers placed rfl
  have answers : Answers engine ⟨fun _ => 0, fun _ => 0⟩ .sameText memory
      [word64 left, word64 right]
      (fun after value => after = memory ∧ value = boolean (text = other))
      (fun _ => False) := sameText_answers first second pages
  refine Runs.mono answers ?_
  rintro (machine | ⟨depth, machine⟩ | machine | trap) answered
  · exact answered
  · exact answered
  · rcases answered with ⟨value, rest, stack, kept, rfl⟩
    refine ⟨_, rest, stack, kept, ?_⟩
    by_cases alike : text = other
    · exact Or.inl ⟨alike, by rw [boolean, if_pos alike]; rfl⟩
    · exact Or.inr ⟨alike, by rw [boolean, if_neg alike]; rfl⟩
  · exact answered

/-- By induction on the value: whatever two words of one type hold, something decides
whether it is the same. -/
theorem compared (emitted : Emitted engine program shapes at_)
    (pages : memory.pages ≤ engine.ceiling)
    (closed : ∀ ty ∈ shapes, ∀ held ∈ heldBy program ty, walked held = true → held ∈ shapes)
    (left : Datum) : Compared engine program shapes at_ memory left := by
  have size := size_small pages
  induction left using Datum.induct with
  | step left each =>
      intro right ty word other available holds holds'
      rcases compares_available emitted available with ⟨compare, found⟩
      refine ⟨compare, found, ?_⟩
      rw [compares] at found
      by_cases text : ty = .str
      · rw [if_pos text] at found
        cases found
        rw [text] at holds holds'
        rcases holds.ofText with ⟨first, rfl, a, rfl, string⟩
        rcases holds'.ofText with ⟨second, rfl, b, rfl, string'⟩
        exact text_decides emitted pages (available.2 text) string string'
      · rw [if_neg text] at found
        cases walks : walked ty with
        | true =>
            rw [if_pos walks] at found
            have present := available.1 walks
            rcases walked_call emitted present with ⟨index, typeIndex, called, placed⟩
            rw [called] at found
            cases found
            apply decides_of_answers placed rfl
            exact runs_compile emitted size (available_held closed present) walks each holds
              holds'
        | false =>
            rw [if_neg (by rw [walks]; exact Bool.false_ne_true)] at found
            cases found
            exact decides_words (holds.fits size) (holds'.fits size)
              (words_stand walks text holds holds')

/-! ## What a comparison calls -/

/-- A function among those that are emitted: the comparison of a shape, or the text helper
where a shape needs it. -/
def Among (program : Program) (shapes : List Ty) (at_ : Where) (index : UInt32) : Prop :=
  (∃ entry ∈ at_.equals, entry.2 = index) ∨
    (index = at_.sameText ∧ needsText program shapes = true)

theorem among_of_compares {ty : Ty} {compare : Ins} {index : UInt32}
    (available : Available program shapes ty) (found : compares ty at_ = some compare)
    (called : index ∈ callsOf compare) : Among program shapes at_ index := by
  rw [compares] at found
  by_cases text : ty = .str
  · rw [if_pos text] at found
    cases found
    exact Or.inr ⟨List.mem_singleton.1 called, available.2 text⟩
  · rw [if_neg text] at found
    by_cases walks : walked ty = true
    · rw [if_pos walks] at found
      rcases mem_of_callOf found with ⟨entry, listed, rfl⟩
      exact Or.inl ⟨entry, listed, (List.mem_singleton.1 called).symm⟩
    · rw [if_neg walks] at found
      cases found
      exact absurd called List.not_mem_nil

theorem calls_unless (test : List Ins) : calls (unless_ test) = calls test := by
  simp [unless_, calls, callsOf]

theorem calls_fields {tagged : Bool} {declared : List Field} {position : Nat}
    {index : UInt32} (available : ∀ one ∈ declared, Available program shapes one.ty)
    (called : index ∈ calls (fields tagged at_ declared position)) :
    Among program shapes at_ index := by
  induction declared generalizing position with
  | nil => exact absurd called List.not_mem_nil
  | cons one declared ih =>
      rw [fields, calls_append, List.mem_append] at called
      rcases called with here | later
      · rw [field] at here
        cases found : compares one.ty at_ with
        | none =>
            rw [found] at here
            exact absurd here (by simp [calls, callsOf])
        | some compare =>
            rw [found] at here
            dsimp only at here
            rw [calls_unless] at here
            have inside : index ∈ callsOf compare := by
              simpa [both, calls, callsOf] using here
            exact among_of_compares (available one List.mem_cons_self) found inside
      · exact ih (fun one present => available one (List.mem_cons_of_mem _ present)) later

theorem calls_compile {ty : Ty} {index : UInt32}
    (available : ∀ held ∈ heldBy program ty, Available program shapes held)
    (called : index ∈ calls (compile program ty at_).2) : Among program shapes at_ index := by
  cases ty with
  | aggregate id =>
      simp only [compile, aggregate, seq_cons, seq_nil, List.append_nil, calls_append,
        List.mem_append] at called
      rcases called with narrow | heads | inside | last
      · exact absurd narrow (by simp [narrowed, calls, callsOf])
      · cases tagged : (program.layout id).isTagged with
        | true =>
            rw [if_pos tagged, calls_unless] at heads
            exact absurd heads (by simp [both, calls, callsOf])
        | false =>
            rw [tagged] at heads
            exact absurd heads List.not_mem_nil
      · rcases calls_arms inside with ⟨body, present, here⟩
        rcases List.mem_map.1 present with ⟨variant, declared, rfl⟩
        refine calls_fields (fun one listed => ?_) here
        exact available one.ty
          (List.mem_flatMap.2 ⟨variant, declared, List.mem_map_of_mem listed⟩)
      · exact absurd last (by simp [calls, callsOf])
  | list element =>
      rw [compile, list] at called
      by_cases nothing : element = .unit
      · rw [if_pos nothing, calls_append, calls_append, calls_unless] at called
        exact absurd called (by simp [narrowed, both, calls, callsOf])
      · rw [if_neg nothing] at called
        cases found : compares element at_ with
        | none =>
            rw [found] at called
            exact absurd called (by simp [calls, callsOf])
        | some compare =>
            rw [found] at called
            have inside : index ∈ callsOf compare := by
              simpa [walk, countTo, narrowed, both, increment, elementAt, calls, callsOf,
                calls_unless] using called
            exact among_of_compares (available element List.mem_cons_self) found inside
  | unit | bool | int | str | capability | closure =>
      exact absurd called (by simp [compile, calls, callsOf])

/-- Compiled `==` is structural equality.  For every shape of the closure, the function
emitted for it answers `1` exactly where the two values it is given are the same, leaves
the memory as it was, and calls nothing but functions that are emitted. -/
theorem equality_structural (program : Program) (start : List Ty) :
    ∃ shapes, closeOver program start = some shapes ∧ (∀ ty ∈ start, ty ∈ shapes) ∧
      ∀ (engine : Engine) (at_ : Where), Emitted engine program shapes at_ →
        ∀ ty ∈ shapes, walked ty = true →
          (∀ (memory : Memory) (left right : Datum) (word other : Int),
            memory.pages ≤ engine.ceiling →
            Holds program memory left ty word → Holds program memory right ty other →
            Runs engine (compile program ty at_).2
              ⟨memory, [word64 word, word64 other] ++
                (compile program ty at_).1.map Value.zero, []⟩
              (Answered (Tells memory (left = right)) fun _ => False)) ∧
          ∀ index ∈ calls (compile program ty at_).2, Among program shapes at_ index := by
  rcases closeOver_ends program start with ⟨shapes, closes⟩
  rcases closeOver_holds closes with ⟨kept, closed⟩
  refine ⟨shapes, closes, kept, ?_⟩
  intro engine at_ emitted ty present walks
  constructor
  · intro memory left right word other pages holds holds'
    exact runs_compile emitted (size_small pages) (available_held closed present) walks
      (fun inner _ => compared emitted pages closed inner) holds holds'
  · intro index called
    exact calls_compile (available_held closed present) called

/-- A record of a number and a truth value. -/
def point : Program where
  layouts := [⟨"Point", [⟨"Point", [⟨"at", .int⟩, ⟨"seen", .bool⟩]⟩], false⟩]
  effects := []
  functions := []
  counted := by
    intro layout listed
    rw [List.mem_singleton.1 listed]
    exact Nat.one_lt_two_pow (by decide)

/-- Its comparison is the only function there is. -/
def pointWhere : Where := ⟨[(.aggregate 0, 0)], 0⟩

def pointEngine : Engine where
  module := {
    types := [signature]
    imports := []
    funcs := [⟨0, (compile point (.aggregate 0) pointWhere).1,
      (compile point (.aggregate 0) pointWhere).2⟩]
    exports := []
    memoryPages := some 1
    exportedMemory := none
    data := []
    table := []
    names := [] }
  ceiling := 1
  small := by decide

/-- A page of zeros. -/
def zeros : Memory := ⟨Function.const Nat 0, 1, fun _ _ => rfl⟩

theorem read_zeros {address : Nat} (inside : address + 8 ≤ zeros.size) :
    zeros.read address = some 0 := by
  have bytes : zeros.slice address 8 = List.replicate 8 0 := rfl
  have spelled : littleEndian (List.replicate 8 0) = 0 := by decide
  rw [Memory.read, Memory.load, if_pos inside, Memory.word, bytes, spelled]
  rfl

theorem equality_structural_point :
    Runs pointEngine (compile point (.aggregate 0) pointWhere).2
      ⟨zeros, [word64 16, word64 32, word32 0, word32 0], []⟩
      (Answered (Tells zeros
        (Datum.made 0 [.int 0, .bool false] = .made 0 [.int 0, .bool false]))
        fun _ => False) := by
  rcases equality_structural point [.aggregate 0] with ⟨shapes, closes, -, holds⟩
  have same : closeOver point [.aggregate 0] = some [.aggregate 0] := rfl
  have emitted : Emitted pointEngine point [.aggregate 0] pointWhere := by
    refine ⟨rfl, ?_, fun needed => absurd needed Bool.false_ne_true⟩
    intro entry listed
    rw [List.mem_singleton.1 listed]
    exact ⟨0, rfl⟩
  have held : ∀ address : Nat, address ≤ 32 →
      Holds point zeros (.made 0 [.int 0, .bool false]) (.aggregate 0) address := by
    intro address below
    have size : zeros.size = 65536 := rfl
    have small : Fits64 0 := by constructor <;> decide
    have untagged : (point.layout 0).isTagged = false := rfl
    simp only [Holds]
    refine ⟨0, rfl, ⟨"Point", [⟨"at", .int⟩, ⟨"seen", .bool⟩]⟩, rfl, address, rfl, by omega,
      fun tagged => absurd tagged Bool.false_ne_true, ?_⟩
    rw [untagged, if_neg Bool.false_ne_true]
    exact ⟨⟨0, read_zeros (by omega), rfl, rfl, small⟩,
      ⟨0, read_zeros (by rw [WORD_eq]; omega), rfl, rfl⟩, trivial⟩
  rw [Option.some.inj (closes.symm.trans same)] at holds
  exact (holds pointEngine pointWhere emitted (.aggregate 0) List.mem_cons_self rfl).1 zeros
    _ _ 16 32 (Nat.le_refl 1) (held 16 (by decide)) (held 32 (by decide))

end Deed.Codegen.Equality
