import Deed.Stdlib.HashMap

/-!
# The shipped hash map is a finite map

Every operation keeps each key in the one bucket its hash gives, at most once, and answers
what the finite map answers that the same operations build.
-/

namespace Deed.Stdlib.HashMap

open Table (Entry)

variable {K V : Type*} {hash : K → Int64}

/-! ## Places -/

/-- A remainder below zero is one turn below the one that is not. -/
theorem tmod_cases (number : Int) : number.tmod 64 = number % 64 ∨
    number % 64 ≠ 0 ∧ number.tmod 64 = number % 64 - 64 := by
  rw [Int.tmod_eq_emod]
  split
  · exact .inl (Int.sub_zero _)
  · next below =>
      refine .inr ⟨?_, rfl⟩
      omega

theorem toInt_bucketOf (key : K) : (bucketOf hash key).toInt = (hash key).toInt % 64 := by
  have spread : (hash key % buckets).toInt = (hash key).toInt.tmod 64 := Int64.toInt_mod _ _
  have sign : hash key % buckets < 0 ↔ (hash key).toInt.tmod 64 < 0 := by
    rw [Int64.lt_iff_toInt_lt, spread]
    rfl
  have turn := tmod_cases (hash key).toInt
  rw [bucketOf]
  by_cases below : hash key % buckets < 0
  · rw [sign] at below
    rw [if_pos (sign.mpr below), Int64.toInt_add, spread, show buckets.toInt = 64 from rfl,
      Int.bmod_eq_of_le (by omega) (by omega)]
    omega
  · rw [sign] at below
    rw [if_neg (mt sign.mp below), spread]
    omega

/-- The arithmetic of `bucketOf` stops nowhere. -/
theorem bucketOf_checked (key : K) :
    ((remainder (hash key) buckets).bind fun spread =>
      if spread < 0 then plus spread buckets else some spread) = some (bucketOf hash key) := by
  have spread : (hash key % buckets).toInt = (hash key).toInt.tmod 64 := Int64.toInt_mod _ _
  have answer : remainder (hash key) buckets = some (hash key % buckets) := by
    rw [remainder, if_neg, checked_eq_some]
    · exact spread
    · rintro (zero | ⟨-, minus⟩)
      · exact absurd zero (by decide)
      · exact absurd minus (by decide)
  have turn := tmod_cases (hash key).toInt
  rw [answer, Option.bind_some, bucketOf]
  split
  · rw [plus, checked_eq_some, Int64.toInt_add, spread, show buckets.toInt = 64 from rfl,
      Int.bmod_eq_of_le (by omega) (by omega)]
  · rfl

/-- The place of a key's bucket in the list. -/
def place (hash : K → Int64) (key : K) : Nat := (bucketOf hash key).toInt.toNat

theorem bucketOf_range (key : K) :
    0 ≤ (bucketOf hash key).toInt ∧ (bucketOf hash key).toInt < 64 := by
  rw [toInt_bucketOf]
  omega

theorem place_lt (key : K) : place hash key < 64 := by
  have range := @bucketOf_range K hash key
  rw [place]
  omega

/-- An index names the bucket of a key where it is the key's place. -/
theorem ofNat_eq_bucketOf {index : Nat} (inside : index < 64) (key : K) :
    Int64.ofNat index = bucketOf hash key ↔ index = place hash key := by
  have range := @bucketOf_range K hash key
  have value : (Int64.ofNat index).toInt = index := Int64.toInt_ofNat_of_lt (by omega)
  rw [← Int64.toInt_inj, value, place]
  omega

variable {map : Buckets K V} {key : K} {value : V}

theorem bucketAt_ofNat {index : Nat} (inside : index < 64) :
    bucketAt map (Int64.ofNat index) = map[index]?.getD [] := by
  have value : (Int64.ofNat index).toInt = index := Int64.toInt_ofNat_of_lt (by omega)
  have positive : 0 ≤ Int64.ofNat index := by
    rw [Int64.le_iff_toInt_le, value]
    exact Int.natCast_nonneg index
  rw [bucketAt, elementAt, if_pos positive, value, Int.toNat_natCast]
  cases map[index]? <;> rfl

theorem bucketAt_bucketOf (key : K) :
    bucketAt map (bucketOf hash key) = map[place hash key]?.getD [] := by
  rw [← (ofNat_eq_bucketOf (place_lt key) key).mpr rfl, bucketAt_ofNat (place_lt key)]

/-! ## What a bucket holds -/

variable {m : K → Option V}

/-- A map whose buckets hold what a finite map does: each key is in its own bucket, at most
once. -/
structure Represents (hash : K → Int64) (map : Buckets K V) (m : K → Option V) : Prop where
  length : map.length = 64
  placed : ∀ index bucket, map[index]? = some bucket →
    ∀ entry ∈ bucket, place hash entry.key = index
  once : ∀ bucket ∈ map, (bucket.map Entry.key).Nodup
  holds : ∀ key value, m key = some value ↔ ⟨key, value⟩ ∈ map[place hash key]?.getD []

theorem empty_represents (key : K) (value : V) :
    Represents hash (empty key value) fun _ => none where
  length := List.length_replicate
  placed := by
    intro index bucket found entry mem
    have none : bucket = [] := (List.mem_replicate.mp (List.mem_of_getElem? found)).2
    rw [none] at mem
    cases mem
  once := by
    intro bucket mem
    have none : bucket = [] := (List.mem_replicate.mp mem).2
    rw [none]
    exact List.nodup_nil
  holds := by
    intro key value
    rw [empty, repeated, List.getElem?_replicate]
    split_ifs
    · exact iff_of_false (by simp) (by rw [Option.getD_some]; exact List.not_mem_nil)
    · exact iff_of_false (by simp) (by rw [Option.getD_none]; exact List.not_mem_nil)

/-- A bucket of the map holds what the finite map does. -/
theorem Represents.holds_any (represents : Represents hash map m) :
    m key = some value ↔ ∃ bucket ∈ map, ⟨key, value⟩ ∈ bucket := by
  have inside : place hash key < map.length := by
    rw [represents.length]
    exact place_lt key
  rw [represents.holds, List.getElem?_eq_getElem inside, Option.getD_some]
  constructor
  · intro entry
    exact ⟨_, List.getElem_mem inside, entry⟩
  · rintro ⟨bucket, mem, entry⟩
    obtain ⟨index, found⟩ := List.mem_iff_getElem?.mp mem
    have here := represents.placed index bucket found _ entry
    rw [← here, List.getElem?_eq_getElem inside, Option.some_inj] at found
    rw [found]
    exact entry

/-! ## Listing -/

theorem entries_eq (map : Buckets K V) : entries map = map.flatten := by
  have turn : (fun (out : List (Entry K V)) (slot : List (Entry K V)) =>
      slot.foldl (fun inner one => push inner one) out) = fun out slot => out ++ slot := by
    funext out slot
    rw [foldl_push, List.map_id']
  rw [entries, turn, List.foldl_append_eq_append, List.nil_append, List.map_id']

theorem keys_eq (map : Buckets K V) : keys map = map.flatten.map Entry.key := by
  rw [keys, entries_eq, foldl_push, List.nil_append]

theorem values_eq (map : Buckets K V) : values map = map.flatten.map Entry.value := by
  rw [values, entries_eq, foldl_push, List.nil_append]

theorem size_walk (countable : ∀ slot ∈ map, slot.length < 2 ^ 63) {start : Int64} {number : Nat}
    (started : start.toInt = number) :
    map.foldlM (fun total slot => plus total (length slot)) start =
      checked ((number + map.flatten.length : Nat) : Int) := by
  induction map generalizing start number with
  | nil => exact (checked_eq_some.mpr started).symm
  | cons slot map ih =>
      have small := countable slot (List.mem_cons_self ..)
      have count : (length slot).toInt = slot.length := Int64.toInt_ofNat_of_lt small
      have sum : plus start (length slot) = checked ((number + slot.length : Nat) : Int) := by
        rw [plus, started, count, Nat.cast_add]
      rw [List.foldlM_cons, sum, List.flatten_cons, List.length_append, ← Nat.add_assoc]
      cases answer : checked ((number + slot.length : Nat) : Int) with
      | some total =>
          exact ih (fun slot mem => countable slot (List.mem_cons_of_mem _ mem))
            (checked_eq_some.mp answer)
      | none =>
          rw [checked_eq_none] at answer
          have over_ : ¬Wasm.Fits64 ((number + slot.length + map.flatten.length : Nat) : Int) := by
            unfold Wasm.Fits64 at answer ⊢
            omega
          rw [checked_eq_none.mpr over_]
          rfl

/-- The count stops where no `Int` holds it, if every bucket can be counted. -/
theorem size_eq (countable : ∀ slot ∈ map, slot.length < 2 ^ 63) :
    size map = checked map.flatten.length := by
  rw [size, size_walk countable (show (0 : Int64).toInt = (0 : Nat) from rfl), Nat.zero_add]

namespace Represents

theorem mem_flatten (represents : Represents hash map m) {entry : Entry K V} :
    entry ∈ map.flatten ↔ m entry.key = some entry.value := by
  rw [represents.holds_any, List.mem_flatten]

/-- No key is in the map twice. -/
theorem keys_nodup (represents : Represents hash map m) :
    (map.flatten.map Entry.key).Nodup := by
  rw [List.map_flatten, List.nodup_flatten]
  constructor
  · intro keys mem
    obtain ⟨bucket, inside, rfl⟩ := List.mem_map.mp mem
    exact represents.once bucket inside
  · rw [List.pairwise_map, List.pairwise_iff_getElem]
    intro first second inside inside' less key mem mem'
    obtain ⟨one, has, rfl⟩ := List.mem_map.mp mem
    obtain ⟨other, has', same⟩ := List.mem_map.mp mem'
    have here := represents.placed first _ (List.getElem?_eq_getElem inside) one has
    have there := represents.placed second _ (List.getElem?_eq_getElem inside') other has'
    rw [same] at there
    omega

/-- The keys are those the finite map holds. -/
theorem mem_keys (represents : Represents hash map m) :
    key ∈ keys map ↔ (m key).isSome := by
  rw [keys_eq, List.mem_map, Option.isSome_iff_exists]
  constructor
  · rintro ⟨one, mem, rfl⟩
    exact ⟨one.value, represents.mem_flatten.mp mem⟩
  · rintro ⟨value, found⟩
    exact ⟨⟨key, value⟩, represents.mem_flatten.mpr found, rfl⟩

/-- The keys and the values are in step. -/
theorem keys_values (represents : Represents hash map m) :
    List.Forall₂ (fun key value => m key = some value) (keys map) (values map) := by
  rw [keys_eq, values_eq, List.forall₂_map_left_iff, List.forall₂_map_right_iff,
    List.forall₂_same]
  intro entry mem
  exact represents.mem_flatten.mp mem

/-- There are as many entries as keys that the finite map holds. -/
theorem length_flatten (represents : Represents hash map m) :
    map.flatten.length = {key | (m key).isSome}.ncard := by
  classical
  have whole : {key | (m key).isSome} = ((keys map).toFinset : Set K) := by
    rw [List.coe_toFinset]
    ext key
    exact represents.mem_keys.symm
  have nodup : (keys map).Nodup := by
    rw [keys_eq]
    exact represents.keys_nodup
  rw [whole, Set.ncard_coe_finset, List.toFinset_card_of_nodup nodup, keys_eq, List.length_map]

end Represents

/-! ## Lookups -/

variable [DecidableEq K]

/-- A walk for a key answers with the last entry that has it. -/
theorem found_walk (bucket : List (Entry K V)) (key : K) (start : Except String V) :
    bucket.foldl (fun found one => if one.key = key then .ok one.value else found) start =
      (bucket.reverse.find? fun one => one.key = key).elim start fun one => .ok one.value := by
  induction bucket using List.reverseRecOn with
  | nil => rfl
  | append_singleton bucket last ih =>
      rw [List.foldl_append, ih, List.reverse_append]
      show (if last.key = key then _ else _) = (List.find? _ (last :: bucket.reverse)).elim _ _
      rw [List.find?_cons]
      by_cases same : last.key = key
      · rw [if_pos same, decide_eq_true same]
        rfl
      · rw [if_neg same, decide_eq_false same]

/-- What is under a key is what the finite map holds. -/
theorem Represents.get (represents : Represents hash map m) (key : K) :
    get hash map key = (m key).elim (.error "no such key") .ok := by
  rw [HashMap.get, bucketAt_bucketOf, found_walk]
  cases found : (map[place hash key]?.getD []).reverse.find? fun one => one.key = key with
  | none =>
      have absent : m key = none := by
        rw [Option.eq_none_iff_forall_ne_some]
        intro value there
        have mem := (represents.holds key value).mp there
        rw [List.find?_eq_none] at found
        exact found _ (List.mem_reverse.mpr mem) (decide_eq_true rfl)
      rw [absent]
      rfl
  | some one =>
      have same := List.find?_some found
      rw [decide_eq_true_eq] at same
      have there : m key = some one.value := by
        rw [represents.holds]
        have mem := List.mem_reverse.mp (List.mem_of_find?_eq_some found)
        rw [← same] at mem ⊢
        exact mem
      rw [there]
      rfl

theorem Represents.had (represents : Represents hash map m) (key : K) :
    HashMap.holds hash map key = (m key).isSome := by
  have answer := represents.get key
  unfold HashMap.holds
  cases found : m key with
  | none =>
      rw [found, Option.elim_none] at answer
      simp only [answer, Option.isSome_none]
  | some value =>
      rw [found, Option.elim_some] at answer
      simp only [answer, Option.isSome_some]

theorem Represents.orElse (represents : Represents hash map m) (key : K) (fallback : V) :
    HashMap.orElse hash map key fallback = (m key).getD fallback := by
  have answer := represents.get key
  unfold HashMap.orElse
  cases found : m key with
  | none =>
      rw [found, Option.elim_none] at answer
      simp only [answer, Option.getD_none]
  | some value =>
      rw [found, Option.elim_some] at answer
      simp only [answer, Option.getD_some]

/-! ## Writing -/

/-- A bucket that has the key gets the value in its place, and one that has not gets it
behind the others. -/
theorem written_eq (bucket : List (Entry K V)) (key : K) (value : V) (had : Bool) :
    written bucket key value had =
      if had then bucket.map fun one => if one.key = key then ⟨key, value⟩ else one
      else bucket ++ [⟨key, value⟩] := by
  have turn : (fun (out : List (Entry K V)) (one : Entry K V) =>
      if one.key = key then push out ⟨key, value⟩ else push out one) =
      fun out one => push out (if one.key = key then ⟨key, value⟩ else one) := by
    funext out one
    split_ifs <;> rfl
  rw [written, turn, foldl_push, List.nil_append]
  rfl

/-- `set` rewrites the bucket of its key and keeps the others. -/
theorem set_eq (length : map.length = 64) :
    set hash map key value =
      map.modify (place hash key) fun bucket =>
        written bucket key value (holds hash map key) := by
  have turn : (fun (out : Buckets K V) slot =>
      if slot = bucketOf hash key then
        push out (written (bucketAt map slot) key value (holds hash map key))
      else push out (bucketAt map slot)) =
      fun out slot => push out (if slot = bucketOf hash key then
        written (bucketAt map slot) key value (holds hash map key) else bucketAt map slot) := by
    funext out slot
    split_ifs <;> rfl
  rw [set]
  rw [turn, foldl_push, List.nil_append, range_eq, List.map_map]
  apply List.ext_getElem
  · rw [List.length_map, List.length_range, List.length_modify, length]
    rfl
  · intro index inside inside'
    rw [List.length_modify, length] at inside'
    have found : map[index]?.getD [] = map[index] := by
      rw [List.getElem?_eq_getElem (by omega), Option.getD_some]
    rw [List.getElem_map, List.getElem_range, List.getElem_modify, Function.comp_apply,
      bucketAt_ofNat inside', found]
    by_cases same : index = place hash key
    · rw [if_pos ((ofNat_eq_bucketOf inside' key).mpr same), if_pos same.symm]
    · rw [if_neg (mt (ofNat_eq_bucketOf inside' key).mp same), if_neg (Ne.symm same)]

/-- A written bucket holds the new entry and the ones of other keys. -/
theorem mem_written {bucket : List (Entry K V)} {had : Bool} {entry : Entry K V}
    (has : had = true ↔ ∃ one ∈ bucket, one.key = key) :
    entry ∈ written bucket key value had ↔
      entry = ⟨key, value⟩ ∨ entry.key ≠ key ∧ entry ∈ bucket := by
  rw [written_eq]
  by_cases there : had = true
  · obtain ⟨one, mem, same⟩ := has.mp there
    rw [if_pos there, List.mem_map]
    constructor
    · rintro ⟨other, mem, rfl⟩
      split_ifs with same
      · exact .inl rfl
      · exact .inr ⟨same, mem⟩
    · rintro (rfl | ⟨different, mem⟩)
      · exact ⟨one, mem, if_pos same⟩
      · exact ⟨entry, mem, if_neg different⟩
  · rw [if_neg there, List.mem_append, List.mem_singleton, or_comm]
    refine or_congr_right ⟨?_, And.right⟩
    intro mem
    exact ⟨fun same => there (has.mpr ⟨entry, mem, same⟩), mem⟩

theorem written_once {bucket : List (Entry K V)} {had : Bool}
    (has : had = true ↔ ∃ one ∈ bucket, one.key = key)
    (once : (bucket.map Entry.key).Nodup) :
    ((written bucket key value had).map Entry.key).Nodup := by
  rw [written_eq]
  by_cases there : had = true
  · have same : (bucket.map fun one => if one.key = key then ⟨key, value⟩ else one).map
        Entry.key = bucket.map Entry.key := by
      rw [List.map_map]
      apply List.map_congr_left
      intro one mem
      rw [Function.comp_apply]
      split_ifs with same
      · exact same.symm
      · rfl
    rwa [if_pos there, same]
  · rw [if_neg there, List.map_append, List.map_singleton, ← List.concat_eq_append,
      List.nodup_concat]
    refine ⟨?_, once⟩
    intro mem
    obtain ⟨one, mem, same⟩ := List.mem_map.mp mem
    exact there (has.mpr ⟨one, mem, same⟩)

/-- Writing a key is what updating the finite map is. -/
theorem Represents.set (represents : Represents hash map m) (key : K) (value : V) :
    Represents hash (HashMap.set hash map key value) (Function.update m key (some value)) := by
  have inside : place hash key < map.length := by
    rw [represents.length]
    exact place_lt key
  have own : map[place hash key]?.getD [] = map[place hash key] := by
    rw [List.getElem?_eq_getElem inside, Option.getD_some]
  have has : HashMap.holds hash map key = true ↔
      ∃ one ∈ map[place hash key], one.key = key := by
    rw [represents.had, Option.isSome_iff_exists]
    constructor
    · rintro ⟨value, found⟩
      rw [represents.holds, own] at found
      exact ⟨_, found, rfl⟩
    · rintro ⟨one, mem, rfl⟩
      exact ⟨one.value, (represents.holds _ _).mpr (own ▸ mem)⟩
  have rewritten : (HashMap.set hash map key value)[place hash key]? =
      some (written map[place hash key] key value (HashMap.holds hash map key)) := by
    rw [set_eq represents.length, List.getElem?_modify_eq, List.getElem?_eq_getElem inside]
    rfl
  have kept {index : Nat} (different : place hash key ≠ index) :
      (HashMap.set hash map key value)[index]? = map[index]? := by
    rw [set_eq represents.length, List.getElem?_modify_ne _ _ different]
  constructor
  · rw [set_eq represents.length, List.length_modify, represents.length]
  · intro index bucket found entry mem
    by_cases same : place hash key = index
    · subst same
      rw [rewritten, Option.some_inj] at found
      rw [← found, mem_written has] at mem
      rcases mem with rfl | ⟨-, mem⟩
      · rfl
      · exact represents.placed _ _ (List.getElem?_eq_getElem inside) entry mem
    · rw [kept same] at found
      exact represents.placed index bucket found entry mem
  · intro bucket mem
    obtain ⟨index, found⟩ := List.mem_iff_getElem?.mp mem
    by_cases same : place hash key = index
    · subst same
      rw [rewritten, Option.some_inj] at found
      rw [← found]
      exact written_once has (represents.once _ (List.getElem_mem inside))
    · rw [kept same] at found
      exact represents.once bucket (List.mem_of_getElem? found)
  · intro other held
    by_cases same : place hash key = place hash other
    · rw [← same, rewritten, Option.getD_some, mem_written has, ← own, same, ← represents.holds]
      by_cases here : other = key
      · subst here
        rw [Function.update_self]
        simp [eq_comm]
      · rw [Function.update_of_ne here]
        simp [here]
    · have elsewhere : other ≠ key := fun here => same (here ▸ rfl)
      rw [kept same, ← represents.holds, Function.update_of_ne elsewhere]

theorem holding_represents (key : K) (value : V) :
    Represents hash (holding hash key value) (Function.update (fun _ => none) key (some value)) :=
  (empty_represents key value).set key value

/-! ## Whole runs -/

/-- The operations that build a map. -/
inductive Ops (K V : Type*)
  | empty (key : K) (value : V)
  | holding (key : K) (value : V)
  | set (map : Ops K V) (key : K) (value : V)

namespace Ops

/-- The map that the operations build. -/
def run (hash : K → Int64) : Ops K V → Buckets K V
  | empty key value => HashMap.empty key value
  | holding key value => HashMap.holding hash key value
  | set map key value => HashMap.set hash (run hash map) key value

/-- The finite map that the same operations build. -/
def meaning : Ops K V → K → Option V
  | empty _ _ => fun _ => none
  | holding key value => Function.update (fun _ => none) key (some value)
  | set map key value => Function.update (meaning map) key (some value)

theorem represents (ops : Ops K V) : Represents hash (ops.run hash) ops.meaning := by
  induction ops with
  | empty key value => exact empty_represents key value
  | holding key value => exact holding_represents key value
  | set map key value ih => exact ih.set key value

end Ops

/-- Each key is only in the bucket its hash gives, and at most once, and there are as many
buckets as there should be. -/
structure WellPlaced (hash : K → Int64) (map : Buckets K V) : Prop where
  length : map.length = buckets.toInt.toNat
  placed : ∀ (index : Nat) (bucket : List (Entry K V)), map[index]? = some bucket →
    ∀ entry ∈ bucket, (bucketOf hash entry.key).toInt = index
  once : (map.flatten.map Entry.key).Nodup

/-- A map answers what a finite map does. -/
structure Answers (hash : K → Int64) (map : Buckets K V) (m : K → Option V) : Prop where
  get : ∀ key, HashMap.get hash map key = (m key).elim (.error "no such key") .ok
  orElse : ∀ key fallback, HashMap.orElse hash map key fallback = (m key).getD fallback
  holds : ∀ key, HashMap.holds hash map key = (m key).isSome
  /-- The count stops where no `Int` holds it; no list is longer than an `Int` can count. -/
  size : (∀ slot ∈ map, slot.length < 2 ^ 63) →
    HashMap.size map = checked ({key | (m key).isSome}.ncard : Nat)
  once : (keys map).Nodup
  listed : ∀ key, key ∈ keys map ↔ (m key).isSome
  values : List.Forall₂ (fun key value => m key = some value) (keys map) (values map)

namespace Represents

theorem wellPlaced (represents : Represents hash map m) : WellPlaced hash map where
  length := represents.length
  placed := by
    intro index bucket found entry mem
    have range := @bucketOf_range K hash entry.key
    rw [← represents.placed index bucket found entry mem, place, Int.toNat_of_nonneg range.1]
  once := represents.keys_nodup

theorem answers (represents : Represents hash map m) : Answers hash map m where
  get := represents.get
  orElse := represents.orElse
  holds := represents.had
  size := by
    intro countable
    rw [size_eq countable, represents.length_flatten]
  once := by
    rw [keys_eq]
    exact represents.keys_nodup
  listed := fun _ => represents.mem_keys
  values := represents.keys_values

end Represents

end Deed.Stdlib.HashMap
