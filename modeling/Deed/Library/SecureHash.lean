import Mathlib

/-!
# The secure hash standard

The 256-bit hash of FIPS 180-4, on strings of bits as the standard states it: the
padding is the least number of zeros that fits, the words of a block and the schedule are
families, and the constants are what the standard says that they are, bits of the roots of
the first primes.
-/

noncomputable section

namespace Deed.Library.SecureHash

/-! ## Strings of bits -/

/-- The number that a string of bits spells, its highest bit first. -/
def number (bits : List Bool) : Nat := bits.foldl (fun high bit => 2 * high + bit.toNat) 0

/-- The lowest bits of a number, the highest of them first. -/
def spell (width value : Nat) : List Bool :=
  (List.range width).map fun place => value.testBit (width - 1 - place)

@[simp]
theorem length_spell (width value : Nat) : (spell width value).length = width := by
  rw [spell, List.length_map, List.length_range]

theorem number_concat (bits : List Bool) (bit : Bool) :
    number (bits ++ [bit]) = 2 * number bits + bit.toNat := by
  rw [number, List.foldl_append]
  rfl

theorem number_append (high low : List Bool) :
    number (high ++ low) = number high * 2 ^ low.length + number low := by
  induction low using List.reverseRecOn with
  | nil =>
      rw [List.append_nil, List.length_nil, pow_zero, mul_one]
      rfl
  | append_singleton low bit ih =>
      rw [← List.append_assoc, number_concat, number_concat, ih, List.length_append,
        List.length_singleton]
      ring

theorem spell_append (width more value : Nat) :
    spell (width + more) value = spell width (value / 2 ^ more) ++ spell more value := by
  rw [spell, List.range_add, List.map_append, List.map_map]
  congr 1
  · apply List.map_congr_left
    intro place there
    have below := List.mem_range.mp there
    rw [Nat.testBit_div_two_pow]
    congr 1
    omega
  · apply List.map_congr_left
    intro place there
    show value.testBit (width + more - 1 - (width + place)) = value.testBit (more - 1 - place)
    congr 1
    omega

theorem spell_one (value : Nat) : spell 1 value = [value.testBit 0] := rfl

theorem number_spell (width value : Nat) : number (spell width value) = value % 2 ^ width := by
  induction width generalizing value with
  | zero => rw [pow_zero, Nat.mod_one]; rfl
  | succ width ih =>
      rw [spell_append, number_append, ih, length_spell, spell_one, pow_one, pow_succ',
        Nat.mod_mul]
      have last : number [value.testBit 0] = value % 2 := by
        rw [Nat.testBit_zero]
        rcases Nat.mod_two_eq_zero_or_one value with even | odd
        · rw [even]; rfl
        · rw [odd]; rfl
      rw [last]
      ring

theorem spell_mod (width value : Nat) : spell width (value % 2 ^ width) = spell width value := by
  apply List.map_congr_left
  intro place there
  have below := List.mem_range.mp there
  rw [Nat.testBit_mod_two_pow, decide_eq_true (by omega), Bool.true_and]

/-! ## Words -/

abbrev Word := BitVec 32

/-- The word that a string of 32 bits spells. -/
def word (bits : List Bool) : Word := BitVec.ofNat 32 (number bits)

def rotr (places : Nat) (word : Word) : Word := word.rotateRight places

def shr (places : Nat) (word : Word) : Word := word >>> places

def ch (x y z : Word) : Word := (x &&& y) ^^^ (~~~x &&& z)

def maj (x y z : Word) : Word := (x &&& y) ^^^ (x &&& z) ^^^ (y &&& z)

/-- `Σ₀` -/
def sum0 (x : Word) : Word := rotr 2 x ^^^ rotr 13 x ^^^ rotr 22 x

/-- `Σ₁` -/
def sum1 (x : Word) : Word := rotr 6 x ^^^ rotr 11 x ^^^ rotr 25 x

/-- `σ₀` -/
def sigma0 (x : Word) : Word := rotr 7 x ^^^ rotr 18 x ^^^ shr 3 x

/-- `σ₁` -/
def sigma1 (x : Word) : Word := rotr 17 x ^^^ rotr 19 x ^^^ shr 10 x

/-! ## Constants -/

/-- The first 32 bits of the fractional part of a number. -/
def fraction (value : ℝ) : Word := BitVec.ofNat 32 ⌊Int.fract value * 2 ^ 32⌋₊

/-- A root of a number. -/
def root (degree base : Nat) : ℝ := (base : ℝ) ^ ((degree : ℝ)⁻¹)

theorem floor_rest {value : ℝ} {whole front rest : Nat} (least : (whole : ℝ) ≤ value)
    (most : value < whole + 1) (split : front + rest = whole) : ⌊value - front⌋₊ = rest := by
  have sum : (front : ℝ) + rest = whole := by exact_mod_cast split
  have positive : (0 : ℝ) ≤ rest := Nat.cast_nonneg rest
  rw [Nat.floor_eq_iff (by linarith)]
  constructor
  · linarith
  · linarith

/-- A number whose power is next to a number of bits has the fraction that they spell. -/
theorem fraction_root {degree base whole : Nat} (real : degree ≠ 0)
    (low : whole ^ degree ≤ base * 2 ^ (32 * degree))
    (high : base * 2 ^ (32 * degree) < (whole + 1) ^ degree) :
    fraction (root degree base) = BitVec.ofNat 32 whole := by
  have positive : 0 ≤ root degree base := Real.rpow_nonneg (Nat.cast_nonneg _) _
  have power : root degree base ^ degree = base :=
    Real.rpow_inv_natCast_pow (Nat.cast_nonneg _) real
  have scaled : (root degree base * 2 ^ 32) ^ degree = (base * 2 ^ (32 * degree) : Nat) := by
    rw [mul_pow, power, ← pow_mul]
    push_cast
    rfl
  have least : (whole : ℝ) ≤ root degree base * 2 ^ 32 := by
    apply le_of_pow_le_pow_left₀ real (by positivity)
    rw [scaled]
    exact_mod_cast low
  have most : root degree base * 2 ^ 32 < whole + 1 := by
    apply lt_of_pow_lt_pow_left₀ degree (by positivity)
    rw [scaled]
    exact_mod_cast high
  have floor : ⌊root degree base⌋₊ = whole / 2 ^ 32 := by
    rw [Nat.floor_eq_iff positive]
    have split := Nat.div_add_mod whole (2 ^ 32)
    have rest := Nat.mod_lt whole (y := 2 ^ 32) (by positivity)
    constructor
    · have bound : ((2 ^ 32 * (whole / 2 ^ 32) : Nat) : ℝ) ≤ whole := by
        exact_mod_cast (by omega : 2 ^ 32 * (whole / 2 ^ 32) ≤ whole)
      push_cast at bound
      nlinarith
    · have bound : ((whole + 1 : Nat) : ℝ) ≤ (2 ^ 32 * (whole / 2 ^ 32 + 1) : Nat) := by
        exact_mod_cast (by omega : whole + 1 ≤ 2 ^ 32 * (whole / 2 ^ 32 + 1))
      push_cast at bound
      nlinarith
  have part : Int.fract (root degree base) * 2 ^ 32 =
      root degree base * 2 ^ 32 - (2 ^ 32 * (whole / 2 ^ 32) : Nat) := by
    rw [← Int.self_sub_floor, ← natCast_floor_eq_intCast_floor positive, floor]
    push_cast
    ring
  have cut := floor_rest least most (Nat.div_add_mod whole (2 ^ 32))
  rw [← part] at cut
  rw [fraction, cut]
  apply BitVec.eq_of_toNat_eq
  rw [BitVec.toNat_ofNat, BitVec.toNat_ofNat, Nat.mod_mod]

/-- The constants of the rounds: cube roots of the first primes. -/
def K (round : Nat) : Word := fraction (root 3 (Nat.nth Nat.Prime round))

/-- What the hash begins with: square roots of the first primes. -/
def start (register : Nat) : Word := fraction (root 2 (Nat.nth Nat.Prime register))

/-- The numbers below a bound that a property holds of, in order, are the first of them. -/
theorem nth_of_filter {holds : Nat → Prop} [DecidablePred holds] (bound : Nat)
    {index value : Nat}
    (found : ((List.range bound).filter (holds ·))[index]? = some value) :
    Nat.nth holds index = value := by
  induction bound with
  | zero => cases found
  | succ bound ih =>
      rw [List.range_succ, List.filter_append, List.getElem?_append] at found
      split at found
      · exact ih found
      · next past =>
          have one : holds bound ∧ index = ((List.range bound).filter (holds ·)).length ∧
              bound = value := by
            by_cases here : holds bound
            · rw [List.filter_singleton, decide_eq_true here] at found
              rcases List.getElem?_eq_some_iff.mp found with ⟨within, same⟩
              have within := List.length_singleton ▸ within
              refine ⟨here, by omega, ?_⟩
              rw [← same]
              exact (List.getElem_singleton within).symm
            · rw [List.filter_singleton, decide_eq_false here] at found
              cases found
          rcases one with ⟨here, rfl, rfl⟩
          rw [← List.countP_eq_length_filter]
          exact Nat.nth_count here

/-- Whether nothing from 2 to 17 that is less than a number divides it. -/
def sieve (value : Nat) : Bool :=
  2 ≤ value && (List.range 16).all fun less => value ≤ less + 2 || value % (less + 2) != 0

theorem prime_iff_sieve {value : Nat} (small : value < 324) :
    value.Prime ↔ sieve value = true := by
  have root : Nat.sqrt value < 18 := Nat.sqrt_lt.mpr small
  rw [sieve, Bool.and_eq_true, decide_eq_true_iff, List.all_eq_true]
  constructor
  · intro prime
    refine ⟨prime.two_le, fun less _ => ?_⟩
    rw [Bool.or_eq_true, decide_eq_true_iff, bne_iff_ne]
    by_cases past : value ≤ less + 2
    · exact Or.inl past
    · right
      intro divides
      rcases (Nat.dvd_prime prime).mp (Nat.dvd_of_mod_eq_zero divides) with one | all
      · omega
      · omega
  · intro ⟨two, all⟩
    rw [Nat.prime_def_le_sqrt]
    refine ⟨two, fun divisor two' least divides => ?_⟩
    have below : divisor < value := by
      have square := Nat.le_sqrt.mp least
      nlinarith
    have kept := all (divisor - 2) (List.mem_range.mpr (by omega))
    rw [Bool.or_eq_true, decide_eq_true_iff, bne_iff_ne, Nat.sub_add_cancel two'] at kept
    rcases kept with past | rest
    · omega
    · exact rest (Nat.mod_eq_zero_of_dvd divides)

/-- The first 64 primes. -/
def primes : List Nat :=
  [2, 3, 5, 7, 11, 13, 17, 19, 23, 29, 31, 37, 41, 43, 47, 53, 59, 61, 67, 71, 73, 79, 83, 89,
    97, 101, 103, 107, 109, 113, 127, 131, 137, 139, 149, 151, 157, 163, 167, 173, 179, 181,
    191, 193, 197, 199, 211, 223, 227, 229, 233, 239, 241, 251, 257, 263, 269, 271, 277, 281,
    283, 293, 307, 311]

theorem primes_sieved : (List.range 312).filter sieve = primes := by
  decide

theorem nth_prime {index prime : Nat} (found : primes[index]? = some prime) :
    Nat.nth Nat.Prime index = prime := by
  have sieved : (List.range 312).filter (Nat.Prime ·) = (List.range 312).filter sieve := by
    apply List.filter_congr
    intro value there
    have small := List.mem_range.mp there
    rw [Bool.eq_iff_iff, decide_eq_true_iff]
    exact prime_iff_sieve (by omega)
  apply nth_of_filter 312
  rw [sieved, primes_sieved]
  exact found

/-! ## Blocks -/

/-- The eight words of a hash, and the working variables of a block. -/
@[ext]
structure Registers where
  a : Word
  b : Word
  c : Word
  d : Word
  e : Word
  f : Word
  g : Word
  h : Word

namespace Registers

/-- The sum of two, word by word. -/
def sum (left right : Registers) : Registers :=
  ⟨left.a + right.a, left.b + right.b, left.c + right.c, left.d + right.d, left.e + right.e,
    left.f + right.f, left.g + right.g, left.h + right.h⟩

theorem sum_comm (left right : Registers) : left.sum right = right.sum left := by
  apply Registers.ext
  all_goals exact BitVec.add_comm _ _

def bits (words : Registers) : List Bool :=
  [words.a, words.b, words.c, words.d, words.e, words.f, words.g, words.h].flatMap
    fun word => spell 32 word.toNat

end Registers

/-- The message schedule: the words of the block, and each later one from four before it. -/
def schedule (block : Nat → Word) (t : Nat) : Word :=
  if t < 16 then block t
  else
    sigma1 (schedule block (t - 2)) + schedule block (t - 7) + sigma0 (schedule block (t - 15)) +
      schedule block (t - 16)
termination_by t
decreasing_by all_goals omega

/-- The round of a constant and a word of the schedule. -/
def round (constant scheduled : Word) (words : Registers) : Registers :=
  let t1 := words.h + sum1 words.e + ch words.e words.f words.g + constant + scheduled
  let t2 := sum0 words.a + maj words.a words.b words.c
  ⟨t1 + t2, words.a, words.b, words.c, words.d + t1, words.e, words.f, words.g⟩

/-- The working variables after some rounds of a block. -/
def rounds (block : Nat → Word) (hash : Registers) : Nat → Registers
  | 0 => hash
  | t + 1 => round (K t) (schedule block t) (rounds block hash t)

/-- What a block makes of the hash before it. -/
def compress (hash : Registers) (block : Nat → Word) : Registers :=
  (rounds block hash 64).sum hash

/-! ## Messages -/

/-- The least number of zeros after which a message and its one bit lack 64 bits of a block. -/
def zeros (length : Nat) : Nat := sInf {zeros | (length + 1 + zeros) % 512 = 448}

/-- The message padded to whole blocks. -/
def pad (message : List Bool) : List Bool :=
  message ++ [true] ++ List.replicate (zeros message.length) false ++ spell 64 message.length

/-- A block of a padded message, as sixteen words. -/
def block (padded : List Bool) (index : Nat) (word : Nat) : Word :=
  SecureHash.word ((padded.drop (512 * index + 32 * word)).take 32)

/-- The hash of the first blocks of a padded message. -/
def hash (padded : List Bool) : Nat → Registers
  | 0 => ⟨start 0, start 1, start 2, start 3, start 4, start 5, start 6, start 7⟩
  | index + 1 => compress (hash padded index) (block padded index)

/-- The digest of a message. -/
def digest (message : List Bool) : List Bool :=
  (hash (pad message) ((pad message).length / 512)).bits

/-! ## Hexadecimal -/

/-- The digits of four bits, the small letters after the digits. -/
def hexadecimals : List Char :=
  ['0', '1', '2', '3', '4', '5', '6', '7', '8', '9', 'a', 'b', 'c', 'd', 'e', 'f']

/-- A string of bits as lowercase hexadecimal digits, four bits each. -/
def hexadecimal (bits : List Bool) : String :=
  String.ofList <| (List.range (bits.length / 4)).map fun index =>
    hexadecimals.getD (number ((bits.drop (4 * index)).take 4)) '0'

theorem hexadecimal_append {front : List Bool} (four : front.length = 4) (rest : List Bool) :
    (hexadecimal (front ++ rest)).toList =
      hexadecimals.getD (number front) '0' :: (hexadecimal rest).toList := by
  have count : (front ++ rest).length / 4 = rest.length / 4 + 1 := by
    rw [List.length_append, four]
    omega
  rw [hexadecimal, hexadecimal, String.toList_ofList, String.toList_ofList, count,
    List.range_succ_eq_map, List.map_cons, List.map_map, Nat.mul_zero, List.drop_zero, ← four,
    List.take_left]
  congr 1
  apply List.map_congr_left
  intro index _
  show hexadecimals.getD (number (List.take _ (List.drop (front.length * (index + 1)) _))) '0' = _
  rw [Nat.mul_succ, Nat.add_comm, List.drop_length_add_append]

theorem zeros_eq {length zeros : Nat} (fits : (length + 1 + zeros) % 512 = 448)
    (least : zeros < 512) : SecureHash.zeros length = zeros := by
  have there : zeros ∈ {zeros | (length + 1 + zeros) % 512 = 448} := fits
  apply le_antisymm
  · exact Nat.sInf_le there
  · have found : (length + 1 + SecureHash.zeros length) % 512 = 448 := Nat.sInf_mem ⟨_, there⟩
    omega

end Deed.Library.SecureHash

end
