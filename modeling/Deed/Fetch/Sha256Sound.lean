import Deed.Fetch.Cache
import Deed.Library.SecureHash

/-!
# The digest is the standard's

The bytes that `sha256` reads and answers are strings of bits, eight each, and its words are
the standard's: every stage of `crates/deed-fetch/src/sha256.rs` is followed on both sides.
-/

namespace Deed.Fetch

open Deed.Library
open Deed.Library.SecureHash (number spell Registers)

/-! ## Bytes and bits -/

/-- The bits of some bytes, the highest of each first. -/
def bits (bytes : List UInt8) : List Bool := bytes.flatMap fun byte => spell 8 byte.toNat

theorem bits_append (front back : List UInt8) : bits (front ++ back) = bits front ++ bits back :=
  List.flatMap_append

theorem bits_cons (byte : UInt8) (bytes : List UInt8) :
    bits (byte :: bytes) = spell 8 byte.toNat ++ bits bytes :=
  List.flatMap_cons

@[simp]
theorem length_bits (bytes : List UInt8) : (bits bytes).length = 8 * bytes.length := by
  induction bytes with
  | nil => rfl
  | cons byte bytes ih =>
      rw [bits_cons, List.length_append, SecureHash.length_spell, ih, List.length_cons]
      ring

theorem bits_drop (bytes : List UInt8) (count : Nat) :
    bits (bytes.drop count) = (bits bytes).drop (8 * count) := by
  induction bytes generalizing count with
  | nil => rw [List.drop_nil]; exact List.drop_nil.symm
  | cons byte bytes ih =>
      cases count with
      | zero => rfl
      | succ count =>
          have gone : (spell 8 byte.toNat).drop (8 * (count + 1)) = [] := by
            apply List.drop_eq_nil_of_le
            rw [SecureHash.length_spell]
            omega
          rw [List.drop_succ_cons, ih, bits_cons, List.drop_append, SecureHash.length_spell, gone,
            List.nil_append]
          congr 1

theorem bits_take (bytes : List UInt8) (count : Nat) :
    bits (bytes.take count) = (bits bytes).take (8 * count) := by
  have whole := bits_append (bytes.take count) (bytes.drop count)
  rw [List.take_append_drop, bits_drop] at whole
  exact List.append_cancel_right (whole.symm.trans (List.take_append_drop (8 * count) _).symm)

/-! ## Words -/

theorem toNat_fromBeBytes (bytes : List UInt8) :
    (fromBeBytes bytes).toNat = number (bits bytes) % 2 ^ 32 := by
  induction bytes using List.reverseRecOn with
  | nil => rfl
  | append_singleton bytes byte ih =>
      have low : number (bits [byte]) = byte.toNat := by
        rw [bits_cons, bits, List.flatMap_nil, List.append_nil, SecureHash.number_spell]
        exact Nat.mod_eq_of_lt byte.toNat_lt
      have step : fromBeBytes (bytes ++ [byte]) = (fromBeBytes bytes <<< 8) ||| byte.toUInt32 := by
        rw [fromBeBytes, List.foldl_append]
        rfl
      have below := byte.toNat_lt
      rw [step, bits_append, SecureHash.number_append, low, length_bits, UInt32.toNat_or,
        UInt32.toNat_shiftLeft, ih, UInt8.toNat_toUInt32]
      have shifted : (number (bits bytes) % 2 ^ 32) <<< ((8 : UInt32).toNat % 32) % 2 ^ 32 =
          (number (bits bytes) % 2 ^ 24) <<< 8 := by
        have places : (8 : UInt32).toNat % 32 = 8 := by decide
        rw [places, Nat.shiftLeft_eq, Nat.shiftLeft_eq]
        omega
      rw [shifted, ← Nat.shiftLeft_add_eq_or_of_lt (by omega), Nat.shiftLeft_eq,
        List.length_singleton]
      omega

theorem toBitVec_fromBeBytes (bytes : List UInt8) :
    (fromBeBytes bytes).toBitVec = SecureHash.word (bits bytes) := by
  apply BitVec.eq_of_toNat_eq
  rw [SecureHash.word, BitVec.toNat_ofNat, ← toNat_fromBeBytes]
  rfl

/-- A byte of a word spells eight of its bits. -/
theorem spell_byte (value : Nat) (byte : UInt8) (same : byte.toNat = value % 2 ^ 8) :
    spell 8 byte.toNat = spell 8 value := by
  rw [same, SecureHash.spell_mod]

theorem bits_toBeBytes (word : UInt32) : bits (toBeBytes word) = spell 32 word.toNat := by
  have bytes : toBeBytes word = [(word >>> 24).toUInt8, (word >>> 16).toUInt8,
      (word >>> 8).toUInt8, (word >>> 0).toUInt8] := rfl
  have spelled : spell 32 word.toNat = spell 8 (word.toNat / 2 ^ 24) ++
      (spell 8 (word.toNat / 2 ^ 16) ++ (spell 8 (word.toNat / 2 ^ 8) ++
        spell 8 word.toNat)) := by
    rw [SecureHash.spell_append 8 24, SecureHash.spell_append 8 16, SecureHash.spell_append 8 8]
  have byte : ∀ places : UInt32, places.toNat < 32 →
      (word >>> places).toUInt8.toNat = word.toNat / 2 ^ places.toNat % 2 ^ 8 := by
    intro places small
    rw [UInt32.toNat_toUInt8, UInt32.toNat_shiftRight, Nat.mod_eq_of_lt small,
      Nat.shiftRight_eq_div_pow]
  rw [bytes, bits_cons, bits_cons, bits_cons, bits_cons, spelled,
    spell_byte _ _ (byte 24 (by decide)), spell_byte _ _ (byte 16 (by decide)),
    spell_byte _ _ (byte 8 (by decide)), spell_byte _ _ (byte 0 (by decide))]
  show _ ++ (_ ++ (_ ++ (spell 8 (word.toNat / 1) ++ []))) = _
  rw [Nat.div_one, List.append_nil]
  rfl

theorem bits_toBeBytes64 (word : UInt64) : bits (toBeBytes64 word) = spell 64 word.toNat := by
  have bytes : toBeBytes64 word = [(word >>> 56).toUInt8, (word >>> 48).toUInt8,
      (word >>> 40).toUInt8, (word >>> 32).toUInt8, (word >>> 24).toUInt8,
      (word >>> 16).toUInt8, (word >>> 8).toUInt8, (word >>> 0).toUInt8] := rfl
  have spelled : spell 64 word.toNat = spell 8 (word.toNat / 2 ^ 56) ++
      (spell 8 (word.toNat / 2 ^ 48) ++ (spell 8 (word.toNat / 2 ^ 40) ++
        (spell 8 (word.toNat / 2 ^ 32) ++ (spell 8 (word.toNat / 2 ^ 24) ++
          (spell 8 (word.toNat / 2 ^ 16) ++ (spell 8 (word.toNat / 2 ^ 8) ++
            spell 8 word.toNat)))))) := by
    rw [SecureHash.spell_append 8 56, SecureHash.spell_append 8 48, SecureHash.spell_append 8 40,
      SecureHash.spell_append 8 32, SecureHash.spell_append 8 24, SecureHash.spell_append 8 16,
      SecureHash.spell_append 8 8]
  have byte : ∀ places : UInt64, places.toNat < 64 →
      (word >>> places).toUInt8.toNat = word.toNat / 2 ^ places.toNat % 2 ^ 8 := by
    intro places small
    rw [UInt64.toNat_toUInt8, UInt64.toNat_shiftRight, Nat.mod_eq_of_lt small,
      Nat.shiftRight_eq_div_pow]
  rw [bytes, bits_cons, bits_cons, bits_cons, bits_cons, bits_cons, bits_cons, bits_cons,
    bits_cons, spelled, spell_byte _ _ (byte 56 (by decide)), spell_byte _ _ (byte 48 (by decide)),
    spell_byte _ _ (byte 40 (by decide)), spell_byte _ _ (byte 32 (by decide)),
    spell_byte _ _ (byte 24 (by decide)), spell_byte _ _ (byte 16 (by decide)),
    spell_byte _ _ (byte 8 (by decide)), spell_byte _ _ (byte 0 (by decide))]
  show _ ++ (_ ++ (_ ++ (_ ++ (_ ++ (_ ++ (_ ++ (spell 8 (word.toNat / 1) ++ []))))))) = _
  rw [Nat.div_one, List.append_nil]
  rfl

/-! ## Padding -/

theorem bits_zeroes (count : Nat) :
    bits (List.replicate count 0) = List.replicate (8 * count) false := by
  have byte : spell 8 (0 : UInt8).toNat = List.replicate 8 false := by decide
  induction count with
  | zero => rfl
  | succ count ih =>
      rw [List.replicate_succ, bits_cons, ih, byte, List.replicate_append_replicate]
      congr 1
      ring

/-- The byte `0x80` and the zero bytes are the one bit and the least zeros. -/
theorem zeros_zeroes (length : Nat) :
    SecureHash.zeros (8 * length) = 7 + 8 * zeroes (length + 1) := by
  have remainder := Nat.mod_lt (length + 1) (y := 64) (by decide)
  have counted : zeroes (length + 1) =
      if (length + 1) % 64 ≤ 56 then 56 - (length + 1) % 64 else 120 - (length + 1) % 64 := rfl
  apply SecureHash.zeros_eq
  · rw [counted]
    split
    · omega
    · omega
  · rw [counted]
    split
    · omega
    · omega

theorem length_padded (input : List UInt8) : (padded input).length % 64 = 0 := by
  have counted : zeroes (input.length + 1) = if (input.length + 1) % 64 ≤ 56 then
      56 - (input.length + 1) % 64 else 120 - (input.length + 1) % 64 := rfl
  have last : (toBeBytes64 (UInt64.ofNat input.length * 8)).length = 8 := rfl
  rw [padded, List.length_append, List.length_append, List.length_append, List.length_replicate,
    last, List.length_singleton, counted]
  split
  · omega
  · omega

theorem bits_padded {input : List UInt8} (short : input.length < 2 ^ 61) :
    bits (padded input) = SecureHash.pad (bits input) := by
  have count : (UInt64.ofNat input.length * 8).toNat = 8 * input.length := by
    rw [UInt64.toNat_mul, UInt64.toNat_ofNat_of_lt' (by show _ < 2 ^ 64; omega)]
    show input.length * 8 % 2 ^ 64 = _
    omega
  have marker : bits [0x80] = [true] ++ List.replicate 7 false := by decide
  rw [padded, SecureHash.pad, bits_append, bits_append, bits_append, bits_zeroes,
    bits_toBeBytes64, count, marker, length_bits, zeros_zeroes, List.length_append,
    List.length_singleton, ← List.replicate_append_replicate]
  simp only [List.append_assoc]

/-! ## Rounds -/

/-- The words of a hash value as registers. -/
def Words.registers (words : Words) : Registers :=
  ⟨words.a.toBitVec, words.b.toBitVec, words.c.toBitVec, words.d.toBitVec, words.e.toBitVec,
    words.f.toBitVec, words.g.toBitVec, words.h.toBitVec⟩

theorem registers_compressed (words : Words) (constant scheduled : UInt32) :
    (compressed words (constant, scheduled)).registers =
      SecureHash.round constant.toBitVec scheduled.toBitVec words.registers := by
  rfl

/-- Whether a constant is the fraction of a root with some whole part, told by its powers. -/
def bracketed (degree prime : Nat) (constant : UInt32) : Bool :=
  (List.range 18).any fun whole =>
    (whole * 2 ^ 32 + constant.toNat) ^ degree ≤ prime * 2 ^ (32 * degree) &&
      prime * 2 ^ (32 * degree) < (whole * 2 ^ 32 + constant.toNat + 1) ^ degree

theorem fraction_bracketed {degree prime : Nat} {constant : UInt32} (real : degree ≠ 0)
    (root : bracketed degree prime constant = true) :
    SecureHash.fraction (SecureHash.root degree prime) = constant.toBitVec := by
  rcases List.any_eq_true.mp root with ⟨whole, -, both⟩
  rw [Bool.and_eq_true, decide_eq_true_iff, decide_eq_true_iff] at both
  rw [SecureHash.fraction_root real both.1 both.2]
  apply BitVec.eq_of_toNat_eq
  have below : constant.toNat < 2 ^ 32 := constant.toNat_lt
  have kept : constant.toBitVec.toNat = constant.toNat := rfl
  rw [BitVec.toNat_ofNat, kept]
  omega

theorem K_bracketed :
    (SecureHash.primes.zip K).all (fun pair => bracketed 3 pair.1 pair.2) = true := by
  decide

theorem length_K : K.length = 64 := rfl

/-- Every constant of a round is the standard's. -/
theorem toBitVec_K {round : Nat} {constant : UInt32} (there : K[round]? = some constant) :
    SecureHash.K round = constant.toBitVec := by
  have small : round < SecureHash.primes.length := (List.getElem?_eq_some_iff.mp there).1
  have prime := List.getElem?_eq_getElem small
  have pair : (SecureHash.primes.zip K)[round]? = some (SecureHash.primes[round], constant) :=
    List.getElem?_zip_eq_some.mpr ⟨prime, there⟩
  rw [SecureHash.K, SecureHash.nth_prime prime]
  exact fraction_bracketed (by decide)
    (List.all_eq_true.mp K_bracketed _ (List.mem_of_getElem? pair))

theorem registers_initial (padded : List Bool) :
    initial.registers = SecureHash.hash padded 0 := by
  have root : ∀ {register prime : Nat} (constant : UInt32),
      SecureHash.primes[register]? = some prime → bracketed 2 prime constant = true →
      constant.toBitVec = SecureHash.start register := by
    intro register prime constant found holds
    rw [SecureHash.start, SecureHash.nth_prime found]
    exact (fraction_bracketed (by decide) holds).symm
  apply Registers.ext
  · exact root 0x6a09e667 rfl (by decide)
  · exact root 0xbb67ae85 rfl (by decide)
  · exact root 0x3c6ef372 rfl (by decide)
  · exact root 0xa54ff53a rfl (by decide)
  · exact root 0x510e527f rfl (by decide)
  · exact root 0x9b05688c rfl (by decide)
  · exact root 0x1f83d9ab rfl (by decide)
  · exact root 0x5be0cd19 rfl (by decide)

/-! ## The schedule -/

/-- A schedule so far, the last word first, is the first words of the standard's. -/
def Scheduled (block : Nat → SecureHash.Word) (count : Nat) (schedule : List UInt32) : Prop :=
  schedule.map UInt32.toBitVec = ((List.range count).map (SecureHash.schedule block)).reverse

theorem Scheduled.back {block : Nat → SecureHash.Word} {count : Nat} {schedule : List UInt32}
    (so : Scheduled block count schedule) (places : Nat) (some : 0 < places)
    (within : places ≤ count) :
    (schedule.getD (places - 1) 0).toBitVec = SecureHash.schedule block (count - places) := by
  have entry := congrArg (fun words => words[places - 1]?) so
  rw [List.getElem?_map, List.getElem?_reverse (by simp; omega), List.length_map,
    List.length_range, List.getElem?_map, List.getElem?_range (by omega)] at entry
  rcases Option.map_eq_some_iff.mp entry with ⟨word, found, same⟩
  rw [List.getD_eq_getElem?_getD, found, Option.getD_some, same]
  congr 1
  omega

/-- One more word of the code's is one more of the standard's. -/
theorem Scheduled.extended {block : Nat → SecureHash.Word} {count : Nat} {schedule : List UInt32}
    (so : Scheduled block count schedule) (enough : 16 ≤ count) :
    Scheduled block (count + 1) (extended schedule) := by
  have word : SecureHash.schedule block count =
      SecureHash.sigma1 (SecureHash.schedule block (count - 2)) +
          SecureHash.schedule block (count - 7) +
        SecureHash.sigma0 (SecureHash.schedule block (count - 15)) +
          SecureHash.schedule block (count - 16) := by
    rw [SecureHash.schedule, if_neg (by omega)]
  rw [Scheduled, List.range_succ, List.map_append, List.reverse_append, ← so, List.map_singleton,
    List.reverse_singleton, word, ← so.back 2 (by omega) (by omega),
    ← so.back 7 (by omega) (by omega), ← so.back 15 (by omega) (by omega),
    ← so.back 16 (by omega) (by omega)]
  have sum : ∀ a b c d : SecureHash.Word, a + b + c + d = d + c + b + a := by
    intro a b c d
    ring
  rw [sum]
  rfl

theorem scheduled_words {bytes : List UInt8} {block : Nat → SecureHash.Word}
    (long : bytes.length = 64)
    (words : ∀ word < 16, SecureHash.word (bits ((bytes.drop (4 * word)).take 4)) = block word) :
    Scheduled block 16 (((chunksExact 4 bytes).take 16).map fromBeBytes).reverse := by
  have count : bytes.length / 4 = 16 := by omega
  have all : (chunksExact 4 bytes).length ≤ 16 := by
    rw [chunksExact, List.length_map, List.length_range, count]
  rw [Scheduled, List.map_reverse, List.take_of_length_le all, List.map_map, chunksExact, count,
    List.map_map]
  congr 1
  apply List.map_congr_left
  intro word there
  have small := List.mem_range.mp there
  rw [SecureHash.schedule, if_pos small, ← words word small]
  exact toBitVec_fromBeBytes _

theorem scheduled_more {block : Nat → SecureHash.Word} {words : List UInt32}
    (so : Scheduled block 16 words) (more : Nat) :
    Scheduled block (16 + more) ((List.range more).foldl (fun schedule _ => extended schedule) words)
    := by
  induction more with
  | zero => exact so
  | succ more ih =>
      rw [List.range_succ, List.foldl_append]
      exact ih.extended (Nat.le_add_right 16 more)

/-- The schedule of a block is the standard's. -/
theorem map_schedule {bytes : List UInt8} {block : Nat → SecureHash.Word}
    (long : bytes.length = 64)
    (words : ∀ word < 16, SecureHash.word (bits ((bytes.drop (4 * word)).take 4)) = block word) :
    (schedule bytes).map UInt32.toBitVec = (List.range 64).map (SecureHash.schedule block) := by
  rw [schedule, List.map_reverse, scheduled_more (scheduled_words long words) 48,
    List.reverse_reverse]

theorem registers_rounds (block : Nat → SecureHash.Word) (hash : Words)
    (steps : List (UInt32 × UInt32))
    (agree : ∀ round step, steps[round]? = some step →
      SecureHash.K round = step.1.toBitVec ∧
        SecureHash.schedule block round = step.2.toBitVec) :
    (steps.foldl compressed hash).registers =
      SecureHash.rounds block hash.registers steps.length := by
  induction steps using List.reverseRecOn with
  | nil => rfl
  | append_singleton steps step ih =>
      have before := ih fun round step found =>
        agree round step (List.getElem?_append_left (List.getElem?_eq_some_iff.mp found).1 ▸ found)
      have last := agree steps.length step List.getElem?_concat_length
      rw [List.foldl_append, List.length_append, List.length_singleton, SecureHash.rounds, last.1,
        last.2, ← before]
      exact registers_compressed _ _ _

/-- What a block makes of a hash value is what the standard makes of it. -/
theorem registers_absorbed {bytes : List UInt8} {block : Nat → SecureHash.Word} (hash : Words)
    (long : bytes.length = 64)
    (words : ∀ word < 16, SecureHash.word (bits ((bytes.drop (4 * word)).take 4)) = block word) :
    (absorbed hash bytes).registers = SecureHash.compress hash.registers block := by
  have same := map_schedule long words
  have enough : (schedule bytes).length = 64 := by
    rw [← List.length_map UInt32.toBitVec, same, List.length_map, List.length_range]
  have steps : (K.zip (schedule bytes)).length = 64 := by
    rw [List.length_zip, length_K, enough, Nat.min_self]
  have done := registers_rounds block hash (K.zip (schedule bytes)) (by
    intro round step found
    rcases List.getElem?_zip_eq_some.mp found with ⟨constant, word⟩
    refine ⟨toBitVec_K constant, ?_⟩
    have small : round < 64 := length_K ▸ (List.getElem?_eq_some_iff.mp constant).1
    have entry := congrArg (fun list => list[round]?) same
    rw [List.getElem?_map, word, List.getElem?_map, List.getElem?_range small] at entry
    exact (Option.some.inj entry).symm)
  rw [steps] at done
  rw [SecureHash.compress, ← done, Registers.sum_comm]
  rfl

/-! ## The digest -/

/-- A word of a block of some bytes is the standard's word of the block. -/
theorem word_bits (bytes : List UInt8) {index word : Nat} (small : word < 16) :
    SecureHash.word (bits ((((bytes.drop (64 * index)).take 64).drop (4 * word)).take 4)) =
      SecureHash.block (bits bytes) index word := by
  rw [SecureHash.block, List.drop_take, List.take_take, Nat.min_eq_left (by omega),
    List.drop_drop, bits_take, bits_drop]
  congr 3
  ring

theorem registers_blocks (bytes : List UInt8) {count : Nat} (within : 64 * count ≤ bytes.length) :
    (((List.range count).map fun index => (bytes.drop (64 * index)).take 64).foldl absorbed
      initial).registers = SecureHash.hash (bits bytes) count := by
  induction count with
  | zero => exact registers_initial _
  | succ count ih =>
      have long : ((bytes.drop (64 * count)).take 64).length = 64 := by
        rw [List.length_take, List.length_drop]
        omega
      rw [List.range_succ, List.map_append, List.foldl_append, SecureHash.hash, ← ih (by omega)]
      exact registers_absorbed _ long fun word small => word_bits bytes small

theorem bits_bytes (words : Words) : bits words.bytes = words.registers.bits := by
  rw [Words.bytes, bits, List.flatMap_assoc, Registers.bits]
  show List.flatMap (fun word => bits (toBeBytes word)) _ = _
  simp only [bits_toBeBytes]
  rfl

/-- The bits of the code's digest are the standard's digest of the bits. -/
theorem bits_sha256 {input : List UInt8} (short : input.length < 2 ^ 61) :
    bits (sha256 input) = SecureHash.digest (bits input) := by
  have whole := length_padded input
  have blocks : 8 * (padded input).length / 512 = (padded input).length / 64 := by omega
  rw [sha256, bits_bytes, SecureHash.digest, ← bits_padded short, length_bits, blocks,
    ← registers_blocks (padded input) (by omega)]
  rfl

/-! ## Hexadecimal -/

theorem hexDigit_eq : ∀ value < 16, hexDigit value = SecureHash.hexadecimals.getD value '0' := by
  decide

theorem hex_eq (bytes : List UInt8) : hex bytes = SecureHash.hexadecimal (bits bytes) := by
  apply String.toList_inj.mp
  rw [hex, String.toList_ofList]
  induction bytes with
  | nil => rfl
  | cons byte bytes ih =>
      have below : byte.toNat < 2 ^ 8 := byte.toNat_lt
      rw [List.flatMap_cons, ih, bits_cons, SecureHash.spell_append 4 4, List.append_assoc,
        SecureHash.hexadecimal_append (SecureHash.length_spell 4 _),
        SecureHash.hexadecimal_append (SecureHash.length_spell 4 _), SecureHash.number_spell,
        SecureHash.number_spell, Nat.mod_eq_of_lt (a := byte.toNat / 2 ^ 4) (by omega),
        ← hexDigit_eq _ (by omega), ← hexDigit_eq _ (by omega)]
      rfl

/-- Why bytes are not those that were declared. -/
structure HashMismatch where
  expected : String
  actual : String
deriving DecidableEq, Repr

/-- `verify`, of a text that need not be spelled as a digest. -/
def verifyText (expectedHex : String) (bytes : List UInt8) : Except HashMismatch Unit :=
  let actual := hex (sha256 bytes)
  if actual = expectedHex then .ok () else .error { expected := expectedHex, actual }

theorem verifyText_iff (expectedHex : String) (bytes : List UInt8) :
    verifyText expectedHex bytes = .ok () ↔ expectedHex = hex (sha256 bytes) := by
  rw [verifyText]
  split
  · next same => exact ⟨fun _ => same.symm, fun _ => rfl⟩
  · next other => exact ⟨fun same => (nomatch same), fun same => absurd same.symm other⟩

/-- The digest is the standard's, and bytes are accepted when the standard's digest of them,
in lowercase hexadecimal, is the declared one. -/
theorem sha256_standard {input : List UInt8} (short : input.length < 2 ^ 61) :
    (sha256 input).length = 32 ∧ bits (sha256 input) = SecureHash.digest (bits input) ∧
      ∀ expectedHex, verifyText expectedHex input = .ok () ↔
        expectedHex = SecureHash.hexadecimal (SecureHash.digest (bits input)) := by
  refine ⟨rfl, bits_sha256 short, fun expectedHex => ?_⟩
  rw [verifyText_iff, hex_eq, bits_sha256 short]

theorem sha256_standard_three :
    (sha256 [97, 98, 99]).length = 32 ∧
      bits (sha256 [97, 98, 99]) = SecureHash.digest (bits [97, 98, 99]) ∧
      ∀ expectedHex, verifyText expectedHex [97, 98, 99] = .ok () ↔
        expectedHex = SecureHash.hexadecimal (SecureHash.digest (bits [97, 98, 99])) :=
  sha256_standard (by decide)

end Deed.Fetch
