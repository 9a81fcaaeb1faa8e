import Deed.Library.Reader

/-!
# LEB128

A number as groups of seven bits, the lowest first, every byte but the last
with its high bit set; a signed number keeps the sign in the second highest bit
of its last byte.  The readers are the two productions the WebAssembly binary
grammar gives for `uN` and `sN`: they count the bits that are left, so an
encoding that is too long, or that has a bit set beyond the width, is refused.
-/

namespace Deed.Library.Leb128

/-- The shortest encoding of a natural number. -/
def unsigned (value : Nat) : List UInt8 :=
  if value < 128 then [UInt8.ofNat value]
  else UInt8.ofNat (value % 128 + 128) :: unsigned (value / 128)
termination_by value

/-- The shortest encoding of an integer. -/
def signed (value : Int) : List UInt8 :=
  if -64 ≤ value ∧ value < 64 then [UInt8.ofNat (value % 128).toNat]
  else UInt8.ofNat ((value % 128).toNat + 128) :: signed (value / 128)
termination_by value.natAbs
decreasing_by omega

/-- The grammar of an unsigned number of at most `bits` bits. -/
def readUnsigned (bits : Nat) : Reader Nat
  | [] => none
  | byte :: rest =>
      if byte.toNat < 128 then
        if byte.toNat < 2 ^ bits then some (byte.toNat, rest) else none
      else if 7 < bits then
        ((readUnsigned (bits - 7)).run rest).map fun (high, left) =>
          (128 * high + (byte.toNat - 128), left)
      else none

/-- The grammar of a signed number of at most `bits` bits. -/
def readSigned (bits : Nat) : Reader Int
  | [] => none
  | byte :: rest =>
      if byte.toNat < 64 then
        if byte.toNat < 2 ^ (bits - 1) then some (byte.toNat, rest) else none
      else if byte.toNat < 128 then
        if 128 - byte.toNat ≤ 2 ^ (bits - 1) then
          some (byte.toNat - 128, rest)
        else none
      else if 7 < bits then
        ((readSigned (bits - 7)).run rest).map fun (high, left) =>
          (128 * high + (byte.toNat - 128), left)
      else none

theorem toNat_ofNat {value : Nat} (small : value < 256) :
    (UInt8.ofNat value).toNat = value := by
  rw [UInt8.toNat_ofNat']
  exact Nat.mod_eq_of_lt small

/-- A number below a power of the base has at most as many groups. -/
theorem length_unsigned_le {groups value : Nat} (positive : 0 < groups)
    (fits : value < 128 ^ groups) : (unsigned value).length ≤ groups := by
  induction groups generalizing value with
  | zero => exact absurd positive (Nat.lt_irrefl 0)
  | succ groups ih =>
      rw [unsigned]
      split
      · exact Nat.succ_le_succ (Nat.zero_le groups)
      · next large =>
          have some_ : 0 < groups := by
            rcases Nat.eq_zero_or_pos groups with rfl | more
            · exact absurd fits large
            · exact more
          have highFits : value / 128 < 128 ^ groups :=
            Nat.div_lt_of_lt_mul (by rwa [mul_comm, ← Nat.pow_succ])
          exact Nat.succ_le_succ (ih some_ highFits)

/-- A continued byte stands for its low seven bits. -/
theorem readUnsigned_continued {bits low : Nat} {rest : List UInt8}
    (small : low < 128) (wide : 7 < bits) :
    (readUnsigned bits).run (UInt8.ofNat (low + 128) :: rest) =
      ((readUnsigned (bits - 7)).run rest).map fun (high, left) =>
        (128 * high + low, left) := by
  have value := toNat_ofNat (show low + 128 < 256 by omega)
  change readUnsigned bits (UInt8.ofNat (low + 128) :: rest) = _
  rw [readUnsigned, value, if_neg (by omega), if_pos wide, Nat.add_sub_cancel]

theorem reads_unsigned {bits value : Nat} (fits : value < 2 ^ bits) :
    Reads (readUnsigned bits) (unsigned value) value := by
  induction value using Nat.strongRecOn generalizing bits with
  | ind value ih =>
      rw [unsigned]
      split
      · next small =>
          intro rest
          have same := toNat_ofNat (show value < 256 by omega)
          change readUnsigned bits (UInt8.ofNat value :: rest) = _
          rw [readUnsigned, same, if_pos small, if_pos fits]
      · next large =>
          have wide : 7 < bits := by
            by_contra narrow
            have := Nat.pow_le_pow_right (show 0 < 2 by decide)
              (show bits ≤ 7 by omega)
            omega
          have highFits : value / 128 < 2 ^ (bits - 7) := by
            have split_ : 2 ^ bits = 2 ^ (bits - 7) * 128 := by
              rw [show (128 : Nat) = 2 ^ 7 by rfl, ← Nat.pow_add,
                Nat.sub_add_cancel wide.le]
            exact Nat.div_lt_of_lt_mul (by rw [mul_comm, ← split_]; exact fits)
          have high := ih (value / 128) (by omega) highFits
          intro rest
          rw [List.cons_append,
            readUnsigned_continued (Nat.mod_lt _ (by decide)) wide, high rest]
          have whole : 128 * (value / 128) + value % 128 = value :=
            Nat.div_add_mod _ _
          simp only [Option.map_some, whole]

theorem readSigned_continued {bits low : Nat} {rest : List UInt8}
    (small : low < 128) (wide : 7 < bits) :
    (readSigned bits).run (UInt8.ofNat (low + 128) :: rest) =
      ((readSigned (bits - 7)).run rest).map fun (high, left) =>
        (128 * high + (low : Int), left) := by
  have value := toNat_ofNat (show low + 128 < 256 by omega)
  change readSigned bits (UInt8.ofNat (low + 128) :: rest) = _
  rw [readSigned, value, if_neg (by omega), if_neg (by omega), if_pos wide]
  push_cast
  simp only [add_sub_cancel_right]

theorem reads_signed {bits : Nat} {value : Int} (positive : 0 < bits)
    (above : -2 ^ (bits - 1) ≤ value) (below : value < 2 ^ (bits - 1)) :
    Reads (readSigned bits) (signed value) value := by
  induction size : value.natAbs using Nat.strongRecOn generalizing value bits with
  | ind size ih =>
      rw [signed]
      split
      · next small =>
          intro rest
          have same := toNat_ofNat (show (value % 128).toNat < 256 by omega)
          have power : ((2 ^ (bits - 1) : Nat) : Int) = 2 ^ (bits - 1) := by
            push_cast
            rfl
          rw [← power] at above below
          change readSigned bits (UInt8.ofNat (value % 128).toNat :: rest) = _
          rw [readSigned, same]
          rcases lt_or_ge value 0 with negative | nonneg
          · rw [if_neg (by omega), if_pos (by omega), if_pos (by omega)]
            congr 2
            omega
          · rw [if_pos (by omega), if_pos (by omega)]
            congr 2
            omega
      · next large =>
          have wide : 7 < bits := by
            by_contra narrow
            have bounded : (2 : Int) ^ (bits - 1) ≤ 2 ^ 6 :=
              pow_le_pow_right₀ (by decide) (by omega)
            omega
          have split_ : (2 : Int) ^ (bits - 1) = 2 ^ (bits - 7 - 1) * 128 := by
            rw [show (128 : Int) = 2 ^ 7 by rfl, ← pow_add]
            congr 1
            omega
          rw [split_] at above below
          have high : Reads (readSigned (bits - 7)) (signed (value / 128))
              (value / 128) :=
            ih (value / 128).natAbs (by omega) (by omega) (by omega) (by omega) rfl
          intro rest
          have small : (value % 128).toNat < 128 := by omega
          rw [List.cons_append, readSigned_continued small wide, high rest]
          have whole : 128 * (value / 128) + ((value % 128).toNat : Int) = value := by
            omega
          simp only [Option.map_some, whole]

end Deed.Library.Leb128
