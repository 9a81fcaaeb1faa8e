import Deed.Cli.Lock

/-!
# Lock files read back

The text of some entries is read back as these but for what a line end takes from a path, and a
text is accepted where it is a lock file but for a sign in front of a digit.
-/

namespace Deed.Cli.Lock

open Deed.Fetch (hex hexDigit)
open Deed.Lexer (fromStrRadix toDigit isAsciiHexdigit)
open Deed.Library
open Deed.Rt (asBytes asBytes_ascii asBytes_inj fromUtf8 fromUtf8_eq_some)

/-! ## Digits -/

theorem toDigit_ascii {c : Char} {digit : Nat} (is_ : toDigit c 16 = some digit) :
    c.toNat < 128 ∧ digit < 16 ∧ c ≠ ' ' ∧ c ≠ '+' := by
  unfold toDigit at is_
  obtain ⟨is_, small⟩ := Option.filter_eq_some_iff.mp is_
  have small := of_decide_eq_true small
  have range (low high : Char) (between : low ≤ c ∧ c ≤ high) :
      low.toNat ≤ c.toNat ∧ c.toNat ≤ high.toNat := between
  have code (other : Char) (differs : c.toNat ≠ other.toNat) : c ≠ other :=
    fun same => differs (congrArg Char.toNat same)
  split at is_
  · rename_i here
    rw [Lexer.isAsciiDigit, Bool.and_eq_true, decide_eq_true_eq, decide_eq_true_eq] at here
    have between := range _ _ here
    have low : '0'.toNat = 48 := rfl
    have high : '9'.toNat = 57 := rfl
    refine ⟨by omega, small, code _ ?_, code _ ?_⟩
    · have blank : ' '.toNat = 32 := rfl
      omega
    · have plus : '+'.toNat = 43 := rfl
      omega
  · split at is_
    · rename_i here
      have between := range _ _ here
      have low : 'a'.toNat = 97 := rfl
      have high : 'z'.toNat = 122 := rfl
      refine ⟨by omega, small, code _ ?_, code _ ?_⟩
      · have blank : ' '.toNat = 32 := rfl
        omega
      · have plus : '+'.toNat = 43 := rfl
        omega
    · split at is_
      · rename_i here
        have between := range _ _ here
        have low : 'A'.toNat = 65 := rfl
        have high : 'Z'.toNat = 90 := rfl
        refine ⟨by omega, small, code _ ?_, code _ ?_⟩
        · have blank : ' '.toNat = 32 := rfl
          omega
        · have plus : '+'.toNat = 43 := rfl
          omega
      · cases is_

/-- A pair of digits, or a sign and a digit. -/
def Pair (a b : Char) : Prop :=
  (isAsciiHexdigit a = true ∨ a = '+') ∧ isAsciiHexdigit b = true

theorem isAsciiHexdigit_iff {c : Char} :
    isAsciiHexdigit c = true ↔ ∃ digit, toDigit c 16 = some digit := Option.isSome_iff_exists

theorem fromStrRadix_one (c : Char) : fromStrRadix (2 ^ 8 - 1) [c] 16 = toDigit c 16 := by
  unfold fromStrRadix
  rw [List.isEmpty_cons, if_neg Bool.false_ne_true, List.foldlM_cons]
  cases is_ : toDigit c 16 with
  | none => rfl
  | some digit =>
      have small := (toDigit_ascii is_).2.1
      show Option.filter _ (some (0 * 16 + digit)) = _
      rw [Option.filter_some, if_pos (decide_eq_true (by omega)), Nat.zero_mul, Nat.zero_add]

theorem fromStrRadix_two (a b : Char) : fromStrRadix (2 ^ 8 - 1) [a, b] 16 =
    (toDigit a 16).bind fun high => (toDigit b 16).map fun low => high * 16 + low := by
  unfold fromStrRadix
  rw [List.isEmpty_cons, if_neg Bool.false_ne_true, List.foldlM_cons]
  simp only [List.foldlM_cons]
  cases first : toDigit a 16 with
  | none => rfl
  | some high =>
      cases second : toDigit b 16 with
      | none => rfl
      | some low =>
          have small := (toDigit_ascii first).2.1
          have small' := (toDigit_ascii second).2.1
          show Option.filter _ (some ((0 * 16 + high) * 16 + low)) = _
          rw [Option.filter_some, if_pos (decide_eq_true (by omega)), Nat.zero_mul, Nat.zero_add]
          rfl

theorem fromStrRadix_ascii {largest value : Nat} {digits : Text}
    (read : fromStrRadix largest digits 16 = some value) : ∀ c ∈ digits, c.toNat < 128 := by
  unfold fromStrRadix at read
  split at read
  · cases read
  · obtain ⟨read, -⟩ := Option.filter_eq_some_iff.mp read
    generalize 0 = start at read
    clear * - read
    induction digits generalizing start with
    | nil => exact fun _ never => nomatch never
    | cons c digits ih =>
        rw [List.foldlM_cons] at read
        obtain ⟨next, here, later⟩ := Option.bind_eq_some_iff.mp read
        obtain ⟨digit, is_, -⟩ := Option.map_eq_some_iff.mp here
        exact List.forall_mem_cons.mpr ⟨(toDigit_ascii is_).1, ih _ later⟩

theorem fromHex_ascii {value : Nat} {digits : Text} (read : fromHex digits = some value) :
    ∀ c ∈ digits, c.toNat < 128 := by
  unfold fromHex at read
  split at read
  · exact List.forall_mem_cons.mpr ⟨by decide, fromStrRadix_ascii read⟩
  · exact fromStrRadix_ascii read

theorem fromHex_signed (b : Char) : fromHex ['+', b] = toDigit b 16 := fromStrRadix_one b

theorem fromHex_pair {a : Char} (plain : a ≠ '+') (b : Char) : fromHex [a, b] =
    (toDigit a 16).bind fun high => (toDigit b 16).map fun low => high * 16 + low := by
  rw [← fromStrRadix_two]
  exact fromHex.eq_2 _ fun _ _ same => plain (List.cons.inj same).1

/-- A pair is read exactly where it is one. -/
theorem fromHex_iff (a b : Char) : (∃ value, fromHex [a, b] = some value) ↔ Pair a b := by
  by_cases signed : a = '+'
  · subst signed
    rw [fromHex_signed, ← isAsciiHexdigit_iff]
    exact ⟨fun digit => ⟨.inr rfl, digit⟩, fun pair => pair.2⟩
  · rw [fromHex_pair signed]
    constructor
    · rintro ⟨value, read⟩
      obtain ⟨high, first, read⟩ := Option.bind_eq_some_iff.mp read
      obtain ⟨low, second, -⟩ := Option.map_eq_some_iff.mp read
      exact ⟨.inl (isAsciiHexdigit_iff.mpr ⟨high, first⟩), isAsciiHexdigit_iff.mpr ⟨low, second⟩⟩
    · rintro ⟨first | first, second⟩
      · obtain ⟨high, first⟩ := isAsciiHexdigit_iff.mp first
        obtain ⟨low, second⟩ := isAsciiHexdigit_iff.mp second
        exact ⟨high * 16 + low, by rw [first, second]; rfl⟩
      · exact absurd first signed

/-! ## Hashes -/

/-- Pairs of characters that stand for some bytes. -/
inductive Spells : Text → List UInt8 → Prop where
  | nil : Spells [] []
  | cons {a b : Char} {rest : Text} {value : Nat} {digest : List UInt8} :
      fromHex [a, b] = some value → Spells rest digest →
      Spells (a :: b :: rest) (value.toUInt8 :: digest)

theorem unhex_cons (high low : UInt8) (rest : List UInt8) :
    (unhex (high :: low :: rest)).map Subtype.val =
      (fromUtf8 [high, low]).bind fun pair => (fromHex pair).bind fun byte =>
        ((unhex rest).map Subtype.val).map (byte.toUInt8 :: ·) := by
  rw [unhex]
  cases fromUtf8 [high, low] with
  | none => rfl
  | some pair =>
      show Option.map Subtype.val ((fromHex pair).bind _) = (fromHex pair).bind _
      cases fromHex pair with
      | none => rfl
      | some byte =>
          show Option.map Subtype.val ((unhex rest).bind _) = _
          cases unhex rest with
          | none => rfl
          | some digest => rfl

/-- Two characters that a pair of bytes is read as are these bytes. -/
theorem pair_of_bytes {high low : UInt8} {pair : Text} {value : Nat}
    (decoded : fromUtf8 [high, low] = some pair) (read : fromHex pair = some value) :
    ∃ a b, pair = [a, b] := by
  have ascii := fromHex_ascii read
  have same := fromUtf8_eq_some.mp decoded
  match pair with
  | [] => cases same
  | [a] =>
      rw [asBytes_ascii (ascii a (List.mem_singleton_self a))] at same
      cases same
  | [a, b] => exact ⟨a, b, rfl⟩
  | a :: b :: c :: rest =>
      rw [asBytes_ascii (ascii a (by simp)), asBytes_ascii (ascii b (by simp)),
        asBytes_ascii (ascii c (by simp))] at same
      cases same

/-- Bytes that are read as pairs are those of characters. -/
theorem spells_of_unhex (count : Nat) {bytes digest : List UInt8} (even : bytes.length = 2 * count)
    (read : (unhex bytes).map Subtype.val = some digest) :
    ∃ text, asBytes text = bytes ∧ Spells text digest := by
  induction count generalizing bytes digest with
  | zero =>
      rw [List.length_eq_zero_iff.mp even] at read ⊢
      rw [unhex] at read
      cases read
      exact ⟨[], rfl, .nil⟩
  | succ count ih =>
      match bytes with
      | [_] => exact absurd even (by rw [List.length_singleton]; omega)
      | high :: low :: rest =>
          rw [unhex_cons] at read
          obtain ⟨pair, decoded, read⟩ := Option.bind_eq_some_iff.mp read
          obtain ⟨value, here, read⟩ := Option.bind_eq_some_iff.mp read
          obtain ⟨digest, later, rfl⟩ := Option.map_eq_some_iff.mp read
          obtain ⟨a, b, rfl⟩ := pair_of_bytes decoded here
          obtain ⟨text, same, spells⟩ := ih (by
            rw [List.length_cons, List.length_cons] at even
            omega) later
          refine ⟨a :: b :: text, ?_, .cons here spells⟩
          have front := fromUtf8_eq_some.mp decoded
          have split : asBytes (a :: b :: text) = asBytes [a, b] ++ asBytes text :=
            @List.flatMap_append _ _ [a, b] text _
          rw [split, front, same]
          rfl

theorem Spells.ascii {text : Text} {digest : List UInt8} (spells : Spells text digest) :
    (asBytes text).length = text.length ∧ text.length = 2 * digest.length := by
  induction spells with
  | nil => exact ⟨rfl, rfl⟩
  | cons here _ ih =>
      have ascii := fromHex_ascii here
      rw [asBytes_ascii (ascii _ (by simp)), asBytes_ascii (ascii _ (by simp))]
      simp only [List.length_cons]
      omega

theorem Spells.read {text : Text} {digest : List UInt8} (spells : Spells text digest) :
    (unhex (asBytes text)).map Subtype.val = some digest := by
  induction spells with
  | nil => rfl
  | @cons a b rest value digest here _ ih =>
      have ascii := fromHex_ascii here
      have first := asBytes_ascii (ascii a (by simp))
      have second := asBytes_ascii (ascii b (by simp))
      have pair : fromUtf8 [UInt8.ofNat a.toNat, UInt8.ofNat b.toNat] = some [a, b] := by
        rw [fromUtf8_eq_some, first, second]
        rfl
      rw [first, second, unhex_cons, pair, Option.bind_some, here, Option.bind_some, ih,
        Option.map_some]

/-- Pairs, each of two digits or of a sign and a digit. -/
inductive Pairs : Text → Prop where
  | nil : Pairs []
  | cons {a b : Char} {rest : Text} : Pair a b → Pairs rest → Pairs (a :: b :: rest)

theorem pairs_iff {text : Text} : Pairs text ↔ ∃ digest, Spells text digest := by
  constructor
  · intro pairs
    induction pairs with
    | nil => exact ⟨[], .nil⟩
    | cons pair _ ih =>
        obtain ⟨value, here⟩ := (fromHex_iff _ _).mpr pair
        obtain ⟨digest, spells⟩ := ih
        exact ⟨_, .cons here spells⟩
  · rintro ⟨digest, spells⟩
    induction spells with
    | nil => exact .nil
    | cons here _ ih => exact .cons ((fromHex_iff _ _).mp ⟨_, here⟩) ih

theorem not_blank {c : Char} (digit : isAsciiHexdigit c = true ∨ c = '+') : c ≠ ' ' := by
  rcases digit with digit | rfl
  · obtain ⟨_, is_⟩ := isAsciiHexdigit_iff.mp digit
    exact (toDigit_ascii is_).2.2.1
  · decide

theorem Pairs.mem {text : Text} (pairs : Pairs text) :
    ∀ c ∈ text, isAsciiHexdigit c = true ∨ c = '+' := by
  induction pairs with
  | nil => exact fun _ never => nomatch never
  | cons pair _ ih =>
      exact List.forall_mem_cons.mpr ⟨pair.1, List.forall_mem_cons.mpr ⟨.inl pair.2, ih⟩⟩

theorem pairs_of_digits (count : Nat) {text : Text} (even : text.length = 2 * count)
    (digits : ∀ c ∈ text, isAsciiHexdigit c = true) : Pairs text := by
  induction count generalizing text with
  | zero =>
      rw [List.length_eq_zero_iff.mp even]
      exact .nil
  | succ count ih =>
      match text with
      | [_] => exact absurd even (by rw [List.length_singleton]; omega)
      | a :: b :: rest =>
          rw [List.forall_mem_cons, List.forall_mem_cons] at digits
          rw [List.length_cons, List.length_cons] at even
          exact .cons ⟨.inl digits.1, digits.2.1⟩ (ih (by omega) digits.2.2)

/-! ## Lines of entries -/

/-- What a line says of an entry. -/
def Reads (line : Text) (entry : Entry) : Prop :=
  ∃ hash, line = "sha256:".toList ++ (hash ++ "  ".toList ++ entry.path) ∧
    hash.length = 64 ∧ Spells hash entry.digest.1

/-- No two blanks begin in front of the two behind a hash. -/
theorem splitOnce_hash {hash : Text} (solid : ' ' ∉ hash) (path : Text) :
    splitOnce "  ".toList (hash ++ "  ".toList ++ path) = some (hash, path) := by
  have apart : ¬"  ".toList <:+: hash ++ "  ".toList.dropLast := by
    intro inside
    have counts := inside.sublist.count_le ' '
    have two : List.count ' ' "  ".toList = 2 := rfl
    have one : List.count ' ' "  ".toList.dropLast = 1 := rfl
    rw [List.count_append, List.count_eq_zero.mpr solid, two, one] at counts
    omega
  exact splitOnce_append (by decide) apart

theorem parseLine_iff {i : Nat} {line : Text} {entry : Entry} :
    parseLine i line = .ok (some entry) ↔ Reads line entry := by
  constructor
  · intro read
    unfold parseLine at read
    split at read
    · cases read
    · split at read
      · cases read
      · rename_i rest stripped
        split at read
        · cases read
        · rename_i hash path split_
          split at read
          · rename_i sized
            split at read
            · cases read
            · rename_i digest decoded
              cases read
              obtain ⟨text, same, spells⟩ := spells_of_unhex 32 sized
                (congrArg (Option.map Subtype.val) decoded)
              rw [asBytes_inj same] at spells
              refine ⟨hash, ?_, spells.ascii.1.symm.trans sized, spells⟩
              rw [stripPrefix_eq_some.mp stripped, splitOnce_eq_some split_]
          · cases read
  · rintro ⟨hash, rfl, size, spells⟩
    have solid : ' ' ∉ hash := fun there =>
      not_blank ((pairs_iff.mpr ⟨_, spells⟩).mem ' ' there) rfl
    have sized : (asBytes hash).length = 64 := spells.ascii.1.trans size
    obtain ⟨digest, decoded, same⟩ := Option.map_eq_some_iff.mp spells.read
    unfold parseLine
    rw [if_neg (by exact fun never => nomatch never), stripPrefix_eq_some.mpr rfl]
    simp only
    rw [splitOnce_hash solid]
    simp only
    rw [dif_pos sized, decoded]
    exact congrArg (fun digest => Except.ok (some (⟨digest, entry.path⟩ : Entry)))
      (Subtype.ext same)

theorem parseLine_none {i : Nat} {line : Text} : parseLine i line = .ok none ↔ line = [] := by
  refine ⟨fun read => ?_, fun empty => if_pos empty⟩
  by_contra filled
  unfold parseLine at read
  rw [if_neg filled] at read
  split at read
  · cases read
  · split at read
    · cases read
    · split at read
      · split at read <;> cases read
      · cases read

theorem Reads.unique {line : Text} {entry other : Entry} (reads : Reads line entry)
    (again : Reads line other) : entry = other := by
  have same := (parseLine_iff (i := 0).mpr reads).symm.trans (parseLine_iff.mpr again)
  exact Option.some.inj (Except.ok.inj same)

/-- What the lines after the header say, blank lines being passed over. -/
inductive Lists : List Text → List Entry → Prop where
  | nil : Lists [] []
  | blank {rest : List Text} {entries : List Entry} : Lists rest entries → Lists ([] :: rest) entries
  | entry {line : Text} {rest : List Text} {entry : Entry} {entries : List Entry} :
      Reads line entry → Lists rest entries → Lists (line :: rest) (entry :: entries)

theorem parseLines_iff {rest : List Text} {i : Nat} {entries all : List Entry} :
    parseLines rest i entries = .ok all ↔ ∃ more, all = entries ++ more ∧ Lists rest more := by
  induction rest generalizing i entries with
  | nil =>
      constructor
      · intro read
        cases read
        exact ⟨[], (List.append_nil _).symm, .nil⟩
      · rintro ⟨more, rfl, lists⟩
        cases lists
        rw [List.append_nil]
        rfl
  | cons line rest ih =>
      rw [parseLines]
      cases read : parseLine i line with
      | error refused =>
          show Except.error refused = .ok all ↔ _
          refine ⟨fun never => absurd never (by simp), ?_⟩
          rintro ⟨more, rfl, lists⟩
          cases lists with
          | blank => exact absurd (read.symm.trans (parseLine_none.mpr rfl)) (by simp)
          | entry reads => exact absurd (read.symm.trans (parseLine_iff.mpr reads)) (by simp)
      | ok found =>
          cases found with
          | none =>
              show parseLines rest (i + 1) entries = .ok all ↔ _
              rw [parseLine_none.mp read, ih]
              refine exists_congr fun more => and_congr_right fun _ => ⟨.blank, fun lists => ?_⟩
              cases lists with
              | blank lists => exact lists
              | entry reads =>
                  have blank := @parseLine_none 0 []
                  exact absurd ((blank.mpr rfl).symm.trans (parseLine_iff.mpr reads)) (by simp)
          | some entry =>
              have reads := parseLine_iff.mp read
              show parseLines rest (i + 1) (entries ++ [entry]) = .ok all ↔ _
              rw [ih]
              constructor
              · rintro ⟨more, rfl, lists⟩
                exact ⟨entry :: more, by rw [List.append_assoc]; rfl, .entry reads lists⟩
              · rintro ⟨more, rfl, lists⟩
                cases lists with
                | blank => exact absurd (read.symm.trans (parseLine_none.mpr rfl)) (by simp)
                | entry reads' lists =>
                    rw [reads'.unique reads]
                    exact ⟨_, by rw [List.append_assoc]; rfl, lists⟩

/-- A text without a byte order mark. -/
def unmarked (text : Text) : Text := (stripPrefix ['\uFEFF'] text).getD text

theorem parse_iff {text : Text} {entries : List Entry} : parse text = .ok entries ↔
    ∃ rest, lines (unmarked text) = HEADER :: rest ∧ Lists rest entries := by
  unfold parse
  show (if (lines (unmarked text)).head?.getD [] = HEADER then
    parseLines (lines (unmarked text)).tail 0 [] else _) = _ ↔ _
  cases lines (unmarked text) with
  | nil =>
      rw [if_neg (by decide)]
      exact ⟨fun never => (nomatch never), fun never => (nomatch never.choose_spec.1)⟩
  | cons header rest =>
      by_cases is_ : header = HEADER
      · subst is_
        rw [List.head?_cons, Option.getD_some, if_pos rfl, List.tail_cons, parseLines_iff]
        constructor
        · rintro ⟨more, rfl, lists⟩
          exact ⟨rest, rfl, lists⟩
        · rintro ⟨rest, same, lists⟩
          cases same
          exact ⟨entries, rfl, lists⟩
      · rw [List.head?_cons, Option.getD_some, if_neg is_]
        exact ⟨fun never => (nomatch never), fun never =>
          absurd (List.cons.inj never.choose_spec.1).1 is_⟩

/-! ## What is accepted -/

/-- A line of an entry whose pairs may begin with a sign. -/
def LooseLine (line : Text) : Prop :=
  ∃ hash path, line = "sha256:".toList ++ hash ++ "  ".toList ++ path ∧ hash.length = 64 ∧
    Pairs hash

theorem looseLine_iff {line : Text} : LooseLine line ↔ ∃ entry, Reads line entry := by
  constructor
  · rintro ⟨hash, path, rfl, size, pairs⟩
    obtain ⟨digest, spells⟩ := pairs_iff.mp pairs
    have sized : digest.length = 32 := by
      have half := spells.ascii.2
      omega
    refine ⟨⟨⟨digest, sized⟩, path⟩, hash, ?_, size, spells⟩
    rw [List.append_assoc, List.append_assoc, List.append_assoc]
  · rintro ⟨entry, hash, rfl, size, spells⟩
    refine ⟨hash, entry.path, ?_, size, pairs_iff.mpr ⟨_, spells⟩⟩
    rw [List.append_assoc, List.append_assoc, List.append_assoc]

theorem lists_iff {rest : List Text} :
    (∃ entries, Lists rest entries) ↔ ∀ line ∈ rest, line = [] ∨ LooseLine line := by
  constructor
  · rintro ⟨entries, lists⟩
    induction lists with
    | nil => exact fun _ never => nomatch never
    | blank _ ih => exact List.forall_mem_cons.mpr ⟨.inl rfl, ih⟩
    | entry reads _ ih =>
        exact List.forall_mem_cons.mpr ⟨.inr (looseLine_iff.mpr ⟨_, reads⟩), ih⟩
  · intro all
    induction rest with
    | nil => exact ⟨[], .nil⟩
    | cons line rest ih =>
        rw [List.forall_mem_cons] at all
        obtain ⟨entries, lists⟩ := ih all.2
        rcases all.1 with rfl | loose
        · exact ⟨entries, .blank lists⟩
        · obtain ⟨entry, reads⟩ := looseLine_iff.mp loose
          exact ⟨entry :: entries, .entry reads lists⟩

theorem accepted_iff {text : Text} :
    (∃ entries, parse text = .ok entries) ↔ IsLock LooseLine text := by
  constructor
  · rintro ⟨entries, read⟩
    obtain ⟨rest, same, lists⟩ := parse_iff.mp read
    exact ⟨rest, same, lists_iff.mp ⟨entries, lists⟩⟩
  · rintro ⟨rest, same, all⟩
    obtain ⟨entries, lists⟩ := lists_iff.mpr all
    exact ⟨entries, parse_iff.mpr ⟨rest, same, lists⟩⟩

theorem EntryLine.loose {line : Text} (is_ : EntryLine line) : LooseLine line := by
  obtain ⟨hash, path, same, size, digits⟩ := is_
  exact ⟨hash, path, same, size, pairs_of_digits 32 size digits⟩

/-- The first 71 characters of a line are the name of the hash and the hash. -/
theorem take_line {hash : Text} (size : hash.length = 64) (path : Text) :
    ("sha256:".toList ++ hash ++ "  ".toList ++ path).take 71 = "sha256:".toList ++ hash := by
  have name : "sha256:".toList.length = 7 := rfl
  have whole : ("sha256:".toList ++ hash).length = 71 := by
    rw [List.length_append, name, size]
  rw [List.append_assoc _ _ path, ← whole, List.take_left]

theorem unsigned_of_entryLine {line : Text} (is_ : EntryLine line) : '+' ∉ line.take 71 := by
  obtain ⟨hash, path, rfl, size, digits⟩ := is_
  rw [take_line size, List.mem_append]
  rintro (never | there)
  · exact absurd never (by decide)
  · obtain ⟨_, digit⟩ := isAsciiHexdigit_iff.mp (digits _ there)
    exact (toDigit_ascii digit).2.2.2 rfl

theorem entryLine_of_unsigned {line : Text} (loose : LooseLine line) (plain : '+' ∉ line.take 71) :
    EntryLine line := by
  obtain ⟨hash, path, rfl, size, pairs⟩ := loose
  rw [take_line size, List.mem_append, not_or] at plain
  refine ⟨hash, path, rfl, size, fun c there => ?_⟩
  rcases pairs.mem c there with digit | rfl
  · exact digit
  · exact absurd there plain.2

/-- No text that is otherwise a lock file has a sign in a hash. -/
def Unsigned (text : Text) : Prop :=
  IsLock LooseLine text → ∀ line ∈ lines (unmarked text), '+' ∉ line.take 71

theorem accepts_unsigned (text : Text) : Accepts text ↔ Unsigned text := by
  unfold Accepts
  rw [accepted_iff]
  constructor
  · intro same loose
    obtain ⟨rest, split, all⟩ := same.mp loose
    rw [show lines (unmarked text) = HEADER :: rest from split]
    refine List.forall_mem_cons.mpr ⟨by decide, fun line there => ?_⟩
    rcases all line there with rfl | is_
    · exact List.not_mem_nil
    · exact unsigned_of_entryLine is_
  · intro plain
    constructor
    · intro loose
      have plain := plain loose
      obtain ⟨rest, split, all⟩ := loose
      rw [show lines (unmarked text) = HEADER :: rest from split] at plain
      refine ⟨rest, split, fun line there => (all line there).imp_right fun loose => ?_⟩
      exact entryLine_of_unsigned loose (plain line (List.mem_cons_of_mem _ there))
    · rintro ⟨rest, split, all⟩
      exact ⟨rest, split, fun line there => (all line there).imp_right EntryLine.loose⟩

/-! ## What is read back -/

theorem digit_small : ∀ digit : Fin 16, toDigit (hexDigit digit) 16 = some digit.val ∧
    hexDigit digit ≠ '\n' ∧ hexDigit digit ≠ '+' := by
  decide

theorem spells_hex (bytes : List UInt8) : Spells (hex bytes).toList bytes := by
  rw [hex, String.toList_ofList]
  induction bytes with
  | nil => exact .nil
  | cons byte bytes ih =>
      have below := byte.toNat_lt
      obtain ⟨high, -, plain⟩ := digit_small ⟨byte.toNat / 16, by omega⟩
      obtain ⟨low, -, -⟩ := digit_small ⟨byte.toNat % 16, by omega⟩
      have here : fromHex [hexDigit (byte.toNat / 16), hexDigit (byte.toNat % 16)] =
          some (byte.toNat / 16 * 16 + byte.toNat % 16) := by
        rw [fromHex_pair plain, high, low]
        rfl
      have whole : byte.toNat / 16 * 16 + byte.toNat % 16 = byte.toNat := by omega
      rw [whole] at here
      have spells := Spells.cons here ih
      rwa [show byte.toNat.toUInt8 = byte from UInt8.ofNat_toNat] at spells

theorem line_eq (entry : Entry) : line entry =
    "sha256:".toList ++ ((hex entry.digest.1).toList ++ "  ".toList ++ entry.path) := by
  unfold line
  simp only [List.append_assoc]

theorem reads_line (entry : Entry) : Reads (line entry) entry := by
  have spells := spells_hex entry.digest.1
  refine ⟨(hex entry.digest.1).toList, ?_, ?_, spells⟩
  · exact line_eq entry
  · rw [spells.ascii.2, entry.digest.2]

/-- An entry without what a line end takes from its path. -/
def chomp (entry : Entry) : Entry := { entry with path := stripLast '\r' entry.path }

theorem newline_hex (bytes : List UInt8) : '\n' ∉ (hex bytes).toList := by
  intro there
  obtain ⟨_, digit⟩ | never := (pairs_iff.mpr ⟨_, spells_hex bytes⟩).mem _ there |>.imp_left
    isAsciiHexdigit_iff.mp
  · rw [show toDigit '\n' 16 = none from rfl] at digit
    cases digit
  · exact absurd never (by decide)

theorem newline_line {entry : Entry} (plain : '\n' ∉ entry.path) : '\n' ∉ line entry := by
  rw [line_eq, List.mem_append, List.mem_append, List.mem_append]
  rintro (never | (never | never) | there)
  · exact absurd never (by decide)
  · exact newline_hex _ never
  · exact absurd never (by decide)
  · exact plain there

theorem stripLast_append {front back : Text} {mark : Char} (other : front.getLast? ≠ some mark) :
    stripLast mark (front ++ back) = front ++ stripLast mark back := by
  unfold stripLast
  cases back using List.reverseRecOn with
  | nil => rw [List.append_nil, if_neg other, if_neg (by exact nofun), List.append_nil]
  | append_singleton back last =>
      rw [← List.append_assoc, List.getLast?_concat, List.getLast?_concat, List.dropLast_concat,
        List.dropLast_concat]
      split
      · rfl
      · rw [List.append_assoc]

theorem stripLast_line (entry : Entry) : stripLast '\r' (line entry) = line (chomp entry) := by
  have ends : ("sha256:".toList ++ (hex entry.digest.1).toList ++ "  ".toList).getLast? = some ' ' := by
    rw [List.getLast?_append]
    rfl
  exact stripLast_append (by rw [ends]; decide)

theorem unended_line (line : Text) : unended (line ++ ['\n']) = stripLast '\r' line := by
  rw [unended, List.getLast?_concat, if_pos rfl, List.dropLast_concat]

/-- The lines of what is written, where no path goes over one. -/
theorem lines_write {entries : List Entry} (plain : ∀ entry ∈ entries, '\n' ∉ entry.path) :
    lines (unmarked (write entries)) =
      HEADER :: entries.map fun entry => line (chomp entry) := by
  have unmarked_ : unmarked (write entries) = write entries := rfl
  rw [unmarked_, lines, write, splitInclusive_append (by decide), List.map_cons, unended_line]
  refine congrArg₂ List.cons (by decide) ?_
  induction entries with
  | nil => rfl
  | cons entry entries ih =>
      rw [List.forall_mem_cons] at plain
      rw [List.flatMap_cons, List.append_assoc, List.singleton_append,
        splitInclusive_append (newline_line plain.1), List.map_cons, unended_line, stripLast_line,
        ih plain.2 rfl, List.map_cons]

theorem lists_map (entries : List Entry) :
    Lists (entries.map fun entry => line (chomp entry)) (entries.map chomp) := by
  induction entries with
  | nil => exact .nil
  | cons entry entries ih => exact .entry (reads_line _) ih

theorem parse_write {entries : List Entry} (plain : ∀ entry ∈ entries, '\n' ∉ entry.path) :
    parse (write entries) = .ok (entries.map chomp) :=
  parse_iff.mpr ⟨_, lines_write plain, lists_map entries⟩

/-- No line has a line feed, so no path that is read does. -/
theorem Lists.plain {rest : List Text} {entries : List Entry} (lists : Lists rest entries)
    (lines : ∀ line ∈ rest, '\n' ∉ line) : ∀ entry ∈ entries, '\n' ∉ entry.path := by
  induction lists with
  | nil => exact fun _ never => nomatch never
  | blank _ ih => exact ih (List.forall_mem_cons.mp lines).2
  | entry reads _ ih =>
      rw [List.forall_mem_cons] at lines ⊢
      refine ⟨fun there => ?_, ih lines.2⟩
      obtain ⟨hash, rfl, -⟩ := reads
      exact lines.1 (List.mem_append_right _ (List.mem_append_right _ there))

theorem newline_lines (text : Text) : ∀ line ∈ lines text, '\n' ∉ line := by
  intro line there
  obtain ⟨raw, from_, rfl⟩ := List.mem_map.mp there
  rcases mark_of_mem_splitInclusive from_ with ⟨front, rfl, plain⟩ | plain
  · rw [unended_line, stripLast]
    split
    · exact fun there => plain (List.mem_of_mem_dropLast there)
    · exact plain
  · rw [unended, if_neg fun last => plain (List.mem_of_getLast? last)]
    exact plain

/-- A path that a line can hold: it neither goes over the line nor ends with what a line end
takes. -/
def OneLine (path : Text) : Prop := '\n' ∉ path ∧ path.getLast? ≠ some '\r'

theorem stripLast_eq_self {list : Text} {mark : Char} :
    stripLast mark list = list ↔ list.getLast? ≠ some mark := by
  constructor
  · intro same last
    rw [stripLast, if_pos last] at same
    have shorter := congrArg List.length same
    have some_ : list ≠ [] := fun empty => by rw [empty] at last; cases last
    have filled := List.length_pos_iff.mpr some_
    rw [List.length_dropLast] at shorter
    omega
  · exact fun other => if_neg other

theorem readsBack_iff (entries : List Entry) :
    ReadsBack entries ↔ ∀ entry ∈ entries, OneLine entry.path := by
  constructor
  · intro back entry there
    obtain ⟨rest, split, lists⟩ := parse_iff.mp back
    have plain := lists.plain fun line within => newline_lines (unmarked (write entries)) line (by
      rw [split]
      exact List.mem_cons_of_mem _ within)
    refine ⟨plain entry there, ?_⟩
    have same : entries.map chomp = entries :=
      Except.ok.inj ((parse_write plain).symm.trans back)
    rw [← List.map_id entries, List.map_map] at same
    have kept : chomp entry = entry := List.map_inj_left.mp same entry there
    exact stripLast_eq_self.mp (congrArg Entry.path kept)
  · intro plain
    have same : entries.map chomp = entries := by
      refine (List.map_congr_left fun entry there => ?_).trans (List.map_id entries)
      rw [chomp, stripLast_eq_self.mpr (plain entry there).2]
      rfl
    rw [ReadsBack, parse_write fun entry there => (plain entry there).1, same]

/-- A lock file is read back where each path is one line, and a text is accepted as it should be
where no hash that would be read has a sign. -/
theorem lock_iff (entries : List Entry) (text : Text) :
    (ReadsBack entries ↔ ∀ entry ∈ entries, OneLine entry.path) ∧
      (Accepts text ↔ Unsigned text) :=
  ⟨readsBack_iff entries, accepts_unsigned text⟩

/-- The digest of nothing but zeros. -/
def zeros : Digest := ⟨List.replicate 32 0, rfl⟩

theorem pairs_signed (count : Nat) : Pairs (List.replicate count ['+', '1']).flatten := by
  induction count with
  | zero => exact .nil
  | succ count ih => exact .cons ⟨.inr rfl, by decide⟩ ih

/-- The line of a hash of signs and digits. -/
def signedLine : Text :=
  "sha256:".toList ++ (List.replicate 32 ['+', '1']).flatten ++ "  ".toList ++ "a".toList

/-- A path of two lines is not read back, nor one that ends with a carriage return; and a hash
of signs and digits is accepted. -/
theorem not_read_back : ¬ReadsBack [⟨zeros, "a\nb".toList⟩] ∧ ¬ReadsBack [⟨zeros, "a\r".toList⟩] ∧
    ¬Accepts (HEADER ++ '\n' :: signedLine) := by
  refine ⟨?_, ?_, ?_⟩
  · intro back
    exact absurd ((readsBack_iff _).mp back _ (List.mem_singleton_self _)).1 (by decide)
  · intro back
    exact absurd ((readsBack_iff _).mp back _ (List.mem_singleton_self _)).2 (by decide)
  · intro accepts
    have split : lines (unmarked (HEADER ++ '\n' :: signedLine)) = [HEADER, signedLine] := by
      decide
    have loose : IsLock LooseLine (HEADER ++ '\n' :: signedLine) :=
      ⟨_, split, List.forall_mem_singleton.mpr (.inr ⟨_, _, rfl, rfl, pairs_signed 32⟩)⟩
    have plain := (accepts_unsigned _).mp accepts loose
    rw [split] at plain
    exact absurd (plain signedLine (by simp)) (by decide)

end Deed.Cli.Lock
