import Deed.Eval.Builtins
import Deed.Runtime.Joining

/-!
# Numbers out of bytes

What the compiled reading of a number does with the bytes of a text, and where that is
`str::parse`.
-/

namespace Deed.Runtime

open Deed.Eval (parseInt digitsNumber checkedInt)

/-! ## Digits below zero -/

def isDigit (byte : UInt8) : Bool := 48 ≤ byte.toNat && byte.toNat ≤ 57

/-- One digit more below zero, where it is a digit and the number stays in range. -/
def oneDigit (number : Int) (byte : UInt8) : Option Int :=
  if byte.toNat < 48 ∨ 57 < byte.toNat then none
  else if number < -922337203685477580 then none
  else if number * 10 < -9223372036854775808 + ((byte.toNat - 48 : Nat) : Int) then none
  else some (number * 10 - ((byte.toNat - 48 : Nat) : Int))

/-- The digits, taken one after the other. -/
def takeDigits (bytes : List UInt8) (number : Int) : Option Int :=
  bytes.foldlM oneDigit number

/-- The number below zero that the bytes spell after the ones that spelled `number`. -/
def spelled (bytes : List UInt8) (number : Int) : Int :=
  bytes.foldl (fun number byte => number * 10 - ((byte.toNat - 48 : Nat) : Int)) number

theorem spelled_cons (first : UInt8) (rest : List UInt8) (number : Int) :
    spelled (first :: rest) number =
      spelled rest (number * 10 - ((first.toNat - 48 : Nat) : Int)) := rfl

theorem spelled_le {number : Int} (below : number ≤ 0) (bytes : List UInt8) :
    spelled bytes number ≤ number := by
  induction bytes generalizing number with
  | nil => exact le_refl _
  | cons first rest ih =>
      have next : number * 10 - ((first.toNat - 48 : Nat) : Int) ≤ number := by omega
      rw [spelled_cons]
      exact (ih (next.trans below)).trans next

/-- Nothing is lost by asking for room at every digit. -/
theorem takeDigits_eq (bytes : List UInt8) {number : Int} (low : -2 ^ 63 ≤ number)
    (below : number ≤ 0) :
    takeDigits bytes number =
      if bytes.all isDigit = true ∧ -2 ^ 63 ≤ spelled bytes number then
        some (spelled bytes number) else none := by
  induction bytes generalizing number with
  | nil => exact (if_pos ⟨rfl, low⟩).symm
  | cons first rest ih =>
      rw [takeDigits, List.foldlM_cons, oneDigit, List.all_cons, spelled_cons]
      by_cases digit : first.toNat < 48 ∨ 57 < first.toNat
      · have other : isDigit first = false := by
          rw [isDigit, Bool.and_eq_false_iff, decide_eq_false_iff_not,
            decide_eq_false_iff_not]
          omega
        rw [if_pos digit, other, Bool.false_and, if_neg (by simp)]
        rfl
      · have one : isDigit first = true := by
          rw [isDigit, Bool.and_eq_true, decide_eq_true_eq, decide_eq_true_eq]
          omega
        rw [if_neg digit, one, Bool.true_and]
        have next : number * 10 - ((first.toNat - 48 : Nat) : Int) ≤ 0 := by omega
        have least := spelled_le next rest
        by_cases room : number < -922337203685477580
        · rw [if_pos room, if_neg (by omega)]
          rfl
        · rw [if_neg room]
          by_cases tight :
              number * 10 < -9223372036854775808 + ((first.toNat - 48 : Nat) : Int)
          · rw [if_pos tight, if_neg (by omega)]
            rfl
          · rw [if_neg tight]
            exact ih (by omega) next

/-! ## Characters and bytes -/

/-- The bytes of some characters. -/
def encode (characters : List Char) : List UInt8 := characters.flatMap String.utf8EncodeChar

/-- A character is one byte below 128, or starts with a byte from 192 on. -/
theorem encode_cons (character : Char) (rest : List Char) :
    ∃ (first : UInt8) (more : List UInt8),
      encode (character :: rest) = first :: (more ++ encode rest) ∧
        (character.toNat < 128 ∧ first.toNat = character.toNat ∧ more = [] ∨
          128 ≤ character.toNat ∧ 192 ≤ first.toNat) := by
  rw [encode, List.flatMap_cons]
  have whole : character.val.toNat = character.toNat := rfl
  simp only [String.utf8EncodeChar, whole]
  split
  · next small =>
      refine ⟨_, [], rfl, Or.inl ⟨by omega, ?_, rfl⟩⟩
      rw [UInt8.toNat_ofNat', Nat.mod_eq_of_lt (by omega)]
  · split
    · refine ⟨_, _, rfl, Or.inr ⟨by omega, ?_⟩⟩
      rw [UInt8.toNat_ofNat']
      omega
    · split
      · refine ⟨_, _, rfl, Or.inr ⟨by omega, ?_⟩⟩
        rw [UInt8.toNat_ofNat']
        omega
      · refine ⟨_, _, rfl, Or.inr ⟨by omega, ?_⟩⟩
        rw [UInt8.toNat_ofNat']
        omega

theorem isDigit_char (character : Char) :
    character.isDigit = true ↔ 48 ≤ character.toNat ∧ character.toNat ≤ 57 := by
  rw [Char.isDigit, Bool.and_eq_true, decide_eq_true_eq, decide_eq_true_eq]
  rfl

/-- The bytes are digits where the characters are, and they spell the same number. -/
theorem encode_digits (characters : List Char) :
    ((encode characters).all isDigit = true ↔ characters.all Char.isDigit = true) ∧
      (characters.all Char.isDigit = true → ∀ number : Int,
        spelled (encode characters) (-number) =
          -characters.foldl (fun (number : Int) (digit : Char) =>
            number * 10 + ((digit.toNat - '0'.toNat : Nat) : Int)) number) := by
  induction characters with
  | nil => exact ⟨Iff.rfl, fun _ _ => rfl⟩
  | cons character rest ih =>
      obtain ⟨first, more, split, one⟩ := encode_cons character rest
      rw [split, List.all_cons, List.all_cons, Bool.and_eq_true, Bool.and_eq_true]
      rcases one with ⟨small, same, rfl⟩ | ⟨large, lead⟩
      · have alike : isDigit first = true ↔ character.isDigit = true := by
          rw [isDigit_char, isDigit, Bool.and_eq_true, decide_eq_true_eq, decide_eq_true_eq,
            same]
        rw [List.nil_append]
        constructor
        · rw [alike, ih.1]
        · rintro ⟨digit, digits⟩ number
          rw [isDigit_char] at digit
          have next : -number * 10 - ((first.toNat - 48 : Nat) : Int) =
              -(number * 10 + ((character.toNat - '0'.toNat : Nat) : Int)) := by
            have zero : '0'.toNat = 48 := rfl
            rw [same, zero]
            omega
          rw [spelled_cons, next, List.foldl_cons]
          exact ih.2 digits _
      · have never : ¬isDigit first = true := by
          rw [isDigit, Bool.and_eq_true, decide_eq_true_eq, decide_eq_true_eq]
          omega
        have never' : ¬character.isDigit = true := by
          rw [isDigit_char]
          omega
        exact ⟨iff_of_false (fun both => never both.1) (fun both => never' both.1),
          fun both => absurd both.1 never'⟩

theorem encode_eq_nil {characters : List Char} : encode characters = [] ↔ characters = [] := by
  cases characters with
  | nil => exact iff_of_true rfl rfl
  | cons character rest =>
      obtain ⟨first, more, split, -⟩ := encode_cons character rest
      rw [split]
      exact iff_of_false (List.cons_ne_nil _ _) (List.cons_ne_nil _ _)

/-- Taking the digits of some characters is reading their number and turning it round. -/
theorem takeDigits_encode {characters : List Char} (some_ : characters ≠ []) :
    takeDigits (encode characters) 0 =
      (digitsNumber characters).bind fun number =>
        if -2 ^ 63 ≤ -number then some (-number) else none := by
  have read := encode_digits characters
  have number : digitsNumber characters =
      if characters.all Char.isDigit then
        some (characters.foldl (fun (number : Int) (digit : Char) =>
          number * 10 + ((digit.toNat - '0'.toNat : Nat) : Int)) 0)
      else none := by
    cases characters with
    | nil => exact absurd rfl some_
    | cons character rest => rfl
  rw [takeDigits_eq _ (by decide) (le_refl 0), number]
  by_cases digits : characters.all Char.isDigit = true
  · have same := read.2 digits 0
    rw [neg_zero] at same
    rw [if_pos digits, Option.bind_some, same]
    simp only [read.1.2 digits, true_and]
  · rw [if_neg digits, if_neg fun both => digits (read.1.1 both.1)]
    rfl

/-- An ASCII character is its own byte. -/
theorem encode_ascii {character : Char} (ascii : character.toNat < 128) (rest : List Char) :
    encode (character :: rest) = UInt8.ofNat character.toNat :: encode rest := by
  obtain ⟨first, more, split, one⟩ := encode_cons character rest
  rcases one with ⟨-, same, rfl⟩ | ⟨large, -⟩
  · rw [split, List.nil_append, ← same, UInt8.ofNat_toNat]
  · exact absurd ascii (by omega)

/-- The first byte is an ASCII character's where the first character is that one. -/
theorem encode_head {sign : Char} (ascii : sign.toNat < 128) (characters : List Char) :
    (encode characters).head? = some (UInt8.ofNat sign.toNat) ↔
      characters.head? = some sign := by
  cases characters with
  | nil =>
      rw [encode, List.flatMap_nil, List.head?_nil, List.head?_nil]
      exact iff_of_false (by simp) (by simp)
  | cons character rest =>
      obtain ⟨first, more, split, one⟩ := encode_cons character rest
      have value : (UInt8.ofNat sign.toNat).toNat = sign.toNat := by
        rw [UInt8.toNat_ofNat', Nat.mod_eq_of_lt (by omega)]
      rw [split, List.head?_cons, List.head?_cons, Option.some_inj, Option.some_inj,
        ← UInt8.toNat_inj, value, ← Char.toNat_inj]
      rcases one with ⟨-, same, -⟩ | ⟨large, lead⟩
      · rw [same]
      · exact iff_of_false (by omega) (by omega)

/-! ## The number of a text -/

/-- What follows one sign, where the first is that sign. -/
def afterSign {α : Type} [DecidableEq α] (sign : α) (signed : List α) : List α :=
  if signed.head? = some sign then signed.tail else signed

theorem afterSign_encode {sign : Char} (ascii : sign.toNat < 128) (characters : List Char) :
    afterSign (UInt8.ofNat sign.toNat) (encode characters) =
      encode (afterSign sign characters) := by
  rw [afterSign, afterSign]
  by_cases first : characters.head? = some sign
  · rw [if_pos first, if_pos ((encode_head ascii characters).2 first)]
    cases characters with
    | nil =>
        rw [List.head?_nil] at first
        exact absurd first (by simp)
    | cons character rest =>
        rw [List.head?_cons, Option.some_inj] at first
        subst first
        rw [encode_ascii ascii]
        rfl
  · rw [if_neg first, if_neg fun same => first ((encode_head ascii characters).1 same)]

/-- What the compiled code makes of the bytes of a text. -/
def compiledNumber (bytes : List UInt8) : Option Int :=
  let digits := afterSign 43 (afterSign 45 bytes)
  if digits = [] then none
  else
    (takeDigits digits 0).bind fun number =>
      if bytes.head? = some 45 then some number
      else if number = -2 ^ 63 then none
      else some (-number)

/-- The same over the characters of the text. -/
def characterNumber (characters : List Char) : Option Int :=
  (digitsNumber (afterSign '+' (afterSign '-' characters))).bind fun number =>
    if characters.head? = some '-' then
      if -2 ^ 63 ≤ -number then some (-number) else none
    else if number < 2 ^ 63 then some number else none

theorem digitsNumber_nonneg {characters : List Char} {number : Int}
    (read : digitsNumber characters = some number) : 0 ≤ number := by
  have grows : ∀ (digits : List Char) (start : Int), 0 ≤ start →
      0 ≤ digits.foldl (fun (number : Int) (digit : Char) =>
        number * 10 + ((digit.toNat - '0'.toNat : Nat) : Int)) start := by
    intro digits
    induction digits with
    | nil => exact fun _ low => low
    | cons digit rest ih =>
        intro start low
        rw [List.foldl_cons]
        exact ih _ (by omega)
  cases characters with
  | nil =>
      rw [digitsNumber] at read
      exact absurd read (by simp)
  | cons character rest =>
      rw [digitsNumber] at read
      · split at read
        · rw [← Option.some_inj.1 read]
          exact grows _ 0 (le_refl 0)
        · exact absurd read (by simp)
      · exact List.cons_ne_nil _ _

theorem compiledNumber_encode (characters : List Char) :
    compiledNumber (encode characters) = characterNumber characters := by
  have minus : afterSign 45 (encode characters) = encode (afterSign '-' characters) :=
    @afterSign_encode '-' (by decide) characters
  have plus : afterSign 43 (encode (afterSign '-' characters)) =
      encode (afterSign '+' (afterSign '-' characters)) := @afterSign_encode '+' (by decide) _
  have sign : (encode characters).head? = some 45 ↔ characters.head? = some '-' :=
    @encode_head '-' (by decide) characters
  rw [compiledNumber, characterNumber, minus, plus]
  generalize afterSign '+' (afterSign '-' characters) = digits
  by_cases none_ : digits = []
  · rw [if_pos (encode_eq_nil.2 none_), none_]
    rfl
  · rw [if_neg fun empty => none_ (encode_eq_nil.1 empty), takeDigits_encode none_]
    cases read : digitsNumber digits with
    | none => rfl
    | some number =>
        have low := digitsNumber_nonneg read
        simp only [Option.bind_some, sign]
        by_cases negative : characters.head? = some '-'
        · simp only [negative, if_true]
          split
          · rfl
          · rfl
        · simp only [negative, if_false]
          by_cases small : number < 2 ^ 63
          · rw [if_pos small, if_pos (by omega), Option.bind_some, if_neg (by omega), neg_neg]
          · rw [if_neg small]
            by_cases edge : number = 2 ^ 63
            · rw [if_pos (by omega), Option.bind_some, if_pos (by omega)]
            · rw [if_neg (by omega)]
              rfl

/-! ## The same numbers -/

/-- A number of the language. -/
def numberValue (number : Int) : Deed.Eval.Value := .int (Int64.ofInt number)

theorem checkedInt_eq (number : Int) :
    checkedInt number =
      if -2 ^ 63 ≤ number ∧ number < 2 ^ 63 then some (numberValue number) else none := by
  have least : Int64.minValue.toInt = -2 ^ 63 := by decide
  have most : Int64.maxValue.toInt = 2 ^ 63 - 1 := by decide
  rw [checkedInt, least, most]
  exact if_congr (and_congr_right fun _ => Int.le_sub_one_iff) rfl rfl

/-- A number below zero is in range where the last one is not above it. -/
theorem below_zero {characters : List Char} :
    ((digitsNumber characters).bind fun number => checkedInt (-number)) =
      ((digitsNumber characters).bind fun number =>
        if -2 ^ 63 ≤ -number then some (-number) else none).map numberValue := by
  cases read : digitsNumber characters with
  | none => rfl
  | some number =>
      have low := digitsNumber_nonneg read
      rw [Option.bind_some, Option.bind_some, checkedInt_eq]
      by_cases small : -2 ^ 63 ≤ -number
      · rw [if_pos small, if_pos ⟨small, by omega⟩]
        rfl
      · rw [if_neg small, if_neg fun both => small both.1]
        rfl

theorem above_zero {characters : List Char} :
    (digitsNumber characters).bind checkedInt =
      ((digitsNumber characters).bind fun number =>
        if number < 2 ^ 63 then some number else none).map numberValue := by
  cases read : digitsNumber characters with
  | none => rfl
  | some number =>
      have low := digitsNumber_nonneg read
      rw [Option.bind_some, Option.bind_some, checkedInt_eq]
      by_cases small : number < 2 ^ 63
      · rw [if_pos small, if_pos ⟨by omega, small⟩]
        rfl
      · rw [if_neg small, if_neg fun both => small both.2]
        rfl

/-- A sign is no digit. -/
theorem digitsNumber_sign {sign : Char} (other : sign.isDigit = false) (rest : List Char) :
    digitsNumber (sign :: rest) = none := by
  rw [digitsNumber]
  · rw [List.all_cons, other, Bool.false_and, if_neg (by simp)]
  · exact List.cons_ne_nil _ _

theorem parseInt_minus {text : String} {rest : List Char}
    (shape : text.toList = '-' :: rest) :
    parseInt text = (digitsNumber rest).bind fun number => checkedInt (-number) := by
  rw [parseInt, shape]
  rfl

/-- A minus and a plus before a number that is in range below zero. -/
def SignedTwice (text : String) : Prop :=
  ∃ digits, text = "-+" ++ digits ∧ (parseInt ("-" ++ digits)).isSome = true

theorem signed_parts (digits : String) :
    ("-+" ++ digits).toList = '-' :: '+' :: digits.toList ∧
      ("-" ++ digits).toList = '-' :: digits.toList :=
  ⟨String.toList_append, String.toList_append⟩

/-- The minus is looked for first and the plus after it: a text with both is read. -/
theorem characterNumber_twice (digits : String) :
    (characterNumber ("-+" ++ digits).toList).map numberValue = parseInt ("-" ++ digits) := by
  rw [parseInt_minus (signed_parts digits).2, (signed_parts digits).1, below_zero]
  rfl

theorem parseInt_twice (digits : String) : parseInt ("-+" ++ digits) = none := by
  rw [parseInt_minus (signed_parts digits).1, digitsNumber_sign rfl]
  rfl

/-- With one sign or none, both read the same number. -/
theorem characterNumber_once {text : String}
    (once : ∀ rest, text.toList ≠ '-' :: '+' :: rest) :
    (characterNumber text.toList).map numberValue = parseInt text := by
  rw [parseInt]
  generalize text.toList = characters at once
  split
  · next rest =>
      rw [above_zero]
      rfl
  · next rest =>
      rw [characterNumber]
      have single : afterSign '+' (afterSign '-' ('-' :: rest)) = rest := by
        show afterSign '+' rest = rest
        apply if_neg
        intro plus
        cases rest with
        | nil => exact absurd plus (by simp)
        | cons first rest =>
            rw [List.head?_cons, Option.some_inj] at plus
            exact once rest (by rw [plus])
      rw [single, below_zero]
      rfl
  · next plus minus =>
      have unsigned : afterSign '-' characters = characters := by
        apply if_neg
        intro first
        cases characters with
        | nil => exact absurd first (by simp)
        | cons character rest =>
            rw [List.head?_cons, Option.some_inj] at first
            exact minus rest (by rw [first])
      have unsigned' : afterSign '+' characters = characters := by
        apply if_neg
        intro first
        cases characters with
        | nil => exact absurd first (by simp)
        | cons character rest =>
            rw [List.head?_cons, Option.some_inj] at first
            exact plus rest (by rw [first])
      have positive : characters.head? ≠ some '-' := by
        intro first
        cases characters with
        | nil => exact absurd first (by simp)
        | cons character rest =>
            rw [List.head?_cons, Option.some_inj] at first
            exact minus rest (by rw [first])
      rw [characterNumber, unsigned, unsigned', above_zero]
      simp only [positive, if_false]

/-- The compiled code reads what the interpreter reads, unless the text is signed twice. -/
theorem compiledNumber_once {text : String} (once : ¬SignedTwice text) :
    (compiledNumber (bytesOf text)).map numberValue = parseInt text := by
  rw [bytesOf_eq]
  show (compiledNumber (encode text.toList)).map numberValue = parseInt text
  rw [compiledNumber_encode]
  by_cases twice : ∃ rest, text.toList = '-' :: '+' :: rest
  · obtain ⟨rest, shape⟩ := twice
    have whole : text = "-+" ++ String.ofList rest := by
      rw [← String.toList_inj, (signed_parts _).1, String.toList_ofList, shape]
    rw [whole, characterNumber_twice, parseInt_twice]
    cases read : parseInt ("-" ++ String.ofList rest) with
    | none => rfl
    | some value => exact absurd ⟨_, whole, by rw [read]; rfl⟩ once
  · exact characterNumber_once fun rest shape => twice ⟨rest, shape⟩

/-- Of a text signed twice the compiled code reads a number and the interpreter none. -/
theorem compiledNumber_twice {text : String} (twice : SignedTwice text) :
    (∃ number, compiledNumber (bytesOf text) = some number) ∧ parseInt text = none := by
  obtain ⟨digits, rfl, read⟩ := twice
  rw [bytesOf_eq]
  constructor
  · show ∃ number, compiledNumber (encode ("-+" ++ digits).toList) = some number
    rw [compiledNumber_encode]
    have both := characterNumber_twice digits
    cases same : characterNumber ("-+" ++ digits).toList with
    | none =>
        rw [same] at both
        rw [← both] at read
        exact absurd read (by simp)
    | some number => exact ⟨number, rfl⟩
  · exact parseInt_twice digits

end Deed.Runtime
