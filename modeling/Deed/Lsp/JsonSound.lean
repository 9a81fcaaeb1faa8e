import Deed.Lsp.Json

/-!
# JSON read back

The parser ends on every text without running past its end, and it reads back what is written.
-/

namespace Deed.Lsp.Wire

open Deed.Lexer (isAsciiDigit toDigit)
open Deed.Library

/-! ## The parser ends -/

/-- A later state of the same parser: the position and what is left still add up. -/
structure Within (parser later : Parser) : Prop where
  shorter : later.rest.length ≤ parser.rest.length
  place : later.pos + later.rest.length = parser.pos + parser.rest.length

theorem Within.refl (parser : Parser) : Within parser parser := ⟨le_refl _, rfl⟩

theorem Within.trans {first second third : Parser} (one : Within first second)
    (two : Within second third) : Within first third :=
  ⟨two.shorter.trans one.shorter, two.place.trans one.place⟩

/-- What a call gives is later, or an error inside the text. -/
def Stays {α : Type} (parser : Parser) : Read α → Prop
  | .ok (_, later) => Within parser later
  | .error e => e.offset ≤ parser.pos + parser.rest.length

/-- A call ends, and stays inside the text. -/
def Ends {α : Type} (parser : Parser) (call : Option (Read α)) : Prop :=
  ∃ read, call = some read ∧ Stays parser read

section Calls

variable {α β : Type} {parser later : Parser}

theorem Within.stays {read : Read α} (within_ : Within parser later) (stays : Stays later read) :
    Stays parser read := by
  cases read with
  | ok read => exact within_.trans stays
  | error e => exact stays.trans within_.place.le

theorem Within.ends {call : Option (Read α)} (within_ : Within parser later)
    (ends : Ends later call) : Ends parser call :=
  ends.imp fun _ is_ => ⟨is_.1, within_.stays is_.2⟩

theorem Within.error (within_ : Within parser later) (message : Text) :
    Stays parser (Except.error (later.error message) : Read α) := by
  have place := within_.place
  show later.pos ≤ _
  omega

theorem ends_some {read : Read α} (stays : Stays parser read) : Ends parser (some read) :=
  ⟨read, rfl, stays⟩

theorem ends_andThen {call : Option (Read α)} {next : α → Parser → Option (Read β)}
    (ends : Ends parser call)
    (after : ∀ value later, Within parser later → Ends later (next value later)) :
    Ends parser (Parser.andThen call next) := by
  obtain ⟨read, rfl, stays⟩ := ends
  cases read with
  | error e => exact ⟨_, rfl, stays⟩
  | ok read => exact Within.ends stays (after read.1 read.2 stays)

theorem within_bump (parser : Parser) : Within parser parser.bump.2 := by
  obtain ⟨rest, pos⟩ := parser
  cases rest with
  | nil => exact .refl _
  | cons c rest =>
      refine ⟨Nat.le_succ _, ?_⟩
      show pos + 1 + rest.length = pos + (rest.length + 1)
      omega

theorem bump_shorter {c : Char} (found : parser.bump.1 = some c) :
    parser.bump.2.rest.length < parser.rest.length := by
  obtain ⟨rest, pos⟩ := parser
  cases rest with
  | nil => cases found
  | cons c rest => exact Nat.lt_succ_self _

theorem within_skipWhile (kind : Char → Bool) (parser : Parser) :
    Within parser (parser.skipWhile kind) := by
  have whole := congrArg List.length (List.takeWhile_append_dropWhile (p := kind)
    (l := parser.rest))
  rw [List.length_append] at whole
  constructor
  · show (parser.rest.dropWhile kind).length ≤ _
    omega
  · show parser.pos + _ + (parser.rest.dropWhile kind).length = _
    omega

theorem peek_filled {c : Char} (peeked : parser.peek = some c) : 0 < parser.rest.length := by
  obtain ⟨rest, pos⟩ := parser
  cases rest with
  | nil => cases peeked
  | cons c rest => exact Nat.succ_pos _

theorem stays_expect (expected : Char) (parser : Parser) : Stays parser (parser.expect expected) := by
  unfold Parser.expect
  split
  · exact within_bump parser
  · exact (Within.refl parser).error _

theorem expect_shorter {expected : Char} (found : parser.expect expected = .ok ((), later)) :
    later.rest.length < parser.rest.length := by
  unfold Parser.expect at found
  split at found
  · rename_i peeked
    cases found
    refine bump_shorter (c := expected) ?_
    obtain ⟨rest, pos⟩ := parser
    cases rest with
    | nil => cases peeked
    | cons c rest => exact peeked
  · cases found

theorem stays_literal (word : Text) (value : Json) (left : Text) (parser : Parser) :
    Stays parser (Parser.literalFrom word value left parser) := by
  induction left generalizing parser with
  | nil => exact .refl _
  | cons expected left ih =>
      unfold Parser.literalFrom
      simp only
      split
      · exact (within_bump parser).error _
      · exact (within_bump parser).stays (ih _)

theorem within_skipOne (kind : Char → Bool) (parser : Parser) :
    Within parser (parser.skipOne kind) := by
  unfold Parser.skipOne
  split
  · exact within_bump parser
  · exact .refl _

theorem within_skipMark (mark : Char → Bool) {after : Parser → Parser}
    (within_ : ∀ parser, Within parser (after parser)) (parser : Parser) :
    Within parser (parser.skipMark mark after) := by
  unfold Parser.skipMark
  split
  · exact (within_bump parser).trans (within_ _)
  · exact .refl _

theorem stays_number (parser : Parser) : Stays parser parser.number := by
  have digits := (within_skipOne (· == '-') parser).trans (within_skipWhile isAsciiDigit _)
  have fraction := digits.trans (within_skipMark (· == '.') (within_skipWhile isAsciiDigit) _)
  have power := fraction.trans (within_skipMark (fun c => c == 'e' || c == 'E')
    (fun parser => (within_skipOne (fun c => c == '+' || c == '-') parser).trans
      (within_skipWhile isAsciiDigit _)) _)
  unfold Parser.number
  simp only
  split
  · exact power
  · exact power.error _

theorem stays_hexDigits (count value : Nat) (parser : Parser) :
    Stays parser (Parser.hexDigits count value parser) := by
  induction count generalizing value parser with
  | zero => exact .refl _
  | succ count ih =>
      unfold Parser.hexDigits
      simp only
      split
      · exact (within_bump parser).error _
      · exact (within_bump parser).stays (ih _ _)

theorem stays_characterOf (code : Nat) (parser : Parser) :
    Stays parser (Parser.characterOf code parser) := by
  unfold Parser.characterOf
  split
  · exact .refl _
  · exact (Within.refl parser).error _

/-- The escape of a code, and of a second one after a high surrogate. -/
theorem unicodeEscape_eq {code : Nat} (high : Parser.hexDigits 4 0 parser = .ok (code, later)) :
    parser.unicodeEscape =
      if ¬(0xD800 ≤ code ∧ code < 0xDC00) then Parser.characterOf code later
      else if later.bump.1 ≠ some '\\' then
        .error (later.bump.2.error "a high surrogate needs a low one after it".toList)
      else if later.bump.2.bump.1 ≠ some 'u' then
        .error (later.bump.2.bump.2.error "a high surrogate needs a low one after it".toList)
      else (Parser.hexDigits 4 0 later.bump.2.bump.2).bind fun read =>
        if ¬(0xDC00 ≤ read.1 ∧ read.1 < 0xE000) then
          .error (read.2.error "expected a low surrogate".toList)
        else Parser.characterOf (0x10000 + (code - 0xD800) * 2 ^ 10 + (read.1 - 0xDC00)) read.2 := by
  unfold Parser.unicodeEscape
  rw [high]
  rfl

theorem stays_unicodeEscape (parser : Parser) : Stays parser parser.unicodeEscape := by
  have first := stays_hexDigits 4 0 parser
  cases high : Parser.hexDigits 4 0 parser with
  | error e =>
      rw [high] at first
      unfold Parser.unicodeEscape
      rw [high]
      exact first
  | ok read =>
      obtain ⟨code, later⟩ := read
      rw [high] at first
      have one := Within.trans first (within_bump later)
      have two := one.trans (within_bump _)
      rw [unicodeEscape_eq high]
      split
      · exact Within.stays first (stays_characterOf _ _)
      · split
        · exact one.error _
        · split
          · exact two.error _
          · have second := stays_hexDigits 4 0 later.bump.2.bump.2
            cases low : Parser.hexDigits 4 0 later.bump.2.bump.2 with
            | error e =>
                rw [low] at second
                exact two.stays second
            | ok read =>
                obtain ⟨code', last⟩ := read
                rw [low] at second
                have three : Within parser last := two.trans second
                rw [Except.bind]
                generalize 0x10000 + (code - 0xD800) * 2 ^ 10 + ((code', last).1 - 0xDC00) = whole
                split
                · exact three.error _
                · exact three.stays (stays_characterOf whole last)

theorem stays_escape (parser : Parser) : Stays parser parser.escape := by
  have one := within_bump parser
  unfold Parser.escape
  simp only
  split
  · exact one
  · exact one
  · exact one
  · exact one
  · exact one
  · exact one
  · exact one
  · exact one
  · exact one.stays (stays_unicodeEscape _)
  · exact one.error _

theorem ends_stringLoop {fuel : Nat} {parser : Parser} (out : Text)
    (enough : parser.rest.length + 1 ≤ fuel) : Ends parser (Parser.stringLoop fuel parser out) := by
  induction fuel generalizing parser out with
  | zero => omega
  | succ fuel ih =>
      have one := within_bump parser
      cases found : parser.bump.1 with
      | none =>
          have ended : Parser.stringLoop (fuel + 1) parser out =
              some (.error (parser.bump.2.error "unterminated string".toList)) := by
            unfold Parser.stringLoop
            simp only [found]
          rw [ended]
          exact ends_some (one.error _)
      | some c =>
          have shorter := bump_shorter found
          have escaped := stays_escape parser.bump.2
          unfold Parser.stringLoop
          simp only [found]
          split
          · cases ‹some c = none›
          · exact ends_some one
          · split
            · rename_i e is_
              rw [is_] at escaped
              exact ends_some (one.stays escaped)
            · rename_i character later is_
              rw [is_] at escaped
              have left := escaped.shorter
              exact (one.trans escaped).ends (ih _ (by omega))
          · exact one.ends (ih _ (by omega))

theorem ends_string {fuel : Nat} {parser : Parser} (enough : parser.rest.length + 1 ≤ fuel) :
    Ends parser (parser.string fuel) := by
  refine ends_andThen (ends_some (stays_expect _ _)) fun _ later within_ => ?_
  have shorter := within_.shorter
  exact ends_stringLoop [] (by omega)

/-- What a measure is enough for. -/
structure Enough (fuel : Nat) : Prop where
  value : ∀ parser : Parser, 3 * parser.rest.length + 1 ≤ fuel → Ends parser (parser.value fuel)
  array : ∀ parser : Parser, 3 * parser.rest.length ≤ fuel → 0 < fuel →
    Ends parser (parser.array fuel)
  arrayLoop : ∀ (parser : Parser) (items : List Json), 3 * parser.rest.length + 2 ≤ fuel →
    Ends parser (parser.arrayLoop fuel items)
  object : ∀ parser : Parser, 3 * parser.rest.length ≤ fuel → 0 < fuel →
    Ends parser (parser.object fuel)
  objectLoop : ∀ (parser : Parser) (fields : List (Text × Json)),
    3 * parser.rest.length + 2 ≤ fuel → Ends parser (parser.objectLoop fuel fields)

theorem enough (fuel : Nat) : Enough fuel := by
  induction fuel with
  | zero =>
      refine ⟨fun _ less => absurd less (by omega), fun _ _ none_ => absurd none_ (by omega),
        fun _ _ less => absurd less (by omega), fun _ _ none_ => absurd none_ (by omega),
        fun _ _ less => absurd less (by omega)⟩
  | succ fuel ih =>
      refine ⟨fun parser less => ?_, fun parser less _ => ?_, fun parser items less => ?_,
        fun parser less _ => ?_, fun parser fields less => ?_⟩
      · unfold Parser.value
        split
        · exact ends_some ((Within.refl _).error _)
        · exact ends_some (stays_literal _ _ _ _)
        · exact ends_some (stays_literal _ _ _ _)
        · exact ends_some (stays_literal _ _ _ _)
        · rename_i peeked
          have filled := peek_filled peeked
          exact ends_andThen (ends_string (by omega)) fun _ later _ =>
            ends_some (Within.refl later)
        · rename_i peeked
          have filled := peek_filled peeked
          exact ih.array _ (by omega) (by omega)
        · rename_i peeked
          have filled := peek_filled peeked
          exact ih.object _ (by omega) (by omega)
        · split
          · exact ends_some (stays_number _)
          · exact ends_some ((Within.refl _).error _)
      · unfold Parser.array
        cases opened : parser.expect '[' with
        | error e =>
            have stays := stays_expect '[' parser
            rw [opened] at stays
            exact ends_some stays
        | ok read =>
            obtain ⟨⟨⟩, later⟩ := read
            have shorter := expect_shorter opened
            have one := stays_expect '[' parser
            rw [opened] at one
            have two := within_skipWhile Parser.isSpace later
            have left := two.shorter
            have both : Within parser later.skipSpace := Within.trans one two
            show Ends parser (if _ then _ else _)
            split
            · exact ends_some (both.trans (within_bump _))
            · refine both.ends (ih.arrayLoop _ _ ?_)
              have left' : later.skipSpace.rest.length ≤ later.rest.length := left
              omega
      · unfold Parser.arrayLoop
        have one : Within parser parser.skipSpace := within_skipWhile _ _
        have left := one.shorter
        refine ends_andThen (one.ends (ih.value _ (by omega))) fun item later within_ => ?_
        have two : Within later later.skipSpace := within_skipWhile _ _
        have three := two.trans (within_bump _)
        have left' := two.shorter
        have left'' := within_.shorter
        simp only
        split
        · rename_i found
          have shorter := bump_shorter found
          exact three.ends (ih.arrayLoop _ _ (by omega))
        · split
          · exact ends_some three
          · exact ends_some (three.error _)
      · unfold Parser.object
        cases opened : parser.expect '{' with
        | error e =>
            have stays := stays_expect '{' parser
            rw [opened] at stays
            exact ends_some stays
        | ok read =>
            obtain ⟨⟨⟩, later⟩ := read
            have shorter := expect_shorter opened
            have one := stays_expect '{' parser
            rw [opened] at one
            have two := within_skipWhile Parser.isSpace later
            have left := two.shorter
            have both : Within parser later.skipSpace := Within.trans one two
            show Ends parser (if _ then _ else _)
            split
            · exact ends_some (both.trans (within_bump _))
            · refine both.ends (ih.objectLoop _ _ ?_)
              have left' : later.skipSpace.rest.length ≤ later.rest.length := left
              omega
      · unfold Parser.objectLoop
        have one : Within parser parser.skipSpace := within_skipWhile _ _
        have left := one.shorter
        refine ends_andThen (one.ends (ends_string (by omega))) fun name later within_ => ?_
        have two : Within later later.skipSpace := within_skipWhile _ _
        have left' := two.shorter
        have left'' := within_.shorter
        refine ends_andThen (two.ends (ends_some (stays_expect _ _))) fun _ after within_' => ?_
        have three : Within after after.skipSpace := within_skipWhile _ _
        have left3 := three.shorter
        have left_ := within_'.shorter
        refine ends_andThen (three.ends (ih.value _ (by omega))) fun found final within_'' => ?_
        have four : Within final final.skipSpace := within_skipWhile _ _
        have five := four.trans (within_bump _)
        have left4 := four.shorter
        have left5 := within_''.shorter
        simp only
        split
        · rename_i found
          have shorter := bump_shorter found
          exact five.ends (ih.objectLoop _ _ (by omega))
        · split
          · exact ends_some five
          · exact ends_some (five.error _)

end Calls

/-- The parser ends on every text, and an error is inside it. -/
theorem parse_ends (text : Text) : ∃ answer, parse text = some answer ∧
    ∀ e, answer = .error e → e.offset ≤ text.length := by
  have start : Within ⟨text, 0⟩ (Parser.skipSpace ⟨text, 0⟩) := within_skipWhile _ _
  have place : (Parser.mk text 0).pos + (Parser.mk text 0).rest.length = text.length :=
    Nat.zero_add _
  have left := start.shorter
  have small : (Parser.skipSpace ⟨text, 0⟩).rest.length ≤ text.length := left
  obtain ⟨read, is_, stays⟩ := start.ends ((enough (measure text.length)).value
    (Parser.skipSpace ⟨text, 0⟩) (by unfold measure; omega))
  unfold parse
  simp only [is_]
  refine ⟨_, rfl, fun e same => ?_⟩
  cases read with
  | error e' =>
      cases same
      exact stays.trans place.le
  | ok read =>
      obtain ⟨value, later⟩ := read
      have two : Within ⟨text, 0⟩ later.skipSpace := Within.trans stays (within_skipWhile _ _)
      have whole := two.place
      rw [place] at whole
      replace same : (if later.skipSpace.rest ≠ [] then
        .error (later.skipSpace.error "trailing text after the value".toList) else .ok value) =
          Except.error e := same
      split at same
      · cases same
        show later.skipSpace.pos ≤ _
        omega
      · cases same

/-! ## Strings are read back -/

theorem digitChar_hex : ∀ digit : Fin 16, toDigit (Nat.digitChar digit) 16 = some digit.val := by
  decide

theorem charFromU32_toNat (c : Char) : Parser.charFromU32 c.toNat = some c := by
  rw [Parser.charFromU32, if_pos (show c.toNat.isValidChar from c.valid)]
  exact congrArg some (Char.ofNat_toNat c)

/-- Four digits of a small code are read as it. -/
theorem hexDigits_hex4 {code : Nat} (small : code < 0x20) (rest : Text) (pos : Nat) :
    Parser.hexDigits 4 0 ⟨hex4 code ++ rest, pos⟩ = .ok (code, ⟨rest, pos + 4⟩) := by
  have high := digitChar_hex ⟨code / 16, by omega⟩
  have low := digitChar_hex ⟨code % 16, Nat.mod_lt _ (by decide)⟩
  simp only at high low
  have nought : toDigit '0' 16 = some 0 := rfl
  have whole : ((0 * 16 + 0) * 16 + 0) * 16 * 16 + code / 16 * 16 + code % 16 = code := by omega
  simp only [hex4, List.cons_append, List.nil_append, Parser.hexDigits, Parser.bump,
    Option.bind_some, nought, high, low]
  have same : (((0 * 16 + 0) * 16 + 0) * 16 + code / 16) * 16 + code % 16 = code := by omega
  rw [same]

theorem stringLoop_escaped {c : Char} {rest : Text} {pos : Nat} {later : Parser} (fuel : Nat)
    (out : Text) (escaped : Parser.escape ⟨rest, pos + 1⟩ = .ok (c, later)) :
    Parser.stringLoop (fuel + 1) ⟨'\\' :: rest, pos⟩ out =
      Parser.stringLoop fuel later (out ++ [c]) := by
  rw [Parser.stringLoop]
  simp only [Parser.bump]
  rw [escaped]

/-- A written character is read as it. -/
theorem stringLoop_writeChar (c : Char) (fuel pos : Nat) (rest out : Text) :
    ∃ pos', Parser.stringLoop (fuel + 1) ⟨writeChar c ++ rest, pos⟩ out =
      Parser.stringLoop fuel ⟨rest, pos'⟩ (out ++ [c]) := by
  by_cases quote : c = '"'
  · subst quote
    exact ⟨pos + 2, rfl⟩
  by_cases backslash : c = '\\'
  · subst backslash
    exact ⟨pos + 2, rfl⟩
  by_cases newline : c = '\n'
  · subst newline
    exact ⟨pos + 2, rfl⟩
  by_cases carriage : c = '\r'
  · subst carriage
    exact ⟨pos + 2, rfl⟩
  by_cases tab : c = '\t'
  · subst tab
    exact ⟨pos + 2, rfl⟩
  rw [writeChar, if_neg quote, if_neg backslash, if_neg newline, if_neg carriage, if_neg tab]
  by_cases small : c.toNat < 0x20
  · rw [if_pos small]
    have read := hexDigits_hex4 small rest (pos + 1 + 1)
    have escaped : Parser.escape ⟨'u' :: hex4 c.toNat ++ rest, pos + 1⟩ =
        .ok (c, ⟨rest, pos + 1 + 1 + 4⟩) := by
      show Parser.unicodeEscape ⟨hex4 c.toNat ++ rest, pos + 1 + 1⟩ = _
      rw [unicodeEscape_eq read, if_pos (by omega), Parser.characterOf, charFromU32_toNat]
    exact ⟨pos + 1 + 1 + 4, stringLoop_escaped fuel out escaped⟩
  · rw [if_neg small]
    refine ⟨pos + 1, ?_⟩
    rw [Parser.stringLoop]
    simp only [List.singleton_append, Parser.bump]

theorem stringLoop_write (value : Text) : ∀ (fuel pos : Nat) (rest out : Text),
    value.length + 1 ≤ fuel →
    ∃ pos', Parser.stringLoop fuel ⟨value.flatMap writeChar ++ '"' :: rest, pos⟩ out =
      some (.ok (out ++ value, ⟨rest, pos'⟩)) := by
  induction value with
  | nil =>
      intro fuel pos rest out enough
      obtain ⟨fuel, rfl⟩ := Nat.exists_eq_succ_of_ne_zero (show fuel ≠ 0 by omega)
      rw [List.append_nil]
      exact ⟨pos + 1, rfl⟩
  | cons c value ih =>
      intro fuel pos rest out enough
      rw [List.length_cons] at enough
      obtain ⟨fuel, rfl⟩ := Nat.exists_eq_succ_of_ne_zero (show fuel ≠ 0 by omega)
      rw [List.flatMap_cons, List.append_assoc]
      obtain ⟨pos', one⟩ := stringLoop_writeChar c fuel pos (value.flatMap writeChar ++ '"' :: rest) out
      obtain ⟨pos'', others⟩ := ih fuel pos' rest (out ++ [c]) (by omega)
      refine ⟨pos'', one.trans (others.trans ?_)⟩
      rw [List.append_assoc]
      rfl

/-- A written string is read back. -/
theorem string_write (value : Text) (fuel : Nat) (enough : value.length + 1 ≤ fuel) (pos : Nat)
    (rest : Text) : ∃ pos', Parser.string fuel ⟨writeString value ++ rest, pos⟩ =
      some (.ok (value, ⟨rest, pos'⟩)) := by
  obtain ⟨pos', read⟩ := stringLoop_write value fuel (pos + 1) rest [] enough
  refine ⟨pos', ?_⟩
  have split : writeString value ++ rest = '"' :: (value.flatMap writeChar ++ '"' :: rest) := by
    rw [writeString, List.append_assoc, List.cons_append, List.singleton_append]
  rw [split]
  exact read

theorem length_writeString (value : Text) : value.length + 2 ≤ (writeString value).length := by
  have each : ∀ c, 1 ≤ (writeChar c).length := by
    intro c
    unfold writeChar
    split
    · decide
    · split
      · decide
      · split
        · decide
        · split
          · decide
          · split
            · decide
            · split
              · exact Nat.succ_pos _
              · exact le_refl _
  have all : value.length ≤ (value.flatMap writeChar).length := by
    induction value with
    | nil => exact le_refl _
    | cons c value ih =>
        have one := each c
        rw [List.flatMap_cons, List.length_append, List.length_cons]
        omega
  rw [writeString, List.length_append, List.length_cons, List.length_singleton]
  omega

/-! ## Numbers are read back -/

theorem digitChar_ten : ∀ digit : Fin 10, toDigit (Nat.digitChar digit) 10 = some digit.val ∧
    isAsciiDigit (Nat.digitChar digit) = true := by
  decide

theorem toDigits_concat {n : Nat} (large : 10 ≤ n) :
    Nat.toDigits 10 n = Nat.toDigits 10 (n / 10) ++ [Nat.digitChar (n % 10)] :=
  Nat.toDigits_of_base_le (by decide) large

theorem natural_toDigits (n : Nat) : natural (Nat.toDigits 10 n) = n := by
  induction n using Nat.strong_induction_on with
  | _ n ih =>
      rcases Nat.lt_or_ge n 10 with small | large
      · rw [Nat.toDigits_of_lt_base small, natural, List.foldl_cons, List.foldl_nil,
          (digitChar_ten ⟨n, small⟩).1]
        exact (congrArg (· + n) (Nat.zero_mul 10)).trans (Nat.zero_add n)
      · have front := ih (n / 10) (by omega)
        have last := (digitChar_ten ⟨n % 10, Nat.mod_lt _ (by decide)⟩).1
        simp only at last
        unfold natural at front
        rw [toDigits_concat large, natural, List.foldl_append, front, List.foldl_cons,
          List.foldl_nil, last, Option.getD_some]
        omega

theorem isAsciiDigit_toDigits (n : Nat) : ∀ c ∈ Nat.toDigits 10 n, isAsciiDigit c = true := by
  induction n using Nat.strong_induction_on with
  | _ n ih =>
      rcases Nat.lt_or_ge n 10 with small | large
      · rw [Nat.toDigits_of_lt_base small]
        exact List.forall_mem_singleton.mpr (digitChar_ten ⟨n, small⟩).2
      · rw [toDigits_concat large]
        exact List.forall_mem_append.mpr ⟨ih _ (by omega), List.forall_mem_singleton.mpr
          (digitChar_ten ⟨n % 10, Nat.mod_lt _ (by decide)⟩).2⟩

theorem digit_ne {c : Char} (digit : isAsciiDigit c = true) :
    c ≠ '-' ∧ c ≠ '+' ∧ c ≠ ' ' ∧ c ≠ '.' ∧ Parser.isSpace c = false := by
  have low : '0'.toNat ≤ c.toNat := by
    rw [isAsciiDigit, Bool.and_eq_true, decide_eq_true_eq] at digit
    exact digit.1
  have other (d : Char) (less : d.toNat < '0'.toNat) : c ≠ d := fun same => by
    rw [same] at low
    omega
  refine ⟨other _ (by decide), other _ (by decide), other _ (by decide), other _ (by decide), ?_⟩
  rw [Parser.isSpace, beq_eq_false_iff_ne.mpr (other ' ' (by decide)),
    beq_eq_false_iff_ne.mpr (other '\t' (by decide)),
    beq_eq_false_iff_ne.mpr (other '\n' (by decide)),
    beq_eq_false_iff_ne.mpr (other '\r' (by decide))]
  rfl

/-- The digits of a number, and its first digit. -/
theorem toDigits_cons (n : Nat) : ∃ c rest, Nat.toDigits 10 n = c :: rest ∧
    isAsciiDigit c = true ∧ ∀ d ∈ rest, isAsciiDigit d = true := by
  obtain ⟨c, rest, same⟩ := List.exists_cons_of_ne_nil (Nat.toDigits_ne_nil (n := n) (b := 10))
  have digits := isAsciiDigit_toDigits n
  rw [same, List.forall_mem_cons] at digits
  exact ⟨c, rest, same, digits⟩

theorem takeWhile_all {kind : Char → Bool} {list : Text} (all : ∀ c ∈ list, kind c = true) :
    list.takeWhile kind = list ∧ list.dropWhile kind = [] :=
  ⟨List.takeWhile_eq_self_iff.mpr all, List.dropWhile_eq_nil_iff.mpr all⟩

/-- The number that digits with a sign are read as. -/
theorem parseF64_decimal (n : Int) :
    parseF64 (decimal n) = some (nearest (decide (n < 0)) n.natAbs) := by
  obtain ⟨c, rest, same, digit, digits⟩ := toDigits_cons n.natAbs
  have all : ∀ d ∈ c :: rest, isAsciiDigit d = true := List.forall_mem_cons.mpr ⟨digit, digits⟩
  have read := natural_toDigits n.natAbs
  rw [same] at read
  have whole : ((natural (c :: rest ++ []) : ℚ) * (10 : ℚ) ^ ((0 : ℤ) - (([] : Text).length : ℤ)) : ℚ) =
      n.natAbs := by
    rw [List.append_nil, read]
    simp
  by_cases negative : n < 0
  · rw [decimal, if_pos negative, same, decide_eq_true negative]
    unfold parseF64
    simp only [signed, takeWhile_all all]
    rw [if_neg (by exact fun never => nomatch never.1), Option.map_some]
    exact congrArg (fun q => some (nearest true q)) whole
  · rw [decimal, if_neg negative, same, decide_eq_false negative]
    obtain ⟨minus, plus, -⟩ := digit_ne digit
    have sign : signed (c :: rest) = (false, c :: rest) :=
      signed.eq_3 _ (fun _ same => minus (List.cons.inj same).1)
        fun _ same => plus (List.cons.inj same).1
    unfold parseF64
    simp only [sign, takeWhile_all all]
    rw [if_neg (by exact fun never => nomatch never.1), Option.map_some]
    exact congrArg (fun q => some (nearest false q)) whole

/-- What may follow a value that is written. -/
def Follows (tail : Text) : Prop := ∀ c ∈ tail.head?, c = ',' ∨ c = ']' ∨ c = '}'

theorem Follows.other {tail : Text} (follows : Follows tail) (kind : Char → Bool)
    (none_ : kind ',' = false ∧ kind ']' = false ∧ kind '}' = false) :
    tail.head?.any kind = false ∧ tail.takeWhile kind = [] ∧ tail.dropWhile kind = tail := by
  cases tail with
  | nil => exact ⟨rfl, rfl, rfl⟩
  | cons c tail =>
      have not_ : kind c = false := by
        rcases follows c rfl with rfl | rfl | rfl
        · exact none_.1
        · exact none_.2.1
        · exact none_.2.2
      exact ⟨not_, List.takeWhile_cons_of_neg (by rw [not_]; decide),
        List.dropWhile_cons_of_neg (by rw [not_]; decide)⟩

theorem skipWhile_digits {digits tail : Text} (all : ∀ c ∈ digits, isAsciiDigit c = true)
    (follows : Follows tail) (pos : Nat) :
    Parser.skipWhile isAsciiDigit ⟨digits ++ tail, pos⟩ = ⟨tail, pos + digits.length⟩ := by
  obtain ⟨-, none_, kept⟩ := follows.other isAsciiDigit (by decide)
  rw [Parser.skipWhile]
  simp only
  rw [List.dropWhile_append_of_pos all, kept, List.takeWhile_append_of_pos all, none_,
    List.append_nil]

theorem skipMark_follows {tail : Text} (follows : Follows tail) {mark : Char → Bool}
    (none_ : mark ',' = false ∧ mark ']' = false ∧ mark '}' = false)
    (after : Parser → Parser) (pos : Nat) :
    Parser.skipMark mark after ⟨tail, pos⟩ = ⟨tail, pos⟩ := by
  rw [Parser.skipMark, Parser.peek, (follows.other mark none_).1]
  rfl

/-- The sign and the digits of a number are passed over. -/
theorem skip_decimal (n : Int) {tail : Text} (follows : Follows tail) (pos : Nat) :
    ((Parser.skipOne (· == '-') ⟨decimal n ++ tail, pos⟩).skipWhile isAsciiDigit) =
      ⟨tail, pos + (decimal n).length⟩ := by
  have all := isAsciiDigit_toDigits n.natAbs
  rw [decimal]
  split
  · have minus : Parser.skipOne (· == '-') ⟨'-' :: Nat.toDigits 10 n.natAbs ++ tail, pos⟩ =
        ⟨Nat.toDigits 10 n.natAbs ++ tail, pos + 1⟩ := rfl
    rw [minus, skipWhile_digits all follows, List.length_cons]
    congr 1
    omega
  · have none_ : Parser.skipOne (· == '-') ⟨Nat.toDigits 10 n.natAbs ++ tail, pos⟩ =
        ⟨Nat.toDigits 10 n.natAbs ++ tail, pos⟩ := by
      obtain ⟨c, rest, same, digit, -⟩ := toDigits_cons n.natAbs
      rw [same]
      refine if_neg ?_
      show ¬((c == '-') = true)
      rw [beq_iff_eq]
      exact (digit_ne digit).1
    rw [none_, skipWhile_digits all follows]

/-- A written integer is read as the number nearest to it. -/
theorem number_decimal (n : Int) {tail : Text} (follows : Follows tail) (pos : Nat) :
    ∃ pos', Parser.number ⟨decimal n ++ tail, pos⟩ =
      .ok (.number (nearest (decide (n < 0)) n.natAbs), ⟨tail, pos'⟩) := by
  refine ⟨pos + (decimal n).length, ?_⟩
  unfold Parser.number
  simp only
  rw [skip_decimal n follows, skipMark_follows follows (by decide),
    skipMark_follows follows (by decide)]
  simp only
  rw [Nat.add_sub_cancel_left, List.take_left, parseF64_decimal]

/-! ## Values are read back -/

/-- The numbers of a value are integers of no more than 53 bits. -/
inductive Fine : Json → Prop where
  | null : Fine .null
  | bool (value : Bool) : Fine (.bool value)
  | number {value : Double} {n : Int} : value.IsInt n → n.natAbs ≤ 2 ^ 53 → Fine (.number value)
  | string (value : Text) : Fine (.string value)
  | array {items : List Json} : (∀ item ∈ items, Fine item) → Fine (.array items)
  | object {fields : List (Text × Json)} : (∀ field ∈ fields, Fine field.2) → Fine (.object fields)

section Values

variable (display : Double → Text)

theorem writeNumber_eq {value : Double} {n : Int} (is_ : value.IsInt n) (small : n.natAbs ≤ 2 ^ 53) :
    writeNumber display value = decimal n := by
  rw [writeNumber, if_pos is_.whole, is_.toInt64 (by omega) (by omega),
    Int64.toInt_ofInt_of_le (by omega) (by omega)]

theorem decimal_cons (n : Int) : ∃ c rest, decimal n = c :: rest ∧
    (c = '-' ∨ isAsciiDigit c = true) := by
  rw [decimal]
  split
  · exact ⟨_, _, rfl, .inl rfl⟩
  · obtain ⟨c, rest, same, digit, -⟩ := toDigits_cons n.natAbs
    exact ⟨c, rest, same, .inr digit⟩

/-- What a written value begins with. -/
theorem write_cons {json : Json} (fine : Fine json) : ∃ c rest, write display json = c :: rest ∧
    Parser.isSpace c = false ∧ c ≠ ']' := by
  cases fine with
  | null => exact ⟨_, _, rfl, by decide, by decide⟩
  | bool value => cases value <;> exact ⟨_, _, rfl, by decide, by decide⟩
  | number is_ small =>
      obtain ⟨c, rest, same, sign | digit⟩ := decimal_cons _
      · exact ⟨c, rest, (writeNumber_eq display is_ small).trans same, by rw [sign]; decide,
          by rw [sign]; decide⟩
      · refine ⟨c, rest, (writeNumber_eq display is_ small).trans same, (digit_ne digit).2.2.2.2,
          fun bracket => ?_⟩
        rw [bracket] at digit
        exact absurd digit (by decide)
  | string value => exact ⟨_, _, rfl, by decide, by decide⟩
  | array => exact ⟨_, _, rfl, by decide, by decide⟩
  | object => exact ⟨_, _, rfl, by decide, by decide⟩

theorem skipSpace_cons {c : Char} (solid : Parser.isSpace c = false) (rest : Text) (pos : Nat) :
    Parser.skipSpace ⟨c :: rest, pos⟩ = ⟨c :: rest, pos⟩ := by
  have plain : ¬Parser.isSpace c = true := by
    rw [solid]
    exact Bool.false_ne_true
  rw [Parser.skipSpace, Parser.skipWhile]
  simp only
  rw [List.dropWhile_cons_of_neg plain, List.takeWhile_cons_of_neg plain]
  rfl

theorem value_number {fuel : Nat} {c : Char} {rest : Text} {pos : Nat}
    (first : c = '-' ∨ isAsciiDigit c = true) :
    Parser.value (fuel + 1) ⟨c :: rest, pos⟩ = some (Parser.number ⟨c :: rest, pos⟩) := by
  have other (d : Char) (not_ : ¬(d = '-' ∨ isAsciiDigit d = true)) : c ≠ d :=
    fun same => not_ (same ▸ first)
  rw [Parser.value]
  simp only [Parser.peek, List.head?_cons]
  split
  · cases ‹some c = none›
  · exact absurd (Option.some.inj ‹_›) (other _ (by decide))
  · exact absurd (Option.some.inj ‹_›) (other _ (by decide))
  · exact absurd (Option.some.inj ‹_›) (other _ (by decide))
  · exact absurd (Option.some.inj ‹_›) (other _ (by decide))
  · exact absurd (Option.some.inj ‹_›) (other _ (by decide))
  · exact absurd (Option.some.inj ‹_›) (other _ (by decide))
  · rename_i same
    rw [← Option.some.inj same, if_pos first]

/-- A written value is read back, whatever stands behind it. -/
def Returns (json : Json) : Prop :=
  ∀ fuel pos tail, Follows tail → 3 * (write display json).length + 1 ≤ fuel →
    ∃ json' pos', Parser.value fuel ⟨write display json ++ tail, pos⟩ =
      some (.ok (json', ⟨tail, pos'⟩)) ∧ same json' json = true

variable {display}

theorem skipSpace_write {json : Json} (fine : Fine json) (tail : Text) (pos : Nat) :
    Parser.skipSpace ⟨write display json ++ tail, pos⟩ = ⟨write display json ++ tail, pos⟩ := by
  obtain ⟨c, rest, same, solid, -⟩ := write_cons display fine
  rw [same]
  exact skipSpace_cons solid _ pos

theorem skipSpace_follows {tail : Text} (follows : Follows tail) (pos : Nat) :
    Parser.skipSpace ⟨tail, pos⟩ = ⟨tail, pos⟩ := by
  obtain ⟨-, none_, kept⟩ := follows.other Parser.isSpace (by decide)
  rw [Parser.skipSpace, Parser.skipWhile]
  simp only
  rw [none_, kept]
  rfl

/-- The items of an array are read up to its bracket. -/
theorem arrayLoop_write (items : List Json) : ∀ (fuel pos : Nat) (tail : Text) (before : List Json),
    items ≠ [] → (∀ item ∈ items, Fine item) → (∀ item ∈ items, Returns display item) →
    3 * (writeItems display false items).length + 2 ≤ fuel →
    ∃ items' pos', Parser.arrayLoop fuel ⟨writeItems display false items ++ ']' :: tail, pos⟩ before =
      some (.ok (.array (before ++ items'), ⟨tail, pos'⟩)) ∧ sameItems items' items = true := by
  induction items with
  | nil => exact fun _ _ _ _ some_ => absurd rfl some_
  | cons item items ih =>
      intro fuel pos tail before _ fine returns enough
      obtain ⟨fuel, rfl⟩ := Nat.exists_eq_succ_of_ne_zero (show fuel ≠ 0 by omega)
      rw [List.forall_mem_cons] at fine returns
      have front : writeItems display false (item :: items) =
          write display item ++ writeItems display true items := rfl
      rw [front] at enough ⊢
      rw [List.length_append] at enough
      rw [List.append_assoc, Parser.arrayLoop, skipSpace_write fine.1]
      match items with
      | [] =>
          obtain ⟨json', pos', read, equal⟩ := returns.1 fuel pos (']' :: tail)
            (fun c there => .inr (.inl (Option.some.inj there).symm)) (by omega)
          refine ⟨[json'], pos' + 1, ?_, ?_⟩
          · rw [writeItems, List.nil_append, read]
            rfl
          · rw [sameItems, equal]
            rfl
      | next :: items =>
          have comma : writeItems display true (next :: items) =
              ',' :: writeItems display false (next :: items) := rfl
          rw [comma, List.length_cons] at enough
          rw [comma]
          obtain ⟨json', pos', read, equal⟩ := returns.1 fuel pos
            (',' :: writeItems display false (next :: items) ++ ']' :: tail)
            (fun c there => .inl (Option.some.inj there).symm) (by omega)
          obtain ⟨items', pos'', others, equals⟩ := ih fuel (pos' + 1) tail (before ++ [json'])
            (List.cons_ne_nil _ _) fine.2 returns.2 (by omega)
          refine ⟨json' :: items', pos'', ?_, ?_⟩
          · rw [read, List.append_cons before json' items']
            exact others
          · rw [sameItems, equal, equals]
            rfl

/-- A field is read up to the mark behind it. -/
theorem objectLoop_field {json : Json} (fine : Fine json) (returns : Returns display json)
    (name : Text) (fuel pos : Nat) (tail : Text) (follows : Follows tail)
    (before : List (Text × Json)) (enough : name.length + 1 ≤ fuel)
    (enough' : 3 * (write display json).length + 1 ≤ fuel) :
    ∃ json' pos', same json' json = true ∧
      Parser.objectLoop (fuel + 1)
        ⟨writeString name ++ ':' :: (write display json ++ tail), pos⟩ before =
      if (Parser.bump ⟨tail, pos'⟩).1 = some ',' then
        Parser.objectLoop fuel (Parser.bump ⟨tail, pos'⟩).2 (before ++ [(name, json')])
      else if (Parser.bump ⟨tail, pos'⟩).1 = some '}' then
        some (.ok (.object (before ++ [(name, json')]), (Parser.bump ⟨tail, pos'⟩).2))
      else some (.error ((Parser.bump ⟨tail, pos'⟩).2.error "expected `,` or `\x7d`".toList)) := by
  obtain ⟨after, named⟩ := string_write name fuel enough pos (':' :: (write display json ++ tail))
  obtain ⟨json', pos', read, equal⟩ := returns fuel (after + 1) tail follows enough'
  refine ⟨json', pos', equal, ?_⟩
  have quote : Parser.skipSpace ⟨writeString name ++ ':' :: (write display json ++ tail), pos⟩ =
      ⟨writeString name ++ ':' :: (write display json ++ tail), pos⟩ :=
    skipSpace_cons (c := '"') (by decide) _ pos
  have colon : (Parser.skipSpace ⟨':' :: (write display json ++ tail), after⟩).expect ':' =
      .ok ((), ⟨write display json ++ tail, after + 1⟩) := by
    rw [skipSpace_cons (by decide)]
    rfl
  rw [Parser.objectLoop, quote, named]
  simp only [Parser.andThen]
  rw [colon]
  simp only
  rw [skipSpace_write fine, read]
  simp only
  rw [skipSpace_follows follows]

/-- The fields of an object are read up to its brace. -/
theorem objectLoop_write (fields : List (Text × Json)) : ∀ (fuel pos : Nat) (tail : Text)
    (before : List (Text × Json)), fields ≠ [] → (∀ field ∈ fields, Fine field.2) →
    (∀ field ∈ fields, Returns display field.2) →
    3 * (writeFields display false fields).length + 2 ≤ fuel →
    ∃ fields' pos', Parser.objectLoop fuel ⟨writeFields display false fields ++ '}' :: tail, pos⟩ before =
      some (.ok (.object (before ++ fields'), ⟨tail, pos'⟩)) ∧ sameFields fields' fields = true := by
  induction fields with
  | nil => exact fun _ _ _ _ some_ => absurd rfl some_
  | cons field fields ih =>
      intro fuel pos tail before _ fine returns enough
      obtain ⟨name, json⟩ := field
      obtain ⟨fuel, rfl⟩ := Nat.exists_eq_succ_of_ne_zero (show fuel ≠ 0 by omega)
      rw [List.forall_mem_cons] at fine returns
      have front : writeFields display false ((name, json) :: fields) =
          writeString name ++ ':' :: write display json ++ writeFields display true fields := rfl
      have long := length_writeString name
      rw [front] at enough ⊢
      rw [List.length_append, List.length_append, List.length_cons] at enough
      have apart (rest : Text) : writeString name ++ ':' :: write display json ++
          writeFields display true fields ++ rest =
          writeString name ++ ':' :: (write display json ++
            (writeFields display true fields ++ rest)) := by
        rw [List.append_assoc, List.append_assoc, List.cons_append]
      rw [apart]
      simp only at fine returns
      match fields with
      | [] =>
          obtain ⟨json', pos', equal, read⟩ := objectLoop_field fine.1 returns.1 name fuel
            pos ('}' :: tail) (fun c there => .inr (.inr (Option.some.inj there).symm)) before
            (by omega) (by omega)
          refine ⟨[(name, json')], pos' + 1, ?_, ?_⟩
          · rw [writeFields, List.nil_append, read]
            rfl
          · rw [sameFields, equal, beq_self_eq_true]
            rfl
      | next :: fields =>
          have comma : writeFields display true (next :: fields) =
              ',' :: writeFields display false (next :: fields) := rfl
          rw [comma, List.length_cons] at enough
          rw [comma]
          obtain ⟨json', pos', equal, read⟩ := objectLoop_field fine.1 returns.1 name fuel
            pos (',' :: writeFields display false (next :: fields) ++ '}' :: tail)
            (fun c there => .inl (Option.some.inj there).symm) before (by omega) (by omega)
          obtain ⟨fields', pos'', others, equals⟩ := ih fuel (pos' + 1) tail
            (before ++ [(name, json')]) (List.cons_ne_nil _ _) fine.2 returns.2 (by omega)
          refine ⟨(name, json') :: fields', pos'', ?_, ?_⟩
          · rw [read, List.append_cons before (name, json') fields']
            exact others
          · rw [sameFields, equal, equals, beq_self_eq_true]
            rfl

/-- Every value is read back. -/
theorem returns_of_fine {json : Json} (fine : Fine json) : Returns display json := by
  induction fine with
  | null =>
      intro fuel pos tail _ enough
      obtain ⟨fuel, rfl⟩ := Nat.exists_eq_succ_of_ne_zero (show fuel ≠ 0 by omega)
      exact ⟨.null, pos + 4, rfl, rfl⟩
  | bool value =>
      intro fuel pos tail _ enough
      obtain ⟨fuel, rfl⟩ := Nat.exists_eq_succ_of_ne_zero (show fuel ≠ 0 by omega)
      cases value with
      | true => exact ⟨.bool true, pos + 4, rfl, rfl⟩
      | false => exact ⟨.bool false, pos + 5, rfl, rfl⟩
  | @number value n is_ small =>
      intro fuel pos tail follows enough
      obtain ⟨fuel, rfl⟩ := Nat.exists_eq_succ_of_ne_zero (show fuel ≠ 0 by omega)
      have written : write display (.number value) = decimal n :=
        writeNumber_eq display is_ small
      obtain ⟨c, rest, front, first⟩ := decimal_cons n
      obtain ⟨pos', read⟩ := number_decimal n follows pos
      refine ⟨.number (nearest (decide (n < 0)) n.natAbs), pos', ?_, ?_⟩
      · rw [written, front, List.cons_append, value_number first, ← List.cons_append, ← front, read]
      · have near := nearest_isInt small (decide (n < 0))
        have whole : (if decide (n < 0) = true then -(n.natAbs : ℤ) else n.natAbs) = n := by
          by_cases negative : n < 0
          · rw [decide_eq_true negative, if_pos rfl]
            omega
          · rw [decide_eq_false negative, if_neg Bool.false_ne_true]
            omega
        rw [whole] at near
        rw [same]
        exact near.equal is_
  | string value =>
      intro fuel pos tail _ enough
      obtain ⟨fuel, rfl⟩ := Nat.exists_eq_succ_of_ne_zero (show fuel ≠ 0 by omega)
      have long := length_writeString value
      have written : write display (.string value) = writeString value := rfl
      rw [written] at enough ⊢
      obtain ⟨pos', read⟩ := string_write value fuel (by omega) pos tail
      refine ⟨.string value, pos', ?_, by rw [same, beq_self_eq_true]⟩
      show Parser.andThen (Parser.string fuel ⟨writeString value ++ tail, pos⟩) _ = _
      rw [read]
      rfl
  | @array items fine ih =>
      intro fuel pos tail _ enough
      have written : write display (.array items) ++ tail =
          '[' :: (writeItems display false items ++ ']' :: tail) := by
        rw [write, List.append_assoc]
        rfl
      have size : (write display (.array items)).length =
          (writeItems display false items).length + 2 := by
        rw [write, List.length_append]
        rfl
      rw [size] at enough
      obtain ⟨fuel, rfl⟩ := Nat.exists_eq_add_of_le' (show 2 ≤ fuel by omega)
      rw [written]
      show ∃ json' pos', (if (Parser.skipSpace ⟨writeItems display false items ++ ']' :: tail,
          pos + 1⟩).peek = some ']' then
        some (.ok (.array [], (Parser.skipSpace ⟨writeItems display false items ++ ']' :: tail,
          pos + 1⟩).bump.2))
        else Parser.arrayLoop fuel (Parser.skipSpace
          ⟨writeItems display false items ++ ']' :: tail, pos + 1⟩) []) = _ ∧ _
      match items with
      | [] => exact ⟨.array [], pos + 2, rfl, rfl⟩
      | item :: items =>
          obtain ⟨c, rest, front, solid, other⟩ := write_cons display (fine item List.mem_cons_self)
          have head : writeItems display false (item :: items) ++ ']' :: tail =
              c :: (rest ++ writeItems display true items ++ ']' :: tail) := by
            rw [writeItems, front]
            rfl
          obtain ⟨items', pos', read, equal⟩ := arrayLoop_write (item :: items) fuel (pos + 1) tail []
            (List.cons_ne_nil _ _) fine ih (by omega)
          refine ⟨.array items', pos', ?_, equal⟩
          rw [head] at read ⊢
          rw [skipSpace_cons solid]
          exact (if_neg fun bracket => other (Option.some.inj bracket)).trans read
  | @object fields fine ih =>
      intro fuel pos tail _ enough
      have written : write display (.object fields) ++ tail =
          '{' :: (writeFields display false fields ++ '}' :: tail) := by
        rw [write, List.append_assoc]
        rfl
      have size : (write display (.object fields)).length =
          (writeFields display false fields).length + 2 := by
        rw [write, List.length_append]
        rfl
      rw [size] at enough
      obtain ⟨fuel, rfl⟩ := Nat.exists_eq_add_of_le' (show 2 ≤ fuel by omega)
      rw [written]
      show ∃ json' pos', (if (Parser.skipSpace ⟨writeFields display false fields ++ '}' :: tail,
          pos + 1⟩).peek = some '}' then
        some (.ok (.object [], (Parser.skipSpace ⟨writeFields display false fields ++ '}' :: tail,
          pos + 1⟩).bump.2))
        else Parser.objectLoop fuel (Parser.skipSpace
          ⟨writeFields display false fields ++ '}' :: tail, pos + 1⟩) []) = _ ∧ _
      match fields with
      | [] => exact ⟨.object [], pos + 2, rfl, rfl⟩
      | (name, json) :: fields =>
          have head : writeFields display false ((name, json) :: fields) ++ '}' :: tail =
              '"' :: (name.flatMap writeChar ++ ['"'] ++ ':' :: write display json ++
                writeFields display true fields ++ '}' :: tail) := by
            rw [writeFields, writeString]
            rfl
          obtain ⟨fields', pos', read, equal⟩ := objectLoop_write ((name, json) :: fields) fuel
            (pos + 1) tail [] (List.cons_ne_nil _ _) fine ih (by omega)
          refine ⟨.object fields', pos', ?_, equal⟩
          rw [head] at read ⊢
          rw [skipSpace_cons (by decide)]
          exact (if_neg (by exact nofun)).trans read

end Values

/-- A value that is written is parsed as one equal to it. -/
theorem parse_write (display : Double → Text) {json : Json} (fine : Fine json) :
    ∃ json', parse (write display json) = some (.ok json') ∧ same json' json = true := by
  have none_ : Follows [] := fun _ never => nomatch never
  have returns : Returns display json := returns_of_fine fine
  obtain ⟨json', pos', read, equal⟩ := returns (measure (write display json).length) 0 [] none_
    (le_refl _)
  refine ⟨json', ?_, equal⟩
  have start : Parser.skipSpace ⟨write display json ++ [], 0⟩ = ⟨write display json ++ [], 0⟩ :=
    skipSpace_write fine [] 0
  rw [List.append_nil] at read start
  unfold parse
  simp only
  rw [start, read, Option.map_some]
  rfl

end Deed.Lsp.Wire
