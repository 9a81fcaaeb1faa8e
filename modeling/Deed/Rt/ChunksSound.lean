import Deed.Rt.HttpSound
import Deed.Rt.Chunks

/-!
# Chunks put back together

Chunks that are framed with their lengths and end with a chunk of no bytes are read back,
what is cut off before that is refused, and nothing that a server sends goes on for ever.
-/

namespace Deed.Rt

open Deed.Library
open Deed.Lexer (fromStrRadix toDigit)

/-! ## Lengths as they are framed -/

/-- A digit to the base of sixteen, and whether it is written as a capital. -/
abbrev Digit := Fin 16 × Bool

def Digit.written (digit : Digit) : Char :=
  if digit.2 then "0123456789ABCDEF".toList.getD digit.1 '0'
  else "0123456789abcdef".toList.getD digit.1 '0'

/-- The number that some digits write, the first of them the greatest. -/
def valueOf (digits : List Digit) : Nat :=
  Nat.ofDigits 16 (digits.reverse.map fun digit => digit.1.val)

/-- Bytes in which no line ends. -/
def OneLine (bytes : List UInt8) : Prop := ¬CRLF <:+: bytes

instance : DecidablePred OneLine := fun bytes => inferInstanceAs (Decidable ¬CRLF <:+: bytes)

/-- The line before a chunk of so many bytes. -/
structure Opening (size : Nat) where
  digits : List Digit
  written : digits ≠ []
  value : valueOf digits = size
  extension : Option Text
  oneLine : ∀ text ∈ extension, OneLine (asBytes text)

namespace Opening

variable {size : Nat}

def text (opening : Opening size) : Text :=
  opening.digits.map Digit.written ++
    match opening.extension with
    | some extension => ';' :: extension
    | none => []

def line (opening : Opening size) : List UInt8 := asBytes opening.text ++ CRLF

end Opening

/-- A chunk of some bytes with the line before it. -/
structure Chunk where
  bytes : List UInt8
  some : bytes ≠ []
  opening : Opening bytes.length

def Chunk.framed (chunk : Chunk) : List UInt8 := chunk.opening.line ++ chunk.bytes ++ CRLF

/-- The chunks one after the other, and the chunk of no bytes after them. -/
def framing (chunks : List Chunk) (last : Opening 0) : List UInt8 :=
  chunks.flatMap Chunk.framed ++ last.line

/-! ## Reading a length -/

theorem toDigit_written (digit : Digit) : toDigit digit.written 16 = some digit.1.val := by
  revert digit
  decide

theorem written_ne (digit : Digit) :
    digit.written ≠ '+' ∧ digit.written ≠ ';' ∧ whitespace digit.written = false := by
  revert digit
  decide

theorem asBytes_written (digit : Digit) :
    ∃ byte, String.utf8EncodeChar digit.written = [byte] ∧ byte ≠ 0x0d := by
  have small : ∀ digit : Digit, (String.utf8EncodeChar digit.written).length = 1 ∧
      (0x0d : UInt8) ∉ String.utf8EncodeChar digit.written := by
    decide
  rcases List.length_eq_one_iff.1 (small digit).1 with ⟨byte, same⟩
  refine ⟨byte, same, ?_⟩
  intro carriage
  apply (small digit).2
  rw [same, carriage]
  exact List.mem_singleton_self _

theorem valueOf_append (digits : List Digit) (digit : Digit) :
    valueOf (digits ++ [digit]) = valueOf digits * 16 + digit.1 := by
  rw [valueOf, valueOf, List.reverse_append, List.reverse_singleton, List.singleton_append,
    List.map_cons, Nat.ofDigits_cons]
  ring

theorem foldlM_written (digits : List Digit) :
    (digits.map Digit.written).foldlM (fun (value : Nat) character =>
      (toDigit character 16).map fun digit => value * 16 + digit) 0 = some (valueOf digits) := by
  induction digits using List.reverseRecOn with
  | nil => rfl
  | append_singleton digits digit ih =>
      rw [List.map_append, List.foldlM_append, ih, valueOf_append]
      show (toDigit digit.written 16).map _ >>= _ = _
      rw [toDigit_written]
      rfl

theorem fromHex_written {digits : List Digit} (some : digits ≠ [])
    (fits : valueOf digits < 2 ^ 64) :
    fromHex (digits.map Digit.written) = Option.some (valueOf digits) := by
  have radix : fromStrRadix (2 ^ 64 - 1) (digits.map Digit.written) 16 =
      Option.some (valueOf digits) := by
    have written : (digits.map Digit.written).isEmpty = false := by
      rw [List.isEmpty_eq_false_iff, ne_eq, List.map_eq_nil_iff]
      exact some
    rw [fromStrRadix, if_neg (by rw [written]; exact Bool.false_ne_true), foldlM_written]
    exact Option.filter_eq_some_iff.2 ⟨rfl, decide_eq_true (by omega)⟩
  rcases List.exists_cons_of_ne_nil some with ⟨digit, rest, rfl⟩
  rw [← radix, List.map_cons]
  exact fromHex.eq_2 _ fun _ _ same => absurd (List.cons.inj same).1 (written_ne digit).1

theorem trim_eq_self {α : Type} {unwanted : α → Bool} {list : List α}
    (wanted : ∀ element ∈ list, unwanted element = false) : trim unwanted list = list := by
  have front : list.dropWhile unwanted = list := by
    cases list with
    | nil => rfl
    | cons head rest => rw [List.dropWhile_cons, wanted head List.mem_cons_self]; rfl
  rw [trim, front]
  apply List.rdropWhile_eq_self_iff.2
  intro real
  rw [wanted _ (List.getLast_mem real)]
  exact Bool.false_ne_true

/-- Extensions say nothing about the length. -/
theorem sizeOf_text {size : Nat} (opening : Opening size) (fits : size < 2 ^ 64) :
    sizeOf opening.text = some size := by
  have before : opening.text.takeWhile (· ≠ ';') = opening.digits.map Digit.written := by
    have all : ∀ character ∈ opening.digits.map Digit.written, decide (character ≠ ';') = true := by
      intro character member
      rcases List.mem_map.1 member with ⟨digit, -, rfl⟩
      exact decide_eq_true (written_ne digit).2.1
    rw [Opening.text, List.takeWhile_append_of_pos all]
    cases opening.extension with
    | none => exact List.append_nil _
    | some extension => exact List.append_nil _
  have bare : trim whitespace (opening.digits.map Digit.written) =
      opening.digits.map Digit.written := by
    apply trim_eq_self
    intro character member
    rcases List.mem_map.1 member with ⟨digit, -, rfl⟩
    exact (written_ne digit).2.2
  have value := opening.value
  rw [sizeOf, before, bare, fromHex_written opening.written (by omega), value]

/-! ## Reading a line -/

theorem CRLF_ne_nil : CRLF ≠ [] := List.cons_ne_nil _ _

theorem oneLine_cons {byte : UInt8} {bytes : List UInt8} (other : byte ≠ 0x0d)
    (rest : OneLine bytes) : OneLine (byte :: bytes) := by
  intro ends
  rcases List.infix_cons_iff.1 ends with here | later
  · exact other (List.cons_prefix_cons.1 here).1.symm
  · exact rest later

/-- What comes before the end of a line does not hold that end, nor does it begin it early. -/
theorem oneLine_concat {bytes : List UInt8} (line : OneLine bytes) : OneLine (bytes ++ [0x0d]) := by
  rintro ⟨front, back, same⟩
  rcases List.eq_nil_or_concat back with rfl | ⟨back, byte, rfl⟩
  · rw [List.append_nil, CRLF, ← List.singleton_append, ← List.append_assoc] at same
    have := (List.append_inj' same rfl).2
    exact absurd this (by decide)
  · rw [List.concat_eq_append, ← List.append_assoc] at same
    exact line ⟨front, back, (List.append_inj' same rfl).1⟩

theorem Opening.oneLine_text {size : Nat} (opening : Opening size) :
    OneLine (asBytes opening.text) := by
  have rest : OneLine (asBytes (match opening.extension with
      | some extension => ';' :: extension
      | none => [])) := by
    cases given : opening.extension with
    | none => exact fun ends => absurd (List.infix_nil.1 ends) (List.cons_ne_nil _ _)
    | some extension =>
        exact oneLine_cons (by decide) (opening.oneLine extension given)
  rw [Opening.text, asBytes_append]
  generalize asBytes (match opening.extension with
      | some extension => ';' :: extension
      | none => []) = more at rest
  induction opening.digits with
  | nil => exact rest
  | cons digit digits ih =>
      rcases asBytes_written digit with ⟨byte, same, other⟩
      have first : asBytes ((digit :: digits).map Digit.written) ++ more =
          byte :: (asBytes (digits.map Digit.written) ++ more) := by
        rw [List.map_cons, asBytes, List.flatMap_cons, same]
        rfl
      rw [first]
      exact oneLine_cons other ih

theorem header_line {size : Nat} (opening : Opening size) (fits : size < 2 ^ 64)
    (rest : List UInt8) : header (opening.line ++ rest) = some (size, rest) := by
  have place : find (opening.line ++ rest) CRLF = some (asBytes opening.text).length := by
    rw [find, Opening.line, splitOnce_append CRLF_ne_nil
      (oneLine_concat opening.oneLine_text)]
    rfl
  have length : (asBytes opening.text).length + 2 = opening.line.length := by
    rw [Opening.line, List.length_append]
    rfl
  rw [header, place, Option.bind_some, length, List.drop_left, Opening.line, List.append_assoc,
    List.take_left, fromUtf8_asBytes, Option.bind_some, sizeOf_text opening fits]
  rfl

/-- A line that is cut off gives no length. -/
theorem header_cut {size : Nat} (opening : Opening size) {cut : List UInt8}
    (before : cut <+: opening.line) (short : cut.length < opening.line.length) :
    header cut = none := by
  have within : cut <+: asBytes opening.text ++ [0x0d] := by
    apply List.prefix_of_prefix_length_le before
    · exact ⟨[0x0a], List.append_assoc _ _ _⟩
    · rw [Opening.line, List.length_append] at short
      rw [List.length_append]
      exact Nat.le_of_lt_succ short
  have absent : find cut CRLF = none := by
    rw [find, Option.map_eq_none_iff, splitOnce_eq_none CRLF_ne_nil]
    exact fun ends => oneLine_concat opening.oneLine_text (ends.trans within.isInfix)
  rw [header, absent]
  rfl

/-! ## The loop -/

variable {body out : List UInt8} {malformed : Text}

/-- The bytes that `dechunk` comes to after some chunks of a body. -/
inductive Reads (body : List UInt8) : List UInt8 → Prop
  | first : Reads body body
  | next {rest after : List UInt8} {size : Nat} :
      Reads body rest → header rest = some (size, after) → size ≠ 0 →
        size + 2 ≤ after.length → Reads body (after.drop (size + 2))

/-- No header of a chunk in a body gives a length that a `usize` cannot add two to. -/
def Sized (body : List UInt8) : Prop :=
  ∀ rest size after, Reads body rest → header rest = some (size, after) → size + 2 < 2 ^ 64

/-- A header takes up bytes. -/
theorem length_lt_of_header {size : Nat} {after : List UInt8}
    (read : header body = some (size, after)) : after.length < body.length := by
  rcases Option.bind_eq_some_iff.1 read with ⟨place, found, read⟩
  rcases Option.bind_eq_some_iff.1 read with ⟨text, -, read⟩
  rcases Option.map_eq_some_iff.1 read with ⟨size', -, same⟩
  rcases Prod.mk.inj same with ⟨-, rfl⟩
  rcases Option.map_eq_some_iff.1 found with ⟨halves, split, -⟩
  have whole := congrArg List.length (splitOnce_eq_some split)
  rw [List.length_append, List.length_append] at whole
  have : CRLF.length = 2 := rfl
  rw [List.length_drop]
  omega

theorem Reads.trans {rest later : List UInt8} (reads : Reads body rest)
    (further : Reads rest later) : Reads body later := by
  induction further with
  | first => exact reads
  | next _ read real fits ih => exact .next ih read real fits

/-- What one turn of the loop does. -/
theorem dechunkLoop_cases (malformed : Text) (turns : Nat) (body out : List UInt8) :
    (header body = none ∧
      dechunkLoop malformed (turns + 1) body out = some (.error (.malformed malformed))) ∨
    ∃ size after, header body = some (size, after) ∧
      (size = 0 ∧ dechunkLoop malformed (turns + 1) body out = some (.ok out) ∨
      size ≠ 0 ∧ 2 ^ 64 ≤ size + 2 ∧
        dechunkLoop malformed (turns + 1) body out = some (.error .panics) ∨
      size ≠ 0 ∧ size + 2 < 2 ^ 64 ∧ after.length < size + 2 ∧
        dechunkLoop malformed (turns + 1) body out = some (.error (.malformed malformed)) ∨
      size ≠ 0 ∧ size + 2 < 2 ^ 64 ∧ size + 2 ≤ after.length ∧
        dechunkLoop malformed (turns + 1) body out =
          dechunkLoop malformed turns (after.drop (size + 2)) (out ++ after.take size)) := by
  rw [dechunkLoop]
  rcases header body with _ | ⟨size, after⟩
  · exact .inl ⟨rfl, rfl⟩
  · refine .inr ⟨size, after, rfl, ?_⟩
    dsimp only
    by_cases zero : size = 0
    · exact .inl ⟨zero, if_pos zero⟩
    rw [if_neg zero]
    by_cases large : 2 ^ 64 ≤ size + 2
    · exact .inr (.inl ⟨zero, large, if_pos large⟩)
    rw [if_neg large]
    by_cases short : after.length < size + 2
    · exact .inr (.inr (.inl ⟨zero, Nat.lt_of_not_le large, short, if_pos short⟩))
    rw [if_neg short]
    exact .inr (.inr (.inr ⟨zero, Nat.lt_of_not_le large, Nat.le_of_not_lt short, rfl⟩))

/-- There are as many turns as bytes, and each turn takes some. -/
theorem dechunkLoop_ends {turns : Nat} (enough : body.length < turns) (sized : Sized body) :
    (∃ whole, dechunkLoop malformed turns body out = some (.ok whole)) ∨
      dechunkLoop malformed turns body out = some (.error (.malformed malformed)) := by
  induction turns generalizing body out with
  | zero => exact absurd enough (Nat.not_lt_zero _)
  | succ turns ih =>
      rcases dechunkLoop_cases malformed turns body out with
        ⟨-, answer⟩ | ⟨size, after, read, last | large | short | next⟩
      · exact .inr answer
      · exact .inl ⟨out, last.2⟩
      · exact absurd (sized body size after .first read) (Nat.not_lt_of_le large.2.1)
      · exact .inr short.2.2.2
      · rcases next with ⟨real, -, fits, answer⟩
        rw [answer]
        apply ih
        · have := length_lt_of_header read
          rw [List.length_drop]
          omega
        · intro rest size' after' reads
          exact sized rest size' after' (.trans (.next .first read real fits) reads)

/-! ## Framed chunks -/

theorem length_framed (chunk : Chunk) :
    chunk.framed.length = chunk.opening.line.length + (chunk.bytes.length + 2) := by
  rw [Chunk.framed, List.length_append, List.length_append, Nat.add_assoc]
  rfl

/-- One framed chunk is one turn of the loop. -/
theorem dechunkLoop_framed (turns : Nat) (chunk : Chunk) (fits : chunk.bytes.length + 2 < 2 ^ 64)
    (rest : List UInt8) :
    dechunkLoop malformed (turns + 1) (chunk.framed ++ rest) out =
      dechunkLoop malformed turns rest (out ++ chunk.bytes) := by
  have read : header (chunk.framed ++ rest) =
      some (chunk.bytes.length, chunk.bytes ++ CRLF ++ rest) := by
    rw [Chunk.framed, List.append_assoc, List.append_assoc, header_line _ (by omega),
      List.append_assoc]
  have real : chunk.bytes.length ≠ 0 := fun none => chunk.some (List.length_eq_zero_iff.1 none)
  have length : chunk.bytes.length + 2 = (chunk.bytes ++ CRLF).length := by
    rw [List.length_append]
    rfl
  have whole : chunk.bytes.length + 2 ≤ (chunk.bytes ++ CRLF ++ rest).length := by
    rw [length]
    exact (List.prefix_append _ _).length_le
  rw [dechunkLoop, read]
  dsimp only
  rw [if_neg real, if_neg (Nat.not_le_of_lt fits), if_neg (Nat.not_lt_of_le whole), length,
    List.drop_left, List.append_assoc chunk.bytes, List.take_left]

theorem dechunkLoop_framing (chunks : List Chunk) (last : Opening 0) (trailer : List UInt8)
    {turns : Nat} (enough : (framing chunks last).length < turns)
    (fits : (framing chunks last).length < 2 ^ 63) :
    dechunkLoop malformed turns (framing chunks last ++ trailer) out =
      some (.ok (out ++ chunks.flatMap Chunk.bytes)) := by
  induction chunks generalizing turns out with
  | nil =>
      rcases Nat.exists_eq_add_of_lt enough with ⟨turns, rfl⟩
      rw [framing, List.flatMap_nil, List.nil_append, dechunkLoop,
        header_line last (by decide)]
      dsimp only
      rw [if_pos rfl, List.flatMap_nil, List.append_nil]
  | cons chunk chunks ih =>
      have split : framing (chunk :: chunks) last = chunk.framed ++ framing chunks last := by
        rw [framing, List.flatMap_cons, List.append_assoc]
        rfl
      rw [split, List.length_append, length_framed] at enough fits
      cases turns with
      | zero => exact absurd enough (Nat.not_lt_zero _)
      | succ turns =>
          rw [split, List.append_assoc, dechunkLoop_framed turns chunk (by omega),
            ih (by omega) (by omega), List.flatMap_cons, List.append_assoc]

/-- What ends before the line of the last chunk does is refused. -/
theorem dechunkLoop_cut (chunks : List Chunk) (last : Opening 0) {cut : List UInt8}
    (before : cut <+: framing chunks last) (short : cut.length < (framing chunks last).length)
    {turns : Nat} (enough : cut.length < turns)
    (fits : (framing chunks last).length < 2 ^ 63) :
    dechunkLoop malformed turns cut out = some (.error (.malformed malformed)) := by
  induction chunks generalizing turns out cut with
  | nil =>
      rcases Nat.exists_eq_add_of_lt enough with ⟨turns, rfl⟩
      rw [dechunkLoop, header_cut last before short]
  | cons chunk chunks ih =>
      have split : framing (chunk :: chunks) last = chunk.framed ++ framing chunks last := by
        rw [framing, List.flatMap_cons, List.append_assoc]
        rfl
      rw [split] at before short fits
      rw [List.length_append, length_framed] at short fits
      cases turns with
      | zero => exact absurd enough (Nat.not_lt_zero _)
      | succ turns =>
          rcases Nat.lt_or_ge cut.length chunk.framed.length with part | whole
          · -- The cut is in the chunk itself, or in the line before it.
            have within : cut <+: chunk.framed :=
              List.prefix_of_prefix_length_le before (List.prefix_append _ _) part.le
            rcases Nat.lt_or_ge cut.length chunk.opening.line.length with early | late
            · rw [dechunkLoop, header_cut chunk.opening
                (List.prefix_of_prefix_length_le within
                  ⟨_, (List.append_assoc _ _ _).symm⟩ early.le) early]
            · rcases List.prefix_of_prefix_length_le ⟨_, (List.append_assoc _ _ _).symm⟩
                within late with ⟨bytes, rfl⟩
              have real : chunk.bytes.length ≠ 0 :=
                fun none => chunk.some (List.length_eq_zero_iff.1 none)
              rw [length_framed, List.length_append] at part
              rw [dechunkLoop, header_line _ (by omega)]
              dsimp only
              rw [if_neg real, if_neg (by omega), if_pos (by omega)]
          · rcases List.prefix_of_prefix_length_le (List.prefix_append _ _) before whole with
              ⟨rest, rfl⟩
            rw [List.length_append] at enough short
            rw [length_framed] at enough short
            rw [dechunkLoop_framed turns chunk (by omega)]
            exact ih ((List.prefix_append_right_inj _).1 before) (by omega) (by omega)
              (by omega)

/-- Where every length can be added to, putting a body together ends, with the body or with what
is wrong with it.  Whatever comes after a framing, the chunks are read back, and a framing that
is cut off is refused.  No bytes are more than a slice holds. -/
theorem dechunk_inverts (address : Text) :
    (∀ body, Sized body → (∃ whole, dechunk body address = some (.ok whole)) ∨
      ∃ why, dechunk body address = some (.error (.malformed why))) ∧
    (∀ (chunks : List Chunk) (last : Opening 0) (trailer : List UInt8),
      (framing chunks last ++ trailer).length < 2 ^ 63 →
        dechunk (framing chunks last ++ trailer) address =
          some (.ok (chunks.flatMap Chunk.bytes))) ∧
    ∀ (chunks : List Chunk) (last : Opening 0) (cut : List UInt8),
      cut <+: framing chunks last → cut ≠ framing chunks last →
        (framing chunks last).length < 2 ^ 63 →
          ∃ why, dechunk cut address = some (.error (.malformed why)) := by
  constructor
  · intro body sized
    rcases dechunkLoop_ends (Nat.lt_succ_self _) sized with whole | refused
    · exact .inl whole
    · exact .inr ⟨_, refused⟩
  constructor
  · intro chunks last trailer fits
    rw [List.length_append] at fits
    apply dechunkLoop_framing chunks last trailer
    · rw [List.length_append]
      omega
    · omega
  · intro chunks last cut before other fits
    have short : cut.length < (framing chunks last).length :=
      lt_of_le_of_ne before.length_le fun same => other (before.eq_of_length same)
    exact ⟨_, dechunkLoop_cut chunks last before short (Nat.lt_succ_self _) fits⟩

/-- Two chunks, the first of them with a capital digit and an extension, are read back; an
extension that is no text is refused, and a length that nothing can be added to ends the
process. -/
theorem dechunk_refuses :
    dechunk [0x30, 0x31, 0x3b, 0x78, 0x0d, 0x0a, 0x41, 0x0d, 0x0a, 0x30, 0x0d, 0x0a] [] =
      some (.ok [0x41]) ∧
    OneLine [0xff] ∧
    dechunk ([0x31, 0x3b] ++ [0xff] ++ CRLF ++ [0x41] ++ CRLF ++ [0x30] ++ CRLF) [] ≠
      some (.ok [0x41]) ∧
    dechunk (List.replicate 15 0x66 ++ [0x65] ++ CRLF) [] = some (.error .panics) := by
  refine ⟨by decide, by decide, by decide, by decide⟩

/-- The length of one, with a zero before it and an extension after it. -/
def one : Opening 1 where
  digits := [(0, false), (1, false)]
  written := List.cons_ne_nil _ _
  value := by decide
  extension := some ['x']
  oneLine := by
    intro text given
    rw [← Option.some.inj given]
    decide

/-- The line of the chunk that is the last. -/
def zero : Opening 0 where
  digits := [(0, false)]
  written := List.cons_ne_nil _ _
  value := by decide
  extension := none
  oneLine := by
    intro text given
    exact absurd given.symm (Option.some_ne_none _)

theorem dechunk_inverts_letter :
    dechunk (framing [⟨[0x41], List.cons_ne_nil _ _, one⟩] zero ++ [0x0d, 0x0a]) [] =
        some (.ok [0x41]) ∧
      ∃ why, dechunk (framing [] zero).dropLast [] = some (.error (.malformed why)) := by
  constructor
  · exact (dechunk_inverts []).2.1 [⟨[0x41], List.cons_ne_nil _ _, one⟩] zero [0x0d, 0x0a]
      (by decide)
  · exact (dechunk_inverts []).2.2 [] zero _ (List.dropLast_prefix _) (by decide) (by decide)

end Deed.Rt
