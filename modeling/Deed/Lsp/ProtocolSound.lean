import Deed.Lsp.JsonSound
import Deed.Lsp.Protocol

/-!
# Messages survive the wire

Messages that are written one after another are read in order, and then the stream is closed.
-/

namespace Deed.Lsp.Wire

open Deed.Lexer (fromStrRadix isAsciiDigit isWhitespace toDigit)
open Deed.Library
open Deed.Rt (asBytes asBytes_ascii fromUtf8 fromUtf8_asBytes fromUtf8_eq_some)

/-! ## Lengths -/

theorem foldlM_toDigits (n : Nat) : (Nat.toDigits 10 n).foldlM (fun (value : Nat) c =>
    (toDigit c 10).map fun digit => value * 10 + digit) 0 = some n := by
  induction n using Nat.strong_induction_on with
  | _ n ih =>
      rcases Nat.lt_or_ge n 10 with small | large
      · have digit := (digitChar_ten ⟨n, small⟩).1
        simp only at digit
        rw [Nat.toDigits_of_lt_base small, List.foldlM_cons, digit]
        exact congrArg some ((congrArg (· + n) (Nat.zero_mul 10)).trans (Nat.zero_add n))
      · have last := (digitChar_ten ⟨n % 10, Nat.mod_lt _ (by decide)⟩).1
        simp only at last
        rw [toDigits_concat large, List.foldlM_append, ih (n / 10) (by omega), Option.bind_eq_bind,
          Option.bind_some, List.foldlM_cons, last]
        exact congrArg some (show n / 10 * 10 + n % 10 = n by omega)

/-- The digits of a size are read as it. -/
theorem parseUsize_toDigits {n : Nat} (small : n < 2 ^ 64) :
    parseUsize (Nat.toDigits 10 n) = some n := by
  obtain ⟨c, rest, same, digit, -⟩ := toDigits_cons n
  have plain : parseUsize (c :: rest) = fromStrRadix (2 ^ 64 - 1) (c :: rest) 10 :=
    parseUsize.eq_2 _ fun _ _ split => (digit_ne digit).2.1 (List.cons.inj split).1
  have fold := foldlM_toDigits n
  rw [same] at fold ⊢
  rw [plain, fromStrRadix, List.isEmpty_cons, if_neg Bool.false_ne_true, fold, Option.filter_some,
    if_pos (decide_eq_true (by omega))]

theorem not_whitespace {c : Char} (digit : isAsciiDigit c = true) : isWhitespace c = false := by
  rw [isAsciiDigit, Bool.and_eq_true, decide_eq_true_eq, decide_eq_true_eq] at digit
  have low : 48 ≤ c.toNat := digit.1
  have high : c.toNat ≤ 57 := digit.2
  rw [isWhitespace]
  simp only [Bool.or_eq_false_iff, Bool.and_eq_false_iff, decide_eq_false_iff_not,
    beq_eq_false_iff_ne]
  omega

/-- A blank in front of digits is trimmed. -/
theorem trim_digits {digits : Text} (all : ∀ c ∈ digits, isAsciiDigit c = true) :
    trim isWhitespace (' ' :: digits) = digits := by
  have plain : ∀ c ∈ digits, ¬isWhitespace c = true := fun c there => by
    rw [not_whitespace (all c there)]
    exact Bool.false_ne_true
  have front : (' ' :: digits).dropWhile isWhitespace = digits := by
    rw [List.dropWhile_cons_of_pos (by decide)]
    cases digits with
    | nil => rfl
    | cons c rest => exact List.dropWhile_cons_of_neg (plain c List.mem_cons_self)
  rw [trim, front, List.rdropWhile_eq_self_iff]
  exact fun some_ => plain _ (List.getLast_mem some_)

/-- The header of a length. -/
def lengthHeader (n : Nat) : Text := "Content-Length: ".toList ++ Nat.toDigits 10 n

theorem header_length {n : Nat} (small : n < 2 ^ 64) (length : Option Nat) :
    header (lengthHeader n) length = .ok (some n) := by
  have apart : ¬[':'] <:+: "Content-Length".toList ++ [':'].dropLast := by decide
  have split : splitOnce [':'] (lengthHeader n) =
      some ("Content-Length".toList, ' ' :: Nat.toDigits 10 n) :=
    splitOnce_append (List.cons_ne_nil _ _) apart
  have named : (trim isWhitespace "Content-Length".toList).map Char.toLower =
      "content-length".toList := by decide
  rw [header, split]
  simp only
  rw [if_pos named, trim_digits (isAsciiDigit_toDigits n), parseUsize_toDigits small]

/-! ## Headers -/

theorem asBytes_map {text : Text} (ascii : ∀ c ∈ text, c.toNat < 128) :
    asBytes text = text.map fun c => UInt8.ofNat c.toNat := by
  induction text with
  | nil => rfl
  | cons c text ih =>
      rw [List.forall_mem_cons] at ascii
      rw [asBytes_ascii ascii.1, ih ascii.2]
      rfl

theorem lineOf_append {front : List UInt8} (plain : ∀ byte ∈ front, byte ≠ 0x0A)
    (rest : List UInt8) : lineOf (front ++ 0x0A :: rest) = front ++ [0x0A] := by
  have kept : ∀ byte ∈ front, (byte != 0x0A) = true := fun byte there =>
    bne_iff_ne.mpr (plain byte there)
  rw [lineOf, List.takeWhile_append_of_pos kept, List.dropWhile_append_of_pos kept,
    List.takeWhile_cons_of_neg (by decide), List.dropWhile_cons_of_neg (by decide),
    List.append_nil]
  rfl

theorem headers_cons {input rest : List UInt8} {line : Text} {length : Option Nat}
    (first : lineOf input = asBytes line) (filled : line ≠ []) (split : input = asBytes line ++ rest) :
    headers input length =
      if unended line = [] then .ok (length, rest)
      else match header (unended line) length with
        | .error e => .error e
        | .ok length => headers rest length := by
  have some_ : asBytes line ≠ [] := fun none_ => filled (Deed.Rt.asBytes_inj (none_.trans rfl))
  have behind : input.drop (asBytes line).length = rest := by rw [split, List.drop_left]
  rw [headers, first, dif_neg some_, fromUtf8_asBytes]
  exact behind ▸ rfl

theorem lengthHeader_ascii (n : Nat) : ∀ c ∈ lengthHeader n, c.toNat < 128 ∧ c ≠ '\n' ∧ c ≠ '\r' := by
  have name : ∀ c ∈ "Content-Length: ".toList, c.toNat < 128 ∧ c ≠ '\n' ∧ c ≠ '\r' := by simp
  refine List.forall_mem_append.mpr ⟨name, fun c there => ?_⟩
  have digit := isAsciiDigit_toDigits n c there
  rw [isAsciiDigit, Bool.and_eq_true, decide_eq_true_eq, decide_eq_true_eq] at digit
  have low : 48 ≤ c.toNat := digit.1
  have high : c.toNat ≤ 57 := digit.2
  refine ⟨by omega, fun same => ?_, fun same => ?_⟩
  · rw [same] at low
    exact absurd low (by decide)
  · rw [same] at low
    exact absurd low (by decide)

theorem unended_append {line : Text} (plain : ∀ c ∈ line, c ≠ '\n' ∧ c ≠ '\r') :
    unended (line ++ ['\r', '\n']) = line := by
  have gone : (['\r', '\n'] : Text).reverse.dropWhile (fun c => c == '\r' || c == '\n') = [] := by
    decide
  have kept : line.rdropWhile (fun c => c == '\r' || c == '\n') = line := by
    rw [List.rdropWhile_eq_self_iff]
    intro some_ ended
    obtain ⟨newline, carriage⟩ := plain _ (List.getLast_mem some_)
    rw [Bool.or_eq_true, beq_iff_eq, beq_iff_eq] at ended
    exact ended.elim carriage newline
  rw [unended, List.rdropWhile, List.reverse_append, List.dropWhile_append_of_pos (by simp)]
  exact kept

/-- The headers that are written give the length and leave the body. -/
theorem headers_length {n : Nat} (small : n < 2 ^ 64) (body : List UInt8) :
    headers (asBytes (lengthHeader n ++ "\r\n\r\n".toList) ++ body) none = .ok (some n, body) := by
  have ascii := lengthHeader_ascii n
  have line : ∀ c ∈ lengthHeader n ++ ['\r'], c.toNat < 128 :=
    List.forall_mem_append.mpr ⟨fun c there => (ascii c there).1, by simp⟩
  have whole : ∀ c ∈ lengthHeader n ++ ['\r', '\n'], c.toNat < 128 :=
    List.forall_mem_append.mpr ⟨fun c there => (ascii c there).1, by simp⟩
  have all : ∀ c ∈ lengthHeader n ++ "\r\n\r\n".toList, c.toNat < 128 :=
    List.forall_mem_append.mpr ⟨fun c there => (ascii c there).1, by simp⟩
  have split : asBytes (lengthHeader n ++ "\r\n\r\n".toList) ++ body =
      asBytes (lengthHeader n ++ ['\r', '\n']) ++ (0x0D :: 0x0A :: body) := by
    rw [asBytes_map all, asBytes_map whole, List.map_append, List.map_append, List.append_assoc,
      List.append_assoc]
    rfl
  have split' : asBytes (lengthHeader n ++ "\r\n\r\n".toList) ++ body =
      asBytes (lengthHeader n ++ ['\r']) ++ 0x0A :: 0x0D :: 0x0A :: body := by
    rw [asBytes_map all, asBytes_map line, List.map_append, List.map_append, List.append_assoc,
      List.append_assoc]
    rfl
  have plain : ∀ byte ∈ asBytes (lengthHeader n ++ ['\r']), byte ≠ 0x0A := by
    rw [asBytes_map line]
    intro byte there same
    obtain ⟨c, from_, rfl⟩ := List.mem_map.mp there
    have code := congrArg UInt8.toNat same
    rw [UInt8.toNat_ofNat_of_lt' (by have := line c from_; show c.toNat < 256; omega)] at code
    have newline : c = '\n' := Char.toNat_inj.mp code
    rcases List.mem_append.mp from_ with from_ | from_
    · exact (ascii c from_).2.1 newline
    · rw [newline] at from_
      exact absurd from_ (by decide)
  have first : lineOf (asBytes (lengthHeader n ++ "\r\n\r\n".toList) ++ body) =
      asBytes (lengthHeader n ++ ['\r', '\n']) := by
    rw [split', lineOf_append plain, asBytes_map line, asBytes_map whole, List.map_append,
      List.map_append, List.append_assoc]
    rfl
  have kept := unended_append fun c there => (ascii c there).2
  have some_ : lengthHeader n ≠ [] := List.append_ne_nil_of_left_ne_nil (by decide) _
  rw [headers_cons first (List.append_ne_nil_of_left_ne_nil some_ _) split, kept, if_neg some_,
    header_length small]
  simp only
  have second : lineOf (0x0D :: 0x0A :: body) = asBytes ['\r', '\n'] := by
    have other : ∀ byte ∈ [(0x0D : UInt8)], byte ≠ 0x0A :=
      List.forall_mem_singleton.mpr (by decide)
    exact lineOf_append other body
  rw [headers_cons second (List.cons_ne_nil _ _) rfl]
  exact if_pos (by decide)

/-! ## Messages -/

/-- A message is read, and what stands behind it is left. -/
theorem readMessage_write (display : Double → Text) {json : Json} (fine : Fine json)
    (small : (asBytes (write display json)).length < 2 ^ 64) (rest : List UInt8) :
    ∃ json', readMessage (writeMessage display json ++ rest) = some (.ok (json', rest)) ∧
      same json' json = true := by
  obtain ⟨json', parsed, equal⟩ := parse_write display fine
  refine ⟨json', ?_, equal⟩
  have digits : (toString (asBytes (write display json)).length).toList =
      Nat.toDigits 10 (asBytes (write display json)).length := Nat.toList_repr
  have framed : writeMessage display json ++ rest =
      asBytes (lengthHeader (asBytes (write display json)).length ++ "\r\n\r\n".toList) ++
        (asBytes (write display json) ++ rest) := by
    unfold writeMessage
    simp only
    rw [digits, List.append_assoc]
    rfl
  rw [readMessage, framed, headers_length small]
  simp only
  rw [if_neg (by rw [List.length_append]; omega), List.take_left, fromUtf8_asBytes, List.drop_left]
  simp only
  rw [parsed]
  rfl

theorem readMessage_nil : readMessage [] = some (.error .closed) := by
  have closed : headers [] none = .error .closed := by
    rw [headers]
    exact dif_pos rfl
  rw [readMessage, closed]

theorem yields_write (display : Double → Text) {messages : List Json}
    (fine : ∀ message ∈ messages, Fine message)
    (small : ∀ message ∈ messages, (asBytes (write display message)).length < 2 ^ 64) :
    ∃ values, Yields (messages.flatMap (writeMessage display)) values ∧
      sameItems values messages = true := by
  induction messages with
  | nil => exact ⟨[], .closed readMessage_nil, rfl⟩
  | cons message messages ih =>
      rw [List.forall_mem_cons] at fine small
      obtain ⟨json', read, equal⟩ := readMessage_write display fine.1 small.1
        (messages.flatMap (writeMessage display))
      obtain ⟨values, yields, equals⟩ := ih fine.2 small.2
      refine ⟨json' :: values, ?_, ?_⟩
      · rw [List.flatMap_cons]
        exact .message read yields
      · rw [sameItems, equal, equals]
        rfl

/-- Messages of integers and anything else are read in order as values equal to them, and then
the stream is closed; and the parser ends on every text inside it. -/
theorem messages_survive (display : Double → Text) (messages : List Json)
    (fine : ∀ message ∈ messages, Fine message)
    (small : ∀ message ∈ messages, (asBytes (write display message)).length < 2 ^ 64)
    (text : Text) :
    (∃ values, Yields (messages.flatMap (writeMessage display)) values ∧
      sameItems values messages = true) ∧
    ∃ answer, parse text = some answer ∧ ∀ e, answer = .error e → e.offset ≤ text.length :=
  ⟨yields_write display fine small, parse_ends text⟩

/-- Two messages, one of them with what is escaped, and no number to display. -/
theorem messages_survive_two :
    (∃ values, Yields ([.array [.null, .string ['"', '\n']], .object [(['a'], .bool true),
        (['a'], .bool false)]].flatMap (writeMessage fun _ => [])) values ∧
      sameItems values [.array [.null, .string ['"', '\n']], .object [(['a'], .bool true),
        (['a'], .bool false)]] = true) ∧
    ∃ answer, parse ['['] = some answer ∧ ∀ e, answer = .error e → e.offset ≤ ['['].length := by
  have first : Fine (.array [.null, .string ['"', '\n']]) := .array fun item there => by
    rcases List.mem_cons.mp there with rfl | there
    · exact .null
    · rw [List.mem_singleton.mp there]
      exact .string _
  have second : Fine (.object [(['a'], .bool true), (['a'], .bool false)]) :=
    .object fun field there => by
      rcases List.mem_cons.mp there with rfl | there
      · exact .bool _
      · rw [List.mem_singleton.mp there]
        exact .bool _
  refine messages_survive (fun _ => []) _ ?_ ?_ ['[']
  · exact List.forall_mem_cons.mpr ⟨first, List.forall_mem_singleton.mpr second⟩
  · refine List.forall_mem_cons.mpr ⟨?_, List.forall_mem_singleton.mpr ?_⟩
    · show (asBytes "[null,\"\\\"\\n\"]".toList).length < 2 ^ 64
      decide
    · show (asBytes "\x7b\"a\":true,\"a\":false\x7d".toList).length < 2 ^ 64
      decide

end Deed.Lsp.Wire
