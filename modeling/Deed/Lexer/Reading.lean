import Deed.Lexer.Lexer

/-!
# What a token reads

From where a token starts, every branch of the lexer reads some characters of the text and
leaves the tokens and the comments alone; on a text of fewer than 2^32 bytes it never
panics.
-/

namespace Deed.Lexer

/-! ## Bytes -/

variable {a b c : List Char}

@[simp]
theorem bytes_nil : bytes [] = 0 := rfl

@[simp]
theorem bytes_cons (one : Char) (text : List Char) :
    bytes (one :: text) = one.utf8Size + bytes text := by
  rw [bytes, List.map_cons, List.sum_cons, bytes]

@[simp]
theorem bytes_append (a b : List Char) : bytes (a ++ b) = bytes a + bytes b := by
  rw [bytes, List.map_append, List.sum_append, bytes, bytes]

theorem takeBytes_cons {one : Char} {text : List Char} {count : Nat} (some_ : 0 < count) :
    takeBytes (one :: text) count = if one.utf8Size ≤ count then
      (takeBytes text (count - one.utf8Size)).map (one :: ·) else none := by
  cases count with
  | zero => exact absurd some_ (Nat.lt_irrefl 0)
  | succ count => rw [takeBytes]

theorem dropBytes_cons {one : Char} {text : List Char} {count : Nat} (some_ : 0 < count) :
    dropBytes (one :: text) count = if one.utf8Size ≤ count then
      dropBytes text (count - one.utf8Size) else none := by
  cases count with
  | zero => exact absurd some_ (Nat.lt_irrefl 0)
  | succ count => rw [dropBytes]

@[simp]
theorem takeBytes_append (a b : List Char) : takeBytes (a ++ b) (bytes a) = some a := by
  induction a with
  | nil => rw [bytes_nil, takeBytes]
  | cons one a ih =>
      have some_ := one.utf8Size_pos
      rw [List.cons_append, bytes_cons, takeBytes_cons (Nat.add_pos_left some_ _),
        if_pos (Nat.le_add_right _ _), Nat.add_sub_cancel_left, ih, Option.map_some]

@[simp]
theorem dropBytes_append (a b : List Char) : dropBytes (a ++ b) (bytes a) = some b := by
  induction a with
  | nil => rw [bytes_nil, dropBytes, List.nil_append]
  | cons one a ih =>
      have some_ := one.utf8Size_pos
      rw [List.cons_append, bytes_cons, dropBytes_cons (Nat.add_pos_left some_ _),
        if_pos (Nat.le_add_right _ _), Nat.add_sub_cancel_left, ih]

theorem slice_append (a b c : List Char) :
    slice (a ++ (b ++ c)) (bytes a) (bytes a + bytes b) = some b := by
  rw [slice, if_pos (Nat.le_add_right _ _), dropBytes_append, Option.bind_some,
    Nat.add_sub_cancel_left, takeBytes_append]

/-! ## Spans -/

theorem toNat_toUInt32 {offset : Nat} (small : offset < 2 ^ 32) :
    offset.toUInt32.toNat = offset :=
  (UInt32.toNat_ofNat' ).trans (Nat.mod_eq_of_lt small)

/-- A range in a small text stands for what it was made of. -/
theorem Span.new_of_le {start stop : Nat} (ordered : start ≤ stop) (small : stop < 2 ^ 32) :
    ∃ span, Span.new start stop = some span ∧ span.start.toNat = start ∧
      span.stop.toNat = stop := by
  have first := toNat_toUInt32 (Nat.lt_of_le_of_lt ordered small)
  have second := toNat_toUInt32 small
  refine ⟨⟨start.toUInt32, stop.toUInt32⟩, ?_, first, second⟩
  rw [Span.new, if_pos]
  rw [UInt32.le_iff_toNat_le, first, second]
  exact ordered

/-! ## Reading -/

/-- From one lexer to another that read some more characters. -/
structure Reads (lexer : Lexer) (text : List Char) (next : Lexer) : Prop where
  before : next.before = lexer.before ++ text
  rest : lexer.rest = text ++ next.rest
  tokens : next.tokens = lexer.tokens
  trivia : next.trivia = lexer.trivia
  diagnostics : lexer.diagnostics ⊆ next.diagnostics

/-- A text whose offsets fit in 32 bits. -/
def Lexer.Small (lexer : Lexer) : Prop := bytes lexer.src < 2 ^ 32

namespace Reads

variable {first lexer next : Lexer} {text more : List Char}

theorem refl (lexer : Lexer) : Reads lexer [] lexer :=
  ⟨(List.append_nil _).symm, rfl, rfl, rfl, List.Subset.refl _⟩

theorem trans (left : Reads first text lexer) (right : Reads lexer more next) :
    Reads first (text ++ more) next :=
  ⟨by rw [right.before, left.before, List.append_assoc],
    by rw [left.rest, right.rest, List.append_assoc],
    right.tokens.trans left.tokens, right.trivia.trans left.trivia,
    List.Subset.trans left.diagnostics right.diagnostics⟩

theorem src (reads : Reads first text lexer) : lexer.src = first.src := by
  rw [Lexer.src, Lexer.src, reads.before, reads.rest, List.append_assoc]

theorem small (reads : Reads first text lexer) (small : first.Small) : lexer.Small := by
  rw [Lexer.Small, reads.src]
  exact small

theorem pos (reads : Reads first text lexer) : lexer.pos = first.pos + bytes text := by
  rw [Lexer.pos, reads.before, bytes_append, Lexer.pos]

theorem emit (lexer : Lexer) (diagnostic : Diagnostic) :
    Reads lexer [] (lexer.emit diagnostic) :=
  ⟨(List.append_nil _).symm, rfl, rfl, rfl, List.subset_append_left _ _⟩

theorem emitted (reads : Reads first text lexer) (diagnostic : Diagnostic) :
    Reads first text (lexer.emit diagnostic) := by
  rw [← List.append_nil text]
  exact reads.trans (emit lexer diagnostic)

theorem bump {one : Char} {tail : List Char} (there : lexer.rest = one :: tail) :
    ∃ next, lexer.bump = some (one, next) ∧ lexer.skip = next ∧ Reads lexer [one] next ∧
      next.rest = tail := by
  refine ⟨{ lexer with before := lexer.before ++ [one], rest := tail }, ?_, ?_,
    ⟨rfl, there, rfl, rfl, List.Subset.refl _⟩, rfl⟩
  · rw [Lexer.bump, there]
  · rw [Lexer.skip, Lexer.bump, there]
    rfl

theorem skip {one : Char} {tail : List Char} (there : lexer.rest = one :: tail) :
    Reads lexer [one] lexer.skip ∧ lexer.skip.rest = tail := by
  rcases bump there with ⟨next, -, skipped, reads, left⟩
  rw [skipped]
  exact ⟨reads, left⟩

theorem bumpWhile (kind : Char → Bool) (lexer : Lexer) :
    Reads lexer (lexer.rest.takeWhile kind) (lexer.bumpWhile kind) :=
  ⟨rfl, (List.takeWhile_append_dropWhile).symm, rfl, rfl, List.Subset.refl _⟩

/-- What was read, as the slice that the source takes. -/
theorem sliced (reads : Reads first text lexer) :
    lexer.text first.pos lexer.pos = some text := by
  rw [Lexer.text, reads.pos, Lexer.src, reads.before, List.append_assoc]
  exact slice_append _ _ _

/-- What was read first, when more was read since. -/
theorem sliced_early (left : Reads first text lexer) (right : Reads lexer more next) :
    next.text first.pos lexer.pos = some text := by
  rw [Lexer.text, right.src, left.pos, Lexer.src, left.before, List.append_assoc]
  exact slice_append _ _ _

theorem span (reads : Reads first text lexer) (small : first.Small) :
    ∃ span, Span.new first.pos lexer.pos = some span ∧ span.start.toNat = first.pos ∧
      span.stop.toNat = lexer.pos := by
  apply Span.new_of_le
  · rw [reads.pos]
    exact Nat.le_add_right _ _
  · have fits := reads.small small
    rw [Lexer.Small, Lexer.src, bytes_append] at fits
    exact Nat.lt_of_le_of_lt (Nat.le_add_right _ _) fits

end Reads

/-- The branch answers, from where `first` stands and after `text`, having read some more. -/
def Yields {κ : Type} (first : Lexer) (text : List Char) (fine : κ → Prop)
    (result : Option (κ × Lexer)) : Prop :=
  ∃ value more next, result = some (value, next) ∧ Reads first (text ++ more) next ∧
    fine value

/-- The same for a branch that answers nothing else. -/
def Goes (first : Lexer) (text : List Char) (result : Option Lexer) : Prop :=
  ∃ more next, result = some next ∧ Reads first (text ++ more) next

section Branches

variable {first lexer : Lexer} {text : List Char} {κ : Type} {fine : κ → Prop}
  {unicode : Unicode}

theorem Yields.here {value : κ} (good : fine value) (reads : Reads first text lexer) :
    Yields first text fine (some (value, lexer)) :=
  ⟨value, [], lexer, rfl, by rw [List.append_nil]; exact reads, good⟩

theorem Goes.emitted (reads : Reads first text lexer) (diagnostic : Diagnostic) :
    Goes first text (some (lexer.emit diagnostic)) :=
  ⟨[], _, rfl, by rw [List.append_nil]; exact reads.emitted diagnostic⟩

/-- A branch that reads on is one that starts earlier. -/
theorem Yields.after {more : List Char} {result : Option (κ × Lexer)}
    (yields : Yields first (text ++ more) fine result) : Yields first text fine result := by
  rcases yields with ⟨value, others, next, answers, reads, good⟩
  rw [List.append_assoc] at reads
  exact ⟨value, more ++ others, next, answers, reads, good⟩

theorem eat_cases (lexer : Lexer) (expected : Char) :
    (∃ next, lexer.eat expected = (true, next) ∧ Reads lexer [expected] next) ∨
      lexer.eat expected = (false, lexer) := by
  rw [Lexer.eat]
  by_cases there : lexer.peek = some expected
  · rw [if_pos there]
    left
    rcases List.head?_eq_some_iff.1 there with ⟨tail, rest⟩
    exact ⟨_, rfl, (Reads.skip rest).1⟩
  · rw [if_neg there]
    exact Or.inr rfl

/-! ### Identifiers and operators -/

theorem ident_yields (reads : Reads first text lexer) :
    Yields first text (· ≠ .eof) (lexer.ident unicode first.pos) := by
  have all := reads.trans (Reads.bumpWhile unicode.isIdentContinue lexer)
  rw [Lexer.ident]
  simp only [all.sliced, Option.bind_eq_bind, Option.bind_some]
  split
  · exact Yields.after (Yields.here TokenKind.noConfusion all)
  · split
    · exact Yields.after (Yields.here TokenKind.noConfusion all)
    · exact Yields.after (Yields.here TokenKind.noConfusion all)

theorem longest_yields {alone : TokenKind} (plain : alone ≠ .eof)
    {longer : List (Char × TokenKind)} (plainer : ∀ entry ∈ longer, entry.2 ≠ .eof)
    (reads : Reads first text lexer) :
    Yields first text (· ≠ .eof) (some (Lexer.longest alone longer lexer)) := by
  induction longer with
  | nil => exact Yields.here plain reads
  | cons entry others ih =>
      rw [Lexer.longest]
      rcases eat_cases lexer entry.1 with ⟨next, eaten, more⟩ | left
      · rw [eaten]
        exact Yields.after (Yields.here (plainer entry List.mem_cons_self) (reads.trans more))
      · rw [left]
        exact ih fun other present => plainer other (List.mem_cons_of_mem _ present)

theorem ampersand_yields (reads : Reads first text lexer) (small : first.Small) :
    Yields first text (· ≠ .eof) (lexer.ampersand first.pos) := by
  rw [Lexer.ampersand]
  rcases eat_cases lexer '&' with ⟨next, eaten, more⟩ | left
  · rw [eaten]
    exact Yields.after (Yields.here TokenKind.noConfusion (reads.trans more))
  · rw [left]
    rcases reads.span small with ⟨span, made, -⟩
    simp only [made, Option.bind_eq_bind, Option.bind_some]
    exact Yields.here TokenKind.noConfusion (reads.emitted _)

theorem unknownCharacter_goes (c : Char) (reads : Reads first text lexer)
    (small : first.Small) :
    Goes first text (lexer.unknownCharacter unicode first.pos c) := by
  rcases reads.span small with ⟨span, made, -⟩
  simp only [Lexer.unknownCharacter, made, Option.bind_eq_bind, Option.bind_some]
  exact Goes.emitted reads _

/-! ### Numbers -/

theorem findInvalid_some {radix offset bad : Nat} {digits : List Char}
    (found : Lexer.findInvalid radix digits offset = some bad) :
    ∃ good one others, digits = good ++ one :: others ∧ bad = offset + bytes good := by
  induction digits generalizing offset with
  | nil => exact absurd found.symm (Option.some_ne_none bad)
  | cons c digits ih =>
      rw [Lexer.findInvalid] at found
      split at found
      · cases found
        exact ⟨[], c, digits, rfl, rfl⟩
      · rcases ih found with ⟨good, one, others, rfl, rfl⟩
        refine ⟨c :: good, one, others, rfl, ?_⟩
        rw [bytes_cons, Nat.add_assoc]

/-- Where the digits start, which is where the literal does or after its base. -/
theorem numberStart_reads (c : Char) (reads : Reads first text lexer) :
    ∃ radix lead mid run next, lexer.numberStart first.pos c = (radix, mid.pos, next) ∧
      Reads first lead mid ∧ Reads mid run next ∧ ∃ more, lead ++ run = text ++ more := by
  rw [Lexer.numberStart]
  split
  · next radix found =>
      cases rest : lexer.rest with
      | nil =>
          rw [Lexer.peek, rest] at found
          split at found
          · exact absurd found.symm (Option.some_ne_none radix)
          · exact absurd found.symm (Option.some_ne_none radix)
      | cons one tail =>
          exact ⟨radix, text ++ [one], lexer.skip, [], lexer.skip, rfl,
            reads.trans (Reads.skip rest).1, Reads.refl _, [one], List.append_nil _⟩
  · exact ⟨10, [], first, text, lexer, rfl, Reads.refl _, reads, [],
      (List.append_nil text).symm⟩

theorem decode_yields (radix : Nat) (digits : List Char) (literal : Span)
    (reads : Reads first text lexer) :
    Yields first text (· ≠ .eof) (some (lexer.decode radix digits literal)) := by
  rw [Lexer.decode]
  split
  · exact Yields.here TokenKind.noConfusion reads
  · split
    · exact Yields.here TokenKind.noConfusion reads
    · exact Yields.here TokenKind.noConfusion (reads.emitted _)

theorem decimalPoint_yields (radix : Nat) (digits : List Char) {literal : Span}
    (reads : Reads first text lexer) (small : first.Small)
    (stop : literal.stop.toNat = lexer.pos) (dot : lexer.peek = some '.') :
    Yields first text (· ≠ .eof)
      (lexer.decimalPoint unicode first.pos radix digits literal) := by
  rcases List.head?_eq_some_iff.1 dot with ⟨tail, rest⟩
  have onward := (Reads.skip rest).1.trans
    (Reads.bumpWhile (fun c => unicode.isAlphanumeric c || c == '_') lexer.skip)
  have all := reads.trans onward
  rcases all.span small with ⟨span, made, -⟩
  simp only [Lexer.decimalPoint, made, all.sliced, stop, reads.sliced_early onward,
    Option.bind_eq_bind, Option.bind_some]
  exact Yields.after (Yields.here TokenKind.noConfusion (all.emitted _))

theorem invalidDigit_yields {mid : Lexer} {lead run : List Char} {radix bad : Nat}
    (literal : Span) (left : Reads first lead mid) (right : Reads mid run lexer)
    (small : first.Small) (found : Lexer.findInvalid radix run mid.pos = some bad) :
    Yields first (lead ++ run) (· ≠ .eof)
      (lexer.invalidDigit mid.pos radix literal bad) := by
  rcases findInvalid_some found with ⟨good, one, others, rfl, rfl⟩
  have whole : lexer.src = (mid.before ++ good) ++ (one :: (others ++ lexer.rest)) := by
    rw [Lexer.src, right.before]
    simp
  have place : mid.pos + bytes good = bytes (mid.before ++ good) := by
    rw [bytes_append, Lexer.pos]
  have bound : mid.pos + bytes good + one.utf8Size < 2 ^ 32 := by
    have fits := (left.trans right).small small
    rw [Lexer.Small, whole, bytes_append, bytes_cons, ← place] at fits
    omega
  have tail : dropBytes lexer.src (mid.pos + bytes good) =
      some (one :: (others ++ lexer.rest)) := by
    rw [whole, place, dropBytes_append]
  have digits : ∀ diagnostic, (lexer.emit diagnostic).text mid.pos (mid.pos + bytes good) =
      some good := by
    intro diagnostic
    show slice lexer.src mid.pos (mid.pos + bytes good) = some good
    rw [whole, List.append_assoc]
    exact slice_append _ _ _
  rcases Span.new_of_le (Nat.le_add_right (mid.pos + bytes good) one.utf8Size) bound with
    ⟨span, made, -⟩
  simp only [Lexer.invalidDigit, tail, List.head?_cons, Option.getD_some, made, digits,
    Option.bind_eq_bind, Option.bind_some]
  exact Yields.here TokenKind.noConfusion ((left.trans right).emitted _)

theorem number_yields (c : Char) (reads : Reads first text lexer) (small : first.Small) :
    Yields first text (· ≠ .eof) (lexer.number unicode first.pos c) := by
  rcases numberStart_reads c reads with ⟨radix, lead, mid, run, next, start, left, onward, more, same⟩
  have right := onward.trans
    (Reads.bumpWhile (fun c => unicode.isAlphanumeric c || c == '_') next)
  have all := left.trans right
  rcases all.span small with ⟨literal, made, -, stop⟩
  rw [← List.append_assoc, same, List.append_assoc] at all
  simp only [Lexer.number, start, right.sliced, made, Option.bind_eq_bind, Option.bind_some]
  split
  · next point => exact Yields.after (decimalPoint_yields radix _ all small stop point.1)
  · split
    · simp only [left.sliced_early right, Option.bind_some]
      exact Yields.after (Yields.here TokenKind.noConfusion (all.emitted _))
    · split
      · next bad found =>
          have yields := invalidDigit_yields literal left right small found
          rw [← List.append_assoc, same, List.append_assoc] at yields
          exact Yields.after yields
      · exact Yields.after (decode_yields radix _ literal all)

/-! ### Strings -/

theorem unterminatedString_goes (reached : String) (reads : Reads first text lexer)
    (small : first.Small) :
    Goes first text (lexer.unterminatedString first.pos reached) := by
  rcases reads.span small with ⟨span, made, -⟩
  simp only [Lexer.unterminatedString, made, Option.bind_eq_bind, Option.bind_some]
  exact Goes.emitted reads _

/-- The escapes, each from where its backslash stands. -/
theorem noBrace_goes (reads : Reads first text lexer) (small : first.Small) :
    Goes first text (lexer.noBrace first.pos) := by
  rcases reads.span small with ⟨span, made, -⟩
  simp only [Lexer.noBrace, made, Option.bind_eq_bind, Option.bind_some]
  exact Goes.emitted reads _

theorem noClosingBrace_goes (digits : List Char) (reads : Reads first text lexer)
    (small : first.Small) :
    Goes first text (lexer.noClosingBrace unicode first.pos digits) := by
  rcases reads.span small with ⟨span, made, -⟩
  simp only [Lexer.noClosingBrace, made, Option.bind_eq_bind, Option.bind_some]
  exact Goes.emitted reads _

theorem unknownEscape_goes (other : Char) (reads : Reads first text lexer)
    (small : first.Small) :
    Goes first text (lexer.unknownEscape first.pos other) := by
  rcases reads.span small with ⟨span, made, -⟩
  simp only [Lexer.unknownEscape, made, Option.bind_eq_bind, Option.bind_some]
  exact Goes.emitted reads _

theorem codepoint_yields (digits : List Char) (reads : Reads first text lexer)
    (small : first.Small) :
    Yields first text (fun _ => True) (lexer.codepoint first.pos digits) := by
  rcases reads.span small with ⟨span, made, -⟩
  simp only [Lexer.codepoint, made, Option.bind_eq_bind, Option.bind_some]
  split
  · exact Yields.here trivial (reads.emitted _)
  · split
    · exact Yields.here trivial reads
    · exact Yields.here trivial (reads.emitted _)

/-- An escape that appends nothing. -/
theorem Goes.yields {result : Option Lexer} (goes : Goes first text result) :
    Yields first text (fun _ : Option Char => True)
      (result.bind fun lexer => some (none, lexer)) := by
  rcases goes with ⟨more, next, rfl, reads⟩
  exact ⟨none, more, next, rfl, reads, trivial⟩

theorem unicodeEscape_yields (reads : Reads first text lexer) (small : first.Small) :
    Yields first text (fun _ => True) (lexer.unicodeEscape unicode first.pos) := by
  rw [Lexer.unicodeEscape]
  rcases eat_cases lexer '\x7b' with ⟨brace, eaten, more⟩ | left
  · have inside := Reads.bumpWhile isAsciiHexdigit brace
    have all := (reads.trans more).trans inside
    simp only [eaten, inside.sliced, Option.bind_eq_bind, Option.bind_some]
    rcases eat_cases (brace.bumpWhile isAsciiHexdigit) '\x7d' with ⟨next, closed, last⟩ | missing
    · rw [closed]
      exact Yields.after (Yields.after (Yields.after
        (codepoint_yields _ (all.trans last) small)))
    · rw [missing]
      exact Yields.after (Yields.after (noClosingBrace_goes _ all small).yields)
  · rw [left]
    exact (noBrace_goes reads small).yields

/-- `first` stands at the backslash here. -/
theorem escape_yields (reads : Reads first ['\\'] lexer) (small : first.Small) :
    Yields first ['\\'] (fun _ => True) (lexer.escape unicode) := by
  have backslash : lexer.pos - 1 = first.pos := by
    rw [reads.pos]
    exact Nat.add_sub_cancel first.pos 1
  rw [Lexer.escape, backslash]
  cases rest : lexer.rest with
  | nil =>
      have ended : lexer.bump = none := by rw [Lexer.bump, rest]
      rw [ended]
      exact Yields.here trivial reads
  | cons c tail =>
      rcases Reads.bump rest with ⟨next, bumped, -, more, -⟩
      have both := reads.trans more
      rw [bumped]
      simp only
      split
      · exact Yields.here trivial reads
      · split
        · exact Yields.after (unicodeEscape_yields both small)
        · split
          · exact Yields.after (Yields.here trivial both)
          · exact Yields.after (unknownEscape_goes c both small).yields

/-- Each turn reads a character, so there are turns enough. -/
theorem string_yields {turns : Nat} (value : List Char) (reads : Reads first text lexer)
    (small : first.Small) (enough : lexer.rest.length < turns) :
    Yields first text (· ≠ .eof) (Lexer.string unicode first.pos turns value lexer) := by
  induction turns generalizing text value lexer with
  | zero => exact absurd enough (Nat.not_lt_zero _)
  | succ turns ih =>
      rw [Lexer.string]
      cases rest : lexer.rest with
      | nil =>
          have ended : lexer.bump = none := by rw [Lexer.bump, rest]
          rcases unterminatedString_goes "end of file" reads small with ⟨more, next, goes, all⟩
          rw [ended]
          simp only [goes, Option.bind_eq_bind, Option.bind_some]
          exact ⟨_, more, next, rfl, all, TokenKind.noConfusion⟩
      | cons c tail =>
          rcases Reads.bump rest with ⟨next, bumped, -, more, left⟩
          rw [rest, List.length_cons] at enough
          rw [bumped]
          simp only
          split
          · rcases unterminatedString_goes "end of line" reads small with
              ⟨more, next, goes, all⟩
            simp only [goes, Option.bind_eq_bind, Option.bind_some]
            exact ⟨_, more, next, rfl, all, TokenKind.noConfusion⟩
          · split
            · exact Yields.after (Yields.here TokenKind.noConfusion (reads.trans more))
            · split
              · next backslash =>
                  rw [backslash] at more
                  have escapes : Yields lexer ['\\'] (fun _ => True) (next.escape unicode) :=
                    escape_yields more (reads.small small)
                  rcases escapes with ⟨decoded, others, onward, escaped, both, -⟩
                  have shorter := both.rest
                  rw [rest, List.cons_append, List.nil_append, List.cons_append] at shorter
                  simp only [escaped, Option.bind_eq_bind, Option.bind_some]
                  apply Yields.after (ih _ (reads.trans both) _)
                  have lengths := congrArg List.length (List.cons.inj shorter).2
                  rw [List.length_append] at lengths
                  omega
              · apply Yields.after (ih _ (reads.trans more) _)
                rw [left]
                omega

/-! ### A token -/

theorem single_ne_eof {c : Char} {kind : TokenKind} (found : Lexer.single c = some kind) :
    kind ≠ .eof := by
  rintro rfl
  unfold Lexer.single at found
  split at found <;> cases found

theorem operator_ne_eof {c : Char} {longer : List (Char × TokenKind)} {alone : TokenKind}
    (found : Lexer.operator c = some (longer, alone)) :
    alone ≠ .eof ∧ ∀ entry ∈ longer, entry.2 ≠ .eof := by
  unfold Lexer.operator at found
  split at found <;> cases found <;> decide

/-- Whatever the first character is, a token comes of it. -/
theorem token_yields (c : Char) (reads : Reads first text lexer) (small : first.Small) :
    Yields first text (· ≠ .eof) (lexer.token unicode first.pos c) := by
  rw [Lexer.token]
  split
  · next kind found => exact Yields.here (single_ne_eof found) reads
  · split
    · next longer alone found =>
        exact longest_yields (operator_ne_eof found).1 (operator_ne_eof found).2 reads
    · split
      · exact ampersand_yields reads small
      · split
        · exact string_yields [] reads small (Nat.lt_succ_self _)
        · split
          · exact number_yields c reads small
          · split
            · exact ident_yields reads
            · rcases unknownCharacter_goes c reads small with ⟨more, next, goes, all⟩
              rw [goes]
              exact ⟨.error, more, next, rfl, all, TokenKind.noConfusion⟩

end Branches

end Deed.Lexer
