import Deed.Lexer.Reading
import Deed.Library.Tiling

/-!
# The lexer tiles the source

Every turn of the lexer lays one more piece of the text: a byte order mark, a blank, a
comment, a comment that is never closed, or a token.  A piece stands where its span says.
-/

namespace Deed.Lexer

open Deed.Library

/-- What a piece of the text is. -/
inductive Tile where
  | mark
  | blank
  | comment (comment : Trivia)
  | unclosed (diagnostic : Diagnostic)
  | token (token : Token)

namespace Tile

def token? : Tile → Option Token
  | .token here => some here
  | _ => none

def comment? : Tile → Option Trivia
  | .comment here => some here
  | _ => none

def isToken (tile : Tile) : Bool := tile.token?.isSome

/-- The span of a token or a comment. -/
def span? (tile : Tile) : Option Span :=
  match tile with
  | .token here => some here.span
  | .comment here => some here.span
  | _ => none

end Tile

/-- A span covers exactly the text behind some characters. -/
structure Stands (before : List Char) (text : List Char) (span : Span) : Prop where
  some_ : text ≠ []
  start : span.start.toNat = bytes before
  stop : span.stop.toNat = bytes before + bytes text

/-- A piece stands behind the ones that come before it. -/
def Fits (diagnostics : List Diagnostic) (front : Pieces Tile Char) (tile : Tile)
    (text : List Char) : Prop :=
  match tile with
  | .mark => front = [] ∧ text = [byteOrderMark]
  | .blank => ∃ c, text = [c] ∧ isWhitespace c = true
  | .comment comment => Stands (laid front) text comment.span
  | .unclosed diagnostic => diagnostic ∈ diagnostics ∧
      diagnostic.code = Codes.UNTERMINATED_BLOCK_COMMENT ∧
      diagnostic.primary.span.start.toNat = bytes (laid front) ∧
      ∃ inside, text = '/' :: '*' :: inside
  | .token token => Stands (laid front) text token.span ∧ token.kind ≠ .eof ∧
      (token.startsLine = true ↔ '\n' ∈ since Tile.isToken front)

theorem Fits.mono {diagnostics others : List Diagnostic} (more : diagnostics ⊆ others)
    (front : Pieces Tile Char) (tile : Tile) (text : List Char)
    (fits : Fits diagnostics front tile text) : Fits others front tile text := by
  cases tile with
  | mark => exact fits
  | blank => exact fits
  | comment comment => exact fits
  | unclosed diagnostic => exact ⟨more fits.1, fits.2⟩
  | token token => exact fits

/-- The lexer has laid these pieces so far. -/
structure Laid (pieces : Pieces Tile Char) (lexer : Lexer) : Prop where
  before : lexer.before = laid pieces
  tokens : lexer.tokens = pieces.filterMap fun piece => piece.1.token?
  trivia : lexer.trivia = pieces.filterMap fun piece => piece.1.comment?
  placed : Placed (Fits lexer.diagnostics) pieces

variable {pieces more : Pieces Tile Char} {lexer next : Lexer} {text : List Char}
  {unicode : Unicode}

/-- One more piece. -/
theorem Laid.concat (laid_ : Laid pieces lexer) {tile : Tile}
    (before : next.before = lexer.before ++ text)
    (tokens : next.tokens = lexer.tokens ++ tile.token?.toList)
    (trivia : next.trivia = lexer.trivia ++ tile.comment?.toList)
    (diagnostics : lexer.diagnostics ⊆ next.diagnostics)
    (fits : Fits next.diagnostics pieces tile text) : Laid (pieces ++ [(tile, text)]) next := by
  refine ⟨?_, ?_, ?_, ?_⟩
  · rw [before, laid_.before, laid_append, laid_cons, laid_nil, List.append_nil]
  · rw [tokens, laid_.tokens, List.filterMap_append]
    cases tile <;> rfl
  · rw [trivia, laid_.trivia, List.filterMap_append]
    cases tile <;> rfl
  · exact .concat (laid_.placed.mono (Fits.mono diagnostics)) fits

/-! ## Comments -/

theorem peeked {one two : Char} (first : lexer.peek = some one)
    (second : lexer.peekSecond = some two) :
    ∃ tail, lexer.rest = one :: two :: tail := by
  rcases List.head?_eq_some_iff.1 first with ⟨tail, rest⟩
  rw [Lexer.peekSecond, rest] at second
  rcases List.head?_eq_some_iff.1 second with ⟨others, same⟩
  rw [List.tail_cons] at same
  exact ⟨others, by rw [rest, same]⟩

/-- Two characters at once. -/
theorem Reads.skip_skip {one two : Char} {tail : List Char}
    (there : lexer.rest = one :: two :: tail) :
    Reads lexer [one, two] lexer.skip.skip ∧ lexer.skip.skip.rest = tail := by
  have first := Reads.skip there
  have second := Reads.skip first.2
  exact ⟨first.1.trans second.1, second.2⟩

theorem blockLoop_reads {turns depth : Nat} (enough : lexer.rest.length < turns) :
    ∃ left text next, lexer.blockLoop turns depth = some (left, next) ∧
      Reads lexer text next := by
  induction turns generalizing depth lexer with
  | zero => exact absurd enough (Nat.not_lt_zero _)
  | succ turns ih =>
      have onward : ∀ {text middle depth}, Reads lexer text middle → text ≠ [] →
          ∃ left more next, middle.blockLoop turns depth = some (left, next) ∧
            Reads lexer more next := by
        intro text middle depth reads nonempty
        have shorter : middle.rest.length < turns := by
          have lengths := congrArg List.length reads.rest
          have longer := List.length_pos_of_ne_nil nonempty
          rw [List.length_append] at lengths
          omega
        have further : ∃ left more next, middle.blockLoop turns depth = some (left, next) ∧
            Reads middle more next := ih shorter
        rcases further with ⟨left, more, next, answers, rest⟩
        exact ⟨left, _, next, answers, reads.trans rest⟩
      rw [Lexer.blockLoop]
      split
      · exact ⟨0, [], lexer, rfl, Reads.refl lexer⟩
      · split
        · next open_ =>
            rcases peeked open_.1 open_.2 with ⟨tail, rest⟩
            exact onward (Reads.skip_skip rest).1 (List.cons_ne_nil _ _)
        · split
          · next close =>
              rcases peeked close.1 close.2 with ⟨tail, rest⟩
              exact onward (Reads.skip_skip rest).1 (List.cons_ne_nil _ _)
          · split
            · next any_ =>
                rcases Option.isSome_iff_exists.1 any_ with ⟨one, first⟩
                rcases List.head?_eq_some_iff.1 first with ⟨tail, rest⟩
                exact onward (Reads.skip rest).1 (List.cons_ne_nil _ _)
            · exact ⟨depth, [], lexer, rfl, Reads.refl lexer⟩

/-- What one turn over blanks and comments does: it lays one piece that is no token. -/
def Lays (pieces : Pieces Tile Char) (lexer : Lexer) (result : Option Lexer) : Prop :=
  ∃ tile text next, result = some next ∧ Laid (pieces ++ [(tile, text)]) next ∧
    tile.isToken = false ∧ text ≠ [] ∧ lexer.rest = text ++ next.rest

theorem stands_of_reads (laid_ : Laid pieces lexer) (reads : Reads lexer text next)
    (nonempty : text ≠ []) {span : Span} (start : span.start.toNat = lexer.pos)
    (stop : span.stop.toNat = next.pos) : Stands (laid pieces) text span := by
  refine ⟨nonempty, ?_, ?_⟩
  · rw [start, Lexer.pos, laid_.before]
  · rw [stop, reads.pos, Lexer.pos, laid_.before]

theorem blank_lays (laid_ : Laid pieces lexer) {c : Char} (blank : isWhitespace c = true)
    {tail : List Char} (there : lexer.rest = c :: tail) :
    Lays pieces lexer (some lexer.skip) := by
  have reads := (Reads.skip there).1
  refine ⟨.blank, [c], lexer.skip, rfl, ?_, rfl, List.cons_ne_nil _ _, reads.rest⟩
  exact laid_.concat reads.before (by rw [reads.tokens]; exact (List.append_nil _).symm)
    (by rw [reads.trivia]; exact (List.append_nil _).symm) reads.diagnostics ⟨c, rfl, blank⟩

/-- A comment that was read to its end is noted. -/
theorem comment_lays (laid_ : Laid pieces lexer) (small : lexer.Small)
    (reads : Reads lexer text next) (nonempty : text ≠ []) (kind : TriviaKind) :
    Lays pieces lexer ((Span.new lexer.pos next.pos).bind fun span =>
      some { next with trivia := next.trivia ++ [⟨kind, span⟩] }) := by
  rcases reads.span small with ⟨span, made, start, stop⟩
  rw [made, Option.bind_some]
  refine ⟨.comment ⟨kind, span⟩, text, _, rfl, ?_, rfl, nonempty, reads.rest⟩
  exact laid_.concat reads.before (by rw [reads.tokens]; exact (List.append_nil _).symm)
    (by rw [reads.trivia]; rfl) reads.diagnostics
    (stands_of_reads laid_ reads nonempty start stop)

theorem lineComment_lays (laid_ : Laid pieces lexer) (small : lexer.Small) {tail : List Char}
    (there : lexer.rest = '/' :: tail) : Lays pieces lexer lexer.lineComment := by
  have reads := Reads.bumpWhile (fun c => c != '\n') lexer
  apply comment_lays laid_ small reads
  rw [there]
  exact List.cons_ne_nil _ _

theorem blockComment_lays (laid_ : Laid pieces lexer) (small : lexer.Small)
    {tail : List Char} (there : lexer.rest = '/' :: '*' :: tail) :
    Lays pieces lexer lexer.blockComment := by
  have opening := (Reads.skip_skip there).1
  have inner : ∃ left inside next, lexer.skip.skip.blockLoop
      (lexer.skip.skip.rest.length + 1) 1 = some (left, next) ∧
        Reads lexer.skip.skip inside next := blockLoop_reads (Nat.lt_succ_self _)
  rcases inner with ⟨left, inside, next, answers, onward⟩
  have reads := opening.trans onward
  simp only [Lexer.blockComment, answers, Option.bind_eq_bind, Option.bind_some]
  split
  · have room : lexer.pos + 2 < 2 ^ 32 := by
      have fits := small
      rw [Lexer.Small, Lexer.src, there, bytes_append, bytes_cons, bytes_cons] at fits
      have slash : '/'.utf8Size = 1 := rfl
      have star : '*'.utf8Size = 1 := rfl
      rw [Lexer.pos]
      omega
    rcases Span.new_of_le (Nat.le_add_right lexer.pos 2) room with ⟨span, made, start, stop⟩
    rw [made, Option.bind_some]
    refine ⟨.unclosed _, _, _, rfl, laid_.concat (reads.emitted _).before
      (by rw [(reads.emitted _).tokens]; exact (List.append_nil _).symm)
      (by rw [(reads.emitted _).trivia]; exact (List.append_nil _).symm)
      (reads.emitted _).diagnostics
      ⟨List.mem_append_right _ List.mem_cons_self, rfl, ?_, inside, rfl⟩,
      rfl, List.cons_ne_nil _ _, reads.rest⟩
    rw [← laid_.before]
    exact start
  · exact comment_lays laid_ small reads (List.cons_ne_nil _ _) .block

/-! ## Between two tokens -/

theorem Laid.small (laid_ : Laid pieces lexer) (further : Laid (pieces ++ more) next)
    (rest : lexer.rest = laid more ++ next.rest) (small : lexer.Small) : next.Small := by
  rw [Lexer.Small, Lexer.src, laid_.before, rest, ← List.append_assoc, ← laid_append,
    ← further.before] at small
  exact small

/-- Each turn reads something, so there are turns enough. -/
theorem triviaLoop_laid {turns : Nat} (laid_ : Laid pieces lexer) (small : lexer.Small)
    (enough : lexer.rest.length < turns) :
    ∃ more next, lexer.triviaLoop turns = some next ∧ Laid (pieces ++ more) next ∧
      (∀ piece ∈ more, piece.1.isToken = false) ∧ lexer.rest = laid more ++ next.rest := by
  induction turns generalizing pieces lexer with
  | zero => exact absurd enough (Nat.not_lt_zero _)
  | succ turns ih =>
      have onward : ∀ {result}, Lays pieces lexer result → ∃ more next,
          result.bind (Lexer.triviaLoop turns) = some next ∧ Laid (pieces ++ more) next ∧
            (∀ piece ∈ more, piece.1.isToken = false) ∧
              lexer.rest = laid more ++ next.rest := by
        rintro result ⟨tile, text, middle, rfl, there, plain, nonempty, rest⟩
        have shorter : middle.rest.length < turns := by
          have lengths := congrArg List.length rest
          have longer := List.length_pos_of_ne_nil nonempty
          rw [List.length_append] at lengths
          omega
        have fits := laid_.small there (by rw [laid_cons, laid_nil, List.append_nil, rest]) small
        rcases ih there fits shorter with ⟨more, next, answers, further, others, left⟩
        refine ⟨(tile, text) :: more, next, answers, ?_, ?_, ?_⟩
        · rw [List.append_assoc] at further
          exact further
        · intro piece present
          rcases List.mem_cons.1 present with rfl | later
          · exact plain
          · exact others piece later
        · rw [laid_cons, List.append_assoc, ← left]
          exact rest
      rw [Lexer.triviaLoop]
      split
      · next blank =>
          rcases (Option.any_eq_true _ _).1 blank with ⟨c, first, white⟩
          rcases List.head?_eq_some_iff.1 first with ⟨tail, rest⟩
          exact onward (blank_lays laid_ white rest)
      · split
        · next line =>
            rcases peeked line.1 line.2 with ⟨tail, rest⟩
            exact onward (lineComment_lays laid_ small rest)
        · split
          · next block =>
              rcases peeked block.1 block.2 with ⟨tail, rest⟩
              exact onward (blockComment_lays laid_ small rest)
          · refine ⟨[], lexer, rfl, ?_, fun _ absent => absurd absent List.not_mem_nil, rfl⟩
            rw [List.append_nil]
            exact laid_

theorem skipTrivia_laid (laid_ : Laid pieces lexer) (small : lexer.Small) :
    ∃ more next, lexer.skipTrivia = some ((laid more).contains '\n', next) ∧
      Laid (pieces ++ more) next ∧ (∀ piece ∈ more, piece.1.isToken = false) ∧
        lexer.rest = laid more ++ next.rest := by
  rcases triviaLoop_laid laid_ small (Nat.lt_succ_self _) with
    ⟨more, next, answers, further, plain, rest⟩
  refine ⟨more, next, ?_, further, plain, rest⟩
  have skipped : next.text lexer.pos next.pos = some (laid more) := by
    rw [Lexer.text, Lexer.src, Lexer.pos, Lexer.pos, further.before, laid_append,
      ← laid_.before, bytes_append, List.append_assoc]
    exact slice_append _ _ _
  simp only [Lexer.skipTrivia, answers, skipped, Option.bind_eq_bind, Option.bind_some]

/-! ## The whole text -/

/-- A token is laid behind what was skipped. -/
theorem token_laid (laid_ : Laid pieces lexer) (small : lexer.Small) {c : Char}
    {tail : List Char} (there : lexer.rest = c :: tail) {broke : Bool}
    (line : broke = true ↔ '\n' ∈ since Tile.isToken pieces) :
    ∃ read kind text next span, lexer.bump = some (c, read) ∧
      read.token unicode lexer.pos c = some (kind, next) ∧
      Span.new lexer.pos next.pos = some span ∧
      lexer.rest = c :: text ++ next.rest ∧
      Laid (pieces ++ [(.token ⟨kind, span, broke⟩, c :: text)])
        { next with tokens := next.tokens ++ [⟨kind, span, broke⟩] } := by
  rcases Reads.bump there with ⟨read, bumped, -, reads, -⟩
  have yields : Yields lexer [c] (· ≠ .eof) (read.token unicode lexer.pos c) :=
    token_yields c reads small
  rcases yields with ⟨kind, text, next, answers, all, plain⟩
  rcases all.span small with ⟨span, made, start, stop⟩
  refine ⟨read, kind, text, next, span, bumped, answers, made, all.rest, ?_⟩
  exact laid_.concat all.before (by rw [all.tokens]; rfl)
    (by rw [all.trivia]; exact (List.append_nil _).symm) all.diagnostics
    ⟨stands_of_reads laid_ all (List.cons_ne_nil _ _) start stop, plain, line⟩

/-- Each turn but the last reads a token, so there are turns enough. -/
theorem loop_laid {turns : Nat} (laid_ : Laid pieces lexer) (small : lexer.Small)
    (fresh : '\n' ∉ since Tile.isToken pieces) (enough : lexer.rest.length < turns) :
    ∃ whole last, Lexer.loop unicode turns lexer = some last ∧ Laid whole last ∧
      last.rest = [] ∧ last.src = lexer.src := by
  induction turns generalizing pieces lexer with
  | zero => exact absurd enough (Nat.not_lt_zero _)
  | succ turns ih =>
      rcases skipTrivia_laid laid_ small with ⟨more, next, skips, further, plain, rest⟩
      have fits := laid_.small further rest small
      have same : next.src = lexer.src := by
        rw [Lexer.src, Lexer.src, further.before, laid_.before, laid_append, rest,
          List.append_assoc]
      have line : (laid more).contains '\n' = true ↔
          '\n' ∈ since Tile.isToken (pieces ++ more) := by
        rw [since_append plain, List.contains_iff_mem, List.mem_append]
        exact ⟨Or.inr, fun either => either.resolve_left fresh⟩
      simp only [Lexer.loop, skips, Option.bind_eq_bind, Option.bind_some]
      cases left : next.rest with
      | nil =>
          have ended : next.bump = none := by rw [Lexer.bump, left]
          rw [ended]
          exact ⟨pieces ++ more, next, rfl, further, left, same⟩
      | cons c tail =>
          rcases @token_laid _ _ unicode further fits _ _ left _ line with
            ⟨read, kind, text, after, span, bumped, answers, made, onward, there⟩
          have shorter : after.rest.length < turns := by
            have first := congrArg List.length rest
            have second := congrArg List.length onward
            rw [List.length_append] at first second
            rw [List.length_cons] at second
            omega
          have source : after.src = next.src := by
            have before : after.before = laid (pieces ++ more) ++ (c :: text) := by
              have whole := there.before
              rw [laid_append _ [_], laid_cons, laid_nil, List.append_nil] at whole
              exact whole
            rw [Lexer.src, before, Lexer.src, further.before, onward, List.append_assoc]
          have unbroken : '\n' ∉ since Tile.isToken
              (pieces ++ more ++
                [(Tile.token ⟨kind, span, (laid more).contains '\n'⟩, c :: text)]) := by
            rw [since_concat]
            exact List.not_mem_nil
          rw [bumped]
          simp only [answers, made, Option.bind_some]
          rcases ih there (show bytes after.src < 2 ^ 32 by rw [source]; exact fits) unbroken
            shorter with ⟨whole, last, runs, result, empty, text_⟩
          exact ⟨whole, last, runs, result, empty, text_.trans (source.trans same)⟩

theorem opened_laid (file : FileId) (text : List Char) :
    ∃ pieces, Laid pieces (opened file text) ∧ '\n' ∉ since Tile.isToken pieces ∧
      (opened file text).src = text := by
  cases text with
  | nil => exact ⟨[], ⟨rfl, rfl, rfl, .nil⟩, List.not_mem_nil, rfl⟩
  | cons c rest =>
      rw [opened]
      split
      · next mark =>
          refine ⟨[(.mark, [c])], ⟨rfl, rfl, rfl, ?_⟩, ?_, rfl⟩
          · rw [mark]
            exact .concat .nil ⟨rfl, rfl⟩
          · rw [mark]
            decide
      · exact ⟨[], ⟨rfl, rfl, rfl, .nil⟩, List.not_mem_nil, rfl⟩

end Deed.Lexer
