import Deed.Lexer.Tiling

/-!
# What tokenising promises

For every text of fewer than 2^32 bytes: the tokens and the comments stand on character
boundaries, in order and apart, the one end of the file stands at the end of the text, and
what lies outside them is blank, the byte order mark or a comment that is never closed.
-/

namespace Deed.Lexer

open Deed.Library

/-! ## The promise -/

/-- The spans of the tokens and the comments. -/
def Lexed.spans (lexed : Lexed) : List Span :=
  lexed.tokens.map Token.span ++ lexed.trivia.map Trivia.span

/-- A character starts, or the text ends, at the offset. -/
def Boundary (text : List Char) (offset : UInt32) : Prop :=
  ∃ before rest, text = before ++ rest ∧ bytes before = offset.toNat

/-- A span comes before another, and is not empty. -/
def Span.Ahead (span other : Span) : Prop :=
  span.start.toNat < span.stop.toNat ∧ span.stop.toNat ≤ other.start.toNat

/-- A block comment was reported that starts no later and never ends. -/
def InReported (text : List Char) (lexed : Lexed) (offset : Nat) : Prop :=
  ∃ diagnostic ∈ lexed.diagnostics, diagnostic.code = Codes.UNTERMINATED_BLOCK_COMMENT ∧
    diagnostic.primary.span.start.toNat ≤ offset ∧
    ∃ before inside, text = before ++ '/' :: '*' :: inside ∧
      bytes before = diagnostic.primary.span.start.toNat

/-- The tokens and the comments of a text tile it. -/
structure Tiles (text : List Char) (lexed : Lexed) : Prop where
  boundaries : ∀ span ∈ lexed.spans, Boundary text span.start ∧ Boundary text span.stop
  tokens : lexed.tokens.Pairwise fun token other => token.span.Ahead other.span
  trivia : lexed.trivia.Pairwise fun comment other => comment.span.Ahead other.span
  comments : ∀ comment ∈ lexed.trivia, comment.span.start.toNat < comment.span.stop.toNat
  apart : ∀ token ∈ lexed.tokens, ∀ comment ∈ lexed.trivia,
    token.span.Ahead comment.span ∨ comment.span.Ahead token.span
  ended : ∃ front eof, lexed.tokens = front ++ [eof] ∧ eof.kind = .eof ∧
    eof.span.start.toNat = bytes text ∧ eof.span.stop.toNat = bytes text ∧
    ∀ token ∈ front, token.kind ≠ .eof
  covered : ∀ before c rest, text = before ++ c :: rest →
    (∃ span ∈ lexed.spans, span.start.toNat ≤ bytes before ∧
      bytes before + c.utf8Size ≤ span.stop.toNat) ∨
    isWhitespace c = true ∨ (before = [] ∧ c = byteOrderMark) ∨
    InReported text lexed (bytes before)

/-- Where the last of some tokens ends. -/
def ending (front : List Token) : Nat := (front.getLast?).elim 0 fun token => token.span.stop.toNat

/-- A line break comes between a token and the ones before it. -/
def Breaks (text : List Char) (front : List Token) (token : Token) : Prop :=
  ∃ gap, slice text (ending front) token.span.start.toNat = some gap ∧ '\n' ∈ gap

/-! ## From the pieces -/

variable {text : List Char} {pieces : Pieces Tile Char} {diagnostics : List Diagnostic}

/-- A piece that has a span stands where it says. -/
theorem Fits.stands {front : Pieces Tile Char} {tile : Tile} {part : List Char}
    (fits : Fits diagnostics front tile part) {span : Span} (there : tile.span? = some span) :
    Stands (laid front) part span := by
  cases tile with
  | mark => exact absurd there.symm (Option.some_ne_none span)
  | blank => exact absurd there.symm (Option.some_ne_none span)
  | unclosed diagnostic => exact absurd there.symm (Option.some_ne_none span)
  | comment comment =>
      cases there
      exact fits
  | token token =>
      cases there
      exact fits.1

theorem Stands.start_lt {before part : List Char} {span : Span} (stands : Stands before part span) :
    span.start.toNat < span.stop.toNat := by
  rw [stands.start, stands.stop]
  cases part with
  | nil => exact absurd rfl stands.some_
  | cons c part =>
      have some_ := c.utf8Size_pos
      rw [bytes_cons]
      omega

theorem stands_of_mem (placed : Placed (Fits diagnostics) pieces) {piece : Tile × List Char}
    (present : piece ∈ pieces) {span : Span} (there : piece.1.span? = some span) :
    ∃ front back, pieces = front ++ piece :: back ∧ Stands (laid front) piece.2 span := by
  rcases List.append_of_mem present with ⟨front, back, split⟩
  exact ⟨front, back, split, (placed.fits_of_split split).stands there⟩

theorem stop_le (placed : Placed (Fits diagnostics) pieces) {piece : Tile × List Char}
    (present : piece ∈ pieces) {span : Span} (there : piece.1.span? = some span) :
    span.stop.toNat ≤ bytes (laid pieces) := by
  rcases stands_of_mem placed present there with ⟨front, back, rfl, stands⟩
  rw [stands.stop, laid_append, laid_cons, bytes_append, bytes_append]
  omega

/-- A piece comes before another, where both have spans. -/
def Before (piece other : Tile × List Char) : Prop :=
  ∀ span, piece.1.span? = some span → ∀ span', other.1.span? = some span' → span.Ahead span'

theorem pieces_ordered (placed : Placed (Fits diagnostics) pieces) : pieces.Pairwise Before := by
  induction placed with
  | nil => exact List.Pairwise.nil
  | @concat pieces tile part placed fits ih =>
      refine List.pairwise_append.2 ⟨ih, List.pairwise_singleton _ _, ?_⟩
      intro piece present other last span there span' there'
      cases List.mem_singleton.1 last
      rcases stands_of_mem placed present there with ⟨front, back, split, stands⟩
      refine ⟨stands.start_lt, ?_⟩
      rw [(fits.stands there').start]
      exact stop_le placed present there

theorem span_of_token {tile : Tile} {token : Token} (there : tile.token? = some token) :
    tile = .token token := by
  cases tile with
  | token other =>
      cases there
      rfl
  | mark => exact absurd there.symm (Option.some_ne_none token)
  | blank => exact absurd there.symm (Option.some_ne_none token)
  | comment comment => exact absurd there.symm (Option.some_ne_none token)
  | unclosed diagnostic => exact absurd there.symm (Option.some_ne_none token)

theorem span_of_comment {tile : Tile} {comment : Trivia}
    (there : tile.comment? = some comment) : tile = .comment comment := by
  cases tile with
  | comment other =>
      cases there
      rfl
  | mark => exact absurd there.symm (Option.some_ne_none comment)
  | blank => exact absurd there.symm (Option.some_ne_none comment)
  | token token => exact absurd there.symm (Option.some_ne_none comment)
  | unclosed diagnostic => exact absurd there.symm (Option.some_ne_none comment)

section Finished

variable {lexer : Lexer} (laid_ : Laid pieces lexer)
include laid_

theorem piece_of_token {token : Token} (present : token ∈ lexer.tokens) :
    ∃ part, (Tile.token token, part) ∈ pieces := by
  rw [laid_.tokens] at present
  rcases List.mem_filterMap.1 present with ⟨piece, listed, there⟩
  refine ⟨piece.2, ?_⟩
  rw [← span_of_token there]
  exact listed

theorem piece_of_comment {comment : Trivia} (present : comment ∈ lexer.trivia) :
    ∃ part, (Tile.comment comment, part) ∈ pieces := by
  rw [laid_.trivia] at present
  rcases List.mem_filterMap.1 present with ⟨piece, listed, there⟩
  refine ⟨piece.2, ?_⟩
  rw [← span_of_comment there]
  exact listed

/-- Two different pieces are in one order or in the other. -/
theorem pieces_apart {piece other : Tile × List Char} (here : piece ∈ pieces)
    (there : other ∈ pieces) (different : piece ≠ other) :
    Before piece other ∨ Before other piece := by
  have symmetric : Std.Symm fun one another : Tile × List Char =>
      Before one another ∨ Before another one := ⟨fun _ _ => Or.symm⟩
  have either := (pieces_ordered laid_.placed).imp fun {one another} ahead =>
    (Or.inl ahead : Before one another ∨ Before another one)
  exact either.forall here there different

theorem spans_ordered {κ : Type} (part? : Tile → Option κ) (span : κ → Span)
    (known : ∀ tile one, part? tile = some one → tile.span? = some (span one)) :
    (pieces.filterMap fun piece => part? piece.1).Pairwise fun one other =>
      (span one).Ahead (span other) := by
  rw [List.pairwise_filterMap]
  apply (pieces_ordered laid_.placed).imp
  intro piece other ahead one here another there
  exact ahead _ (known _ _ here) _ (known _ _ there)

theorem tokens_ordered : lexer.tokens.Pairwise fun token other => token.span.Ahead other.span := by
  rw [laid_.tokens]
  apply spans_ordered laid_ Tile.token? Token.span
  intro tile token there
  rw [span_of_token there]
  rfl

theorem trivia_ordered :
    lexer.trivia.Pairwise fun comment other => comment.span.Ahead other.span := by
  rw [laid_.trivia]
  apply spans_ordered laid_ Tile.comment? Trivia.span
  intro tile comment there
  rw [span_of_comment there]
  rfl

/-- What a token is, from the piece it was laid as. -/
theorem token_fits {token : Token} (present : token ∈ lexer.tokens) :
    token.kind ≠ .eof ∧ token.span.start.toNat < token.span.stop.toNat ∧
      token.span.stop.toNat ≤ bytes lexer.before := by
  rcases piece_of_token laid_ present with ⟨part, listed⟩
  rcases List.append_of_mem listed with ⟨front, back, split⟩
  have fits := laid_.placed.fits_of_split split
  refine ⟨fits.2.1, fits.1.start_lt, ?_⟩
  rw [laid_.before]
  exact stop_le laid_.placed listed rfl

theorem piece_boundaries {piece : Tile × List Char} (present : piece ∈ pieces) {span : Span}
    (there : piece.1.span? = some span) :
    Boundary lexer.before span.start ∧ Boundary lexer.before span.stop := by
  rcases stands_of_mem laid_.placed present there with ⟨front, back, split, stands⟩
  have whole : lexer.before = laid front ++ (piece.2 ++ laid back) := by
    rw [laid_.before, split, laid_append, laid_cons]
  refine ⟨⟨laid front, piece.2 ++ laid back, whole, stands.start.symm⟩,
    laid front ++ piece.2, laid back, ?_, ?_⟩
  · rw [whole, List.append_assoc]
  · rw [bytes_append, stands.stop]

/-- Where a character stands in a piece, by what the piece is. -/
theorem piece_covers {lexed : Lexed} (tokens : lexer.tokens ⊆ lexed.tokens)
    (trivia : lexed.trivia = lexer.trivia) (diagnostics : lexed.diagnostics = lexer.diagnostics)
    {before rest : List Char} {c : Char} (split : lexer.before = before ++ c :: rest) :
    (∃ span ∈ lexed.spans, span.start.toNat ≤ bytes before ∧
      bytes before + c.utf8Size ≤ span.stop.toNat) ∨
    isWhitespace c = true ∨ (before = [] ∧ c = byteOrderMark) ∨
    InReported lexer.before lexed (bytes before) := by
  have cut := laid_.before.symm.trans split
  rcases laid_split cut with ⟨front, tile, early, late, back, whole, rfl⟩
  have fits := laid_.placed.fits_of_split whole
  have covers : ∀ span, Stands (laid front) (early ++ c :: late) span →
      span.start.toNat ≤ bytes (laid front ++ early) ∧
        bytes (laid front ++ early) + c.utf8Size ≤ span.stop.toNat := by
    intro span stands
    rw [stands.start, stands.stop, bytes_append, bytes_append, bytes_cons]
    omega
  have listed : (tile, early ++ c :: late) ∈ pieces := by
    rw [whole]
    exact List.mem_append_right _ List.mem_cons_self
  cases tile with
  | mark =>
      rcases fits with ⟨rfl, same⟩
      have alone : early = [] ∧ c = byteOrderMark := by
        cases early with
        | nil => exact ⟨rfl, (List.cons.inj same).1⟩
        | cons first early =>
            have tail := (List.cons.inj same).2
            exact absurd tail (List.append_ne_nil_of_right_ne_nil _ (List.cons_ne_nil _ _))
      rw [alone.1]
      exact Or.inr (Or.inr (Or.inl ⟨rfl, alone.2⟩))
  | blank =>
      rcases fits with ⟨one, same, white⟩
      have alone : c = one := by
        cases early with
        | nil => exact (List.cons.inj same).1
        | cons first early =>
            have tail := (List.cons.inj same).2
            exact absurd tail (List.append_ne_nil_of_right_ne_nil _ (List.cons_ne_nil _ _))
      rw [alone]
      exact Or.inr (Or.inl white)
  | comment comment =>
      have present : comment ∈ lexer.trivia := by
        rw [laid_.trivia]
        exact List.mem_filterMap.2 ⟨_, listed, rfl⟩
      refine Or.inl ⟨comment.span, List.mem_append_right _ ?_, covers _ fits⟩
      rw [trivia]
      exact List.mem_map.2 ⟨comment, present, rfl⟩
  | token token =>
      have present : token ∈ lexer.tokens := by
        rw [laid_.tokens]
        exact List.mem_filterMap.2 ⟨_, listed, rfl⟩
      exact Or.inl ⟨token.span, List.mem_append_left _
        (List.mem_map.2 ⟨token, tokens present, rfl⟩), covers _ fits.1⟩
  | unclosed diagnostic =>
      rcases fits with ⟨reported, code, start, inside, opens⟩
      refine Or.inr (Or.inr (Or.inr ⟨diagnostic, ?_, code, ?_, laid front,
        inside ++ laid back, ?_, start.symm⟩))
      · rw [diagnostics]
        exact reported
      · rw [start, bytes_append]
        exact Nat.le_add_right _ _
      · rw [laid_.before, whole, laid_append, laid_cons, opens]
        rfl

end Finished

/-! ## The end of the file -/

/-- What the lexer answers once the text is read. -/
theorem tokenize_laid (unicode : Unicode) (file : FileId) (src : String)
    (small : bytes src.toList < 2 ^ 32) :
    ∃ pieces lexer eof, Laid pieces lexer ∧ lexer.before = src.toList ∧
      tokenize unicode file src =
        some ⟨lexer.tokens ++ [eof], lexer.trivia, lexer.diagnostics⟩ ∧
      eof.kind = .eof ∧ eof.startsLine = true ∧ eof.span.start.toNat = bytes src.toList ∧
      eof.span.stop.toNat = bytes src.toList := by
  rcases opened_laid file src.toList with ⟨pieces, start, fresh, source⟩
  have fits : (opened file src.toList).Small := by
    rw [Lexer.Small, source]
    exact small
  have enough : (opened file src.toList).rest.length < src.toList.length + 1 := by
    have lengths := congrArg List.length source
    rw [Lexer.src, List.length_append] at lengths
    omega
  rcases @loop_laid _ _ unicode _ start fits fresh enough with
    ⟨whole, lexer, runs, finished, empty, same⟩
  have before : lexer.before = src.toList := by
    rw [← source, ← same, Lexer.src, empty, List.append_nil]
  have place := toNat_toUInt32 small
  refine ⟨whole, lexer, ⟨.eof, Span.at lexer.pos, true⟩, finished, before, ?_, rfl, rfl, ?_, ?_⟩
  · simp only [tokenize, runs, Option.bind_eq_bind, Option.bind_some]
  · rw [Lexer.pos, before]
    exact place
  · rw [Lexer.pos, before]
    exact place

theorem tiles_of_laid {lexer : Lexer} (laid_ : Laid pieces lexer) {eof : Token}
    (kind : eof.kind = .eof) (start : eof.span.start.toNat = bytes lexer.before)
    (stop : eof.span.stop.toNat = bytes lexer.before) :
    Tiles lexer.before ⟨lexer.tokens ++ [eof], lexer.trivia, lexer.diagnostics⟩ := by
  have apart : ∀ token ∈ lexer.tokens, ∀ comment ∈ lexer.trivia,
      token.span.Ahead comment.span ∨ comment.span.Ahead token.span := by
    intro token present comment listed
    rcases piece_of_token laid_ present with ⟨part, here⟩
    rcases piece_of_comment laid_ listed with ⟨other, there⟩
    have different : (Tile.token token, part) ≠ (Tile.comment comment, other) :=
      fun same => Tile.noConfusion (congrArg Prod.fst same)
    rcases pieces_apart laid_ here there different with ahead | behind
    · exact Or.inl (ahead _ rfl _ rfl)
    · exact Or.inr (behind _ rfl _ rfl)
  have comments : ∀ comment ∈ lexer.trivia,
      comment.span.start.toNat < comment.span.stop.toNat ∧
        comment.span.stop.toNat ≤ bytes lexer.before := by
    intro comment listed
    rcases piece_of_comment laid_ listed with ⟨part, there⟩
    rcases stands_of_mem laid_.placed there rfl with ⟨front, back, split, stands⟩
    refine ⟨stands.start_lt, ?_⟩
    rw [laid_.before]
    exact stop_le laid_.placed there rfl
  refine ⟨?_, ?_, trivia_ordered laid_, fun comment listed => (comments comment listed).1, ?_,
    ⟨lexer.tokens, eof, rfl, kind, start, stop, fun token present =>
      (token_fits laid_ present).1⟩, ?_⟩
  · intro span present
    rcases List.mem_append.1 present with token | comment
    · rcases List.mem_map.1 token with ⟨token, listed, rfl⟩
      rcases List.mem_append.1 listed with old | last
      · rcases piece_of_token laid_ old with ⟨part, here⟩
        exact piece_boundaries laid_ here rfl
      · rw [List.mem_singleton.1 last]
        exact ⟨⟨lexer.before, [], (List.append_nil _).symm, start.symm⟩,
          lexer.before, [], (List.append_nil _).symm, stop.symm⟩
    · rcases List.mem_map.1 comment with ⟨comment, listed, rfl⟩
      rcases piece_of_comment laid_ listed with ⟨part, there⟩
      exact piece_boundaries laid_ there rfl
  · refine List.pairwise_append.2 ⟨tokens_ordered laid_, List.pairwise_singleton _ _, ?_⟩
    intro token present other last
    rw [List.mem_singleton.1 last, Span.Ahead, start]
    exact (token_fits laid_ present).2
  · intro token present comment listed
    rcases List.mem_append.1 present with old | last
    · exact apart token old comment listed
    · right
      rw [List.mem_singleton.1 last, Span.Ahead, start]
      exact comments comment listed
  · intro before c rest split
    exact piece_covers laid_ (List.subset_append_left _ _) rfl rfl split

/-! ## Line breaks -/

theorem filterMap_unmarked {back : Pieces Tile Char}
    (plain : ∀ piece ∈ back, piece.1.isToken = false) :
    back.filterMap (fun piece => piece.1.token?) = [] := by
  rw [List.filterMap_eq_nil_iff]
  intro piece present
  have unmarked := Option.isSome_eq_false_iff.1 (plain piece present)
  exact Option.isNone_iff_eq_none.1 unmarked

/-- What was laid since the last token is the gap behind it. -/
theorem gap_since (placed : Placed (Fits diagnostics) pieces) :
    ∃ early, laid pieces = early ++ since Tile.isToken pieces ∧
      ending (pieces.filterMap fun piece => piece.1.token?) = bytes early := by
  rcases @laid_since _ _ Tile.isToken pieces with ⟨whole, plain⟩ | ⟨front, piece, back, rfl, marked, plain, part⟩
  · refine ⟨[], ?_, ?_⟩
    · rw [whole, List.nil_append]
    · rw [filterMap_unmarked plain]
      rfl
  · rcases Option.isSome_iff_exists.1 marked with ⟨token, there⟩
    refine ⟨laid front ++ piece.2, ?_, ?_⟩
    · rw [part, laid_append, laid_cons, List.append_assoc]
    · have stands : Stands (laid front) piece.2 token.span :=
        (placed.fits_of_split rfl).stands (by rw [span_of_token there]; rfl)
      rw [List.filterMap_append, List.filterMap_cons, there, filterMap_unmarked plain, ending,
        List.getLast?_append, List.getLast?_singleton, Option.some_or, Option.elim_some,
        stands.stop, bytes_append]

/-- A token starts a line exactly where a line break comes before it. -/
theorem breaks_of_laid {lexer : Lexer} (laid_ : Laid pieces lexer) {front back : List Token}
    {token : Token} (split : lexer.tokens = front ++ token :: back) :
    token.startsLine = true ↔ Breaks lexer.before front token := by
  rw [laid_.tokens] at split
  rcases List.filterMap_eq_append_iff.1 split with ⟨early, late, rfl, first, second⟩
  rcases List.filterMap_eq_cons_iff.1 second with ⟨plain, piece, others, rfl, none_, there, -⟩
  have whole : early ++ (plain ++ piece :: others) = (early ++ plain) ++ piece :: others :=
    (List.append_assoc _ _ _).symm
  have fits := laid_.placed.fits_of_split whole
  rw [span_of_token there] at fits
  have before : (early ++ plain).filterMap (fun piece => piece.1.token?) = front := by
    rw [List.filterMap_append, first, List.filterMap_eq_nil_iff.2 none_, List.append_nil]
  rcases gap_since (laid_.placed.of_append whole) with ⟨start, gap, ends⟩
  have cut : slice lexer.before (ending front) token.span.start.toNat =
      some (since Tile.isToken (early ++ plain)) := by
    rw [laid_.before, whole, laid_append, gap, ← before, ends, fits.1.start, gap, bytes_append,
      List.append_assoc]
    exact slice_append _ _ _
  rw [fits.2.2, Breaks, cut]
  constructor
  · intro broken
    exact ⟨_, rfl, broken⟩
  · rintro ⟨part, same, broken⟩
    exact Option.some.inj same ▸ broken

/-! ## The lexer -/

/--
Every text of fewer than 2^32 bytes is tiled, and a token starts a line exactly where a line
break comes before it; the end of the file always does.
-/
theorem tokenize_tiles (unicode : Unicode) (file : FileId) (src : String)
    (small : bytes src.toList < 2 ^ 32) :
    ∃ lexed, tokenize unicode file src = some lexed ∧ Tiles src.toList lexed ∧
      ∀ front token back, lexed.tokens = front ++ token :: back →
        (token.kind ≠ .eof → (token.startsLine = true ↔ Breaks src.toList front token)) ∧
          (token.kind = .eof → token.startsLine = true) := by
  rcases tokenize_laid unicode file src small with
    ⟨pieces, lexer, eof, laid_, before, answers, kind, line, start, stop⟩
  rw [← before] at start stop ⊢
  refine ⟨_, answers, tiles_of_laid laid_ kind start stop, ?_⟩
  intro front token back split
  rcases List.eq_nil_or_concat back with rfl | ⟨early, last, rfl⟩
  · rcases List.append_inj' split rfl with ⟨-, same⟩
    cases same
    exact ⟨fun different => absurd kind different, fun _ => line⟩
  · rw [List.concat_eq_append, ← List.cons_append, ← List.append_assoc] at split
    have inner := (List.append_inj' split rfl).1
    have present : token ∈ lexer.tokens := by
      rw [inner]
      exact List.mem_append_right _ List.mem_cons_self
    exact ⟨fun _ => breaks_of_laid laid_ inner,
      fun same => absurd same (token_fits laid_ present).1⟩

/-- The tables, as far as the letters and digits of ASCII go. -/
def ascii : Unicode := ⟨Char.isAlpha, Char.isDigit, Char.toString⟩

theorem tokenize_tiles_a : ∃ lexed, tokenize ascii 0 "a" = some lexed ∧
    Tiles "a".toList lexed ∧ ∀ front token back, lexed.tokens = front ++ token :: back →
      (token.kind ≠ .eof → (token.startsLine = true ↔ Breaks "a".toList front token)) ∧
        (token.kind = .eof → token.startsLine = true) :=
  tokenize_tiles ascii 0 "a" (by decide)

/-- The text is tiled and every token, the end of the file among them, starts a line exactly
where a line break comes before it. -/
def TilesThroughout (unicode : Unicode) (file : FileId) (src : String) : Prop :=
  ∃ lexed, tokenize unicode file src = some lexed ∧ Tiles src.toList lexed ∧
    ∀ front token back, lexed.tokens = front ++ token :: back →
      (token.startsLine = true ↔ Breaks src.toList front token)

theorem bytes_replicate (count : Nat) : bytes (List.replicate count 'a') = count := by
  induction count with
  | zero => rfl
  | succ count ih =>
      rw [List.replicate_succ, bytes_cons, ih]
      exact Nat.add_comm 1 count

/-- The end of the file starts a line that nothing broke, and has no place in a text whose
length does not fit in 32 bits. -/
theorem end_of_file_breaks :
    ¬ TilesThroughout ascii 0 "a" ∧
      ¬ TilesThroughout ascii 0 (String.ofList (List.replicate 4294967296 'a')) := by
  constructor
  · rintro ⟨lexed, answers, -, lines⟩
    have known : tokenize ascii 0 "a" = some ⟨[⟨.ident "a", ⟨0, 1⟩, false⟩,
        ⟨.eof, ⟨1, 1⟩, true⟩], [], []⟩ := by decide
    cases known.symm.trans answers
    rcases (lines [⟨.ident "a", ⟨0, 1⟩, false⟩] ⟨.eof, ⟨1, 1⟩, true⟩ [] rfl).1 rfl with
      ⟨gap, cut, broken⟩
    have empty : slice "a".toList (ending [⟨.ident "a", ⟨0, 1⟩, false⟩])
        (UInt32.toNat 1) = some [] := by decide
    cases empty.symm.trans cut
    exact absurd broken List.not_mem_nil
  · rintro ⟨lexed, -, tiles, -⟩
    rcases tiles.ended with ⟨front, eof, -, -, start, -⟩
    rw [String.toList_ofList, bytes_replicate] at start
    have small := eof.span.start.toNat_lt
    omega

end Deed.Lexer
