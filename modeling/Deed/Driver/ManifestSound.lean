import Deed.Driver.Manifest
import Deed.Lexer.Reading

/-!
# What the manifest parser accepts

The format of a manifest, line by line, and when the parser answers exactly what the lines say:
no line goes on right after the word `component`, and no offset is cut to 32 bits.
-/

namespace Deed.Driver.Manifests

open Deed.Lexer
open Deed.Library

variable {checks : Bool} {file : FileId} {text line before body after rest url digest : Text}
  {manifest final : Manifest} {start offset : UInt32} {position leading length : Nat}

/-! ## The format -/

/-- Where something is: its first byte and the one after its last. -/
abbrev Place : Type := Nat × Nat

/-- What a line declares, or that it is wrong. -/
inductive Meaning where
  | ignored
  | component (path : Text)
  | module_ (url digest : Text)
  | wrong
deriving DecidableEq, Repr

/-- The word, blanks and a path. -/
def IsComponent (body path : Text) : Prop :=
  ∃ gap, body = component ++ gap ++ path ∧ gap ≠ [] ∧ Blank isWhitespace gap ∧ path ≠ [] ∧
    ∀ c ∈ path.head?, isWhitespace c = false

/-- Sixty-four lowercase hexadecimal digits. -/
def IsDigest (digest : Text) : Prop :=
  digest.length = 64 ∧ ∀ c ∈ digest, ('0' ≤ c ∧ c ≤ '9') ∨ ('a' ≤ c ∧ c ≤ 'f')

/-- The word, a location and a digest. -/
def IsModule (body url digest : Text) : Prop :=
  ∃ gap gap', body = module_ ++ gap ++ url ++ gap' ++ sha256 ++ digest ∧
    gap ≠ [] ∧ Blank isWhitespace gap ∧ Word isWhitespace url ∧
    gap' ≠ [] ∧ Blank isWhitespace gap' ∧ IsDigest digest

/-- What is between the blanks at the ends of a line means. -/
inductive Means (body : Text) : Meaning → Prop where
  | comment : body.head? = some '#' → Means body .ignored
  | component {path : Text} : IsComponent body path → Means body (.component path)
  | module_ {url digest : Text} : IsModule body url digest → Means body (.module_ url digest)
  | wrong : body.head? ≠ some '#' → (∀ path, ¬IsComponent body path) →
      (∀ url digest, ¬IsModule body url digest) → Means body .wrong

/-- An entry of a manifest. -/
inductive Entry where
  | component (path : Text)
  | module_ (url digest : Text) (place : Place)
  | wrong (place : Place)
deriving DecidableEq, Repr

def Meaning.entry (place : Place) : Meaning → Option Entry
  | .ignored => none
  | .component path => some (.component path)
  | .module_ url digest => some (.module_ url digest place)
  | .wrong => some (.wrong place)

/-- What a line that begins at a position is an entry for. -/
inductive Says (position : Nat) (line : Text) : Option Entry → Prop where
  | blank : Blank isWhitespace line → Says position line none
  | content {before body after : Text} {meaning : Meaning} :
      Content isWhitespace line before body after → Means body meaning →
      Says position line (meaning.entry
        (position + bytes before, position + bytes before + bytes body))

/-- What the lines from a position on are entries for. -/
inductive Reads : Nat → List Text → List (Option Entry) → Prop where
  | nil {position : Nat} : Reads position [] []
  | cons {position : Nat} {line : Text} {lines : List Text} {entry : Option Entry}
      {entries : List (Option Entry)} : Says position line entry →
      Reads (position + bytes line) lines entries →
      Reads position (line :: lines) (entry :: entries)

def place (span : Span) : Place := (span.start.toNat, span.stop.toNat)

namespace Entry

def paths : Option Entry → List Text
  | some (.component path) => [path]
  | _ => []

def modules : Option Entry → List (Text × Text × Place)
  | some (.module_ url digest place) => [(url, digest, place)]
  | _ => []

def reports (file : FileId) : Option Entry → List (FileId × Place)
  | some (.wrong place) => [(file, place)]
  | _ => []

end Entry

namespace Manifest

def paths (manifest : Manifest) : List Text := manifest.components.map ComponentRoot.path

def fetched (manifest : Manifest) : List (Text × Text × Place) :=
  manifest.modules.map fun fetched => (fetched.url, fetched.hash, place fetched.span)

def reports (manifest : Manifest) : List (FileId × Place) :=
  manifest.diagnostics.map fun diagnostic => (diagnostic.file, place diagnostic.primary.span)

/-- A manifest goes on from another with some entries, in their order. -/
structure Adds (file : FileId) (manifest final : Manifest) (entries : List (Option Entry)) :
    Prop where
  paths : final.paths = manifest.paths ++ entries.flatMap Entry.paths
  fetched : final.fetched = manifest.fetched ++ entries.flatMap Entry.modules
  reports : final.reports = manifest.reports ++ entries.flatMap (Entry.reports file)

end Manifest

/-- The lines of a manifest, without its mark. -/
def linesOf (text : Text) : List Text := splitInclusive '\n' (withoutMark text).1

/-- The parser answers with what the lines of a text say, and with nothing else. -/
def Accepts (checks : Bool) (file : FileId) (text : Text) : Prop :=
  ∃ final entries, parseManifest checks file text = some final ∧
    Reads (withoutMark text).2 (linesOf text) entries ∧ Manifest.Adds file .empty final entries

/-! ## When it does -/

/-- The word `component` begins a line, and what follows it is no blank. -/
def Glued (line : Text) : Prop :=
  ∃ before body after c rest, Content isWhitespace line before body after ∧
    body = component ++ c :: rest ∧ isWhitespace c = false

/-- A line that a place is kept of: it is a module or it is wrong. -/
def Placed (line : Text) : Prop :=
  ∃ before body after, Content isWhitespace line before body after ∧
    body.head? ≠ some '#' ∧ ∀ path, ¬IsComponent body path

/-- Every line that a place is kept of ends within 32 bits. -/
def Ends : Nat → List Text → Prop
  | _, [] => True
  | position, line :: lines =>
      (Placed line → position + bytes (line.rdropWhile isWhitespace) < 2 ^ 32) ∧
        Ends (position + bytes line) lines

/-- The lengths of lines, each cut to 32 bits. -/
def counted (lines : List Text) : Nat := (lines.map fun line => bytes line % 2 ^ 32).sum

structure Fits (checks : Bool) (text : Text) : Prop where
  ends : Ends (withoutMark text).2 (linesOf text)
  counts : checks = true → (withoutMark text).2 + counted (linesOf text) < 2 ^ 32

/-! ## Forms -/

theorem IsComponent.head {path : Text} (form : IsComponent body path) :
    body.head? = some 'c' := by
  obtain ⟨gap, rfl, -⟩ := form
  rfl

theorem IsModule.head (form : IsModule body url digest) : body.head? = some 'm' := by
  obtain ⟨gap, gap', rfl, -⟩ := form
  rfl

theorem IsDigest.word (form : IsDigest digest) : Word isWhitespace digest := by
  refine ⟨fun none_ => ?_, fun c there => ?_⟩
  · have size := form.1
    rw [none_] at size
    cases size
  · have range : 48 ≤ c.toNat ∧ c.toNat ≤ 102 := by
      rcases form.2 c there with ⟨low, high⟩ | ⟨low, high⟩
      · exact ⟨low, Nat.le_trans high (by decide)⟩
      · exact ⟨Nat.le_trans (by decide) low, high⟩
    simp only [isWhitespace, Bool.or_eq_false_iff, Bool.and_eq_false_iff, decide_eq_false_iff_not,
      beq_eq_false_iff_ne]
    omega

theorem sha256_word (form : IsDigest digest) : Word isWhitespace (sha256 ++ digest) := by
  refine ⟨List.append_ne_nil_of_left_ne_nil (by decide) _, fun c there => ?_⟩
  rcases List.mem_append.1 there with front | back
  · have all : sha256.all fun c => !isWhitespace c := by decide
    have kept := List.all_eq_true.1 all c front
    rwa [Bool.not_eq_true'] at kept
  · exact form.word.solid c back

theorem IsModule.words_eq (form : IsModule body url digest) :
    ∃ rest, body = module_ ++ rest ∧ rest.head?.all isWhitespace = true ∧
      words isWhitespace rest = [url, sha256 ++ digest] := by
  obtain ⟨gap, gap', rfl, some_, blank, solid, some_', blank', right⟩ := form
  refine ⟨gap ++ (url ++ gap' ++ (sha256 ++ digest)), by simp, ?_, ?_⟩
  · rcases List.exists_cons_of_ne_nil some_ with ⟨head, more, rfl⟩
    exact blank head List.mem_cons_self
  · have goes : ∀ one ∈ (gap' ++ (sha256 ++ digest)).head?, isWhitespace one = true := by
      rcases List.exists_cons_of_ne_nil some_' with ⟨head, more, rfl⟩
      rintro one there
      cases there
      exact blank' head List.mem_cons_self
    rw [words_append blank, List.append_assoc, words_word_append solid goes,
      words_append blank', words_word (sha256_word right)]

theorem IsComponent.unique {path path' : Text} (form : IsComponent body path)
    (form' : IsComponent body path') : path' = path := by
  obtain ⟨gap, rfl, -, blank, -, first⟩ := form
  obtain ⟨gap', same, -, blank', -, first'⟩ := form'
  rw [List.append_assoc, List.append_assoc] at same
  have dropped := congrArg (List.dropWhile isWhitespace) (List.append_cancel_left same)
  rw [List.dropWhile_append_of_pos blank, List.dropWhile_append_of_pos blank',
    dropWhile_of_head first, dropWhile_of_head first'] at dropped
  exact dropped.symm

theorem IsModule.unique {url' digest' : Text} (form : IsModule body url digest)
    (form' : IsModule body url' digest') : url' = url ∧ digest' = digest := by
  obtain ⟨rest, rfl, -, listed⟩ := form.words_eq
  obtain ⟨rest', same, -, listed'⟩ := form'.words_eq
  rw [← List.append_cancel_left same, listed] at listed'
  have urls := (List.cons.inj listed').1
  have hashes := (List.cons.inj (List.cons.inj listed').2).1
  exact ⟨urls.symm, (List.append_cancel_left hashes).symm⟩

theorem Means.unique {meaning meaning' : Meaning} (means : Means body meaning)
    (means' : Means body meaning') : meaning' = meaning := by
  cases means with
  | comment here =>
      cases means' with
      | comment => rfl
      | component form => exact absurd (here.symm.trans form.head) (by decide)
      | module_ form => exact absurd (here.symm.trans form.head) (by decide)
      | wrong not => exact absurd here not
  | component form =>
      cases means' with
      | comment here => exact absurd (here.symm.trans form.head) (by decide)
      | component form' => rw [form.unique form']
      | module_ form' => exact absurd (form.head.symm.trans form'.head) (by decide)
      | wrong _ not => exact absurd form (not _)
  | module_ form =>
      cases means' with
      | comment here => exact absurd (here.symm.trans form.head) (by decide)
      | component form' => exact absurd (form.head.symm.trans form'.head) (by decide)
      | module_ form' =>
          obtain ⟨rfl, rfl⟩ := form.unique form'
          rfl
      | wrong _ _ not => exact absurd form (not _ _)
  | wrong not not' not'' =>
      cases means' with
      | comment here => exact absurd here not
      | component form => exact absurd form (not' _)
      | module_ form => exact absurd form (not'' _ _)
      | wrong => rfl

theorem says_content (content : Content isWhitespace line before body after) {meaning : Meaning}
    (means : Means body meaning) {entry : Option Entry} :
    Says position line entry ↔
      entry = meaning.entry (position + bytes before, position + bytes before + bytes body) := by
  constructor
  · rintro (blank | ⟨content', means'⟩)
    · exact absurd blank content.not_blank
    · obtain ⟨rfl, rfl⟩ := content.unique content'
      rw [means.unique means']
  · rintro rfl
    exact .content content means

theorem says_blank (blank : Blank isWhitespace line) {entry : Option Entry} :
    Says position line entry ↔ entry = none := by
  constructor
  · rintro (_ | ⟨content, _⟩)
    · rfl
    · exact absurd blank content.not_blank
  · rintro rfl
    exact .blank blank

/-! ## One line -/

/-- What the parser does with a line. -/
inductive Outcome where
  | ignored
  | component (path : Text)
  | module_ (url digest : Text)
  | wrong (report : Span → Diagnostic)

def Outcome.run (span : Option Span) (manifest : Manifest) : Outcome → Option Manifest
  | .ignored => some manifest
  | .component path => some { manifest with components := manifest.components ++ [⟨path⟩] }
  | .module_ url digest => span.map fun span =>
      { manifest with modules := manifest.modules ++ [⟨url, digest, span⟩] }
  | .wrong report => span.map fun span => manifest.report (report span)

/-- The reports that a line can be given. -/
def Reports (file : FileId) (report : Span → Diagnostic) : Prop :=
  ∀ span, (report span).file = file ∧ (report span).primary.span = span

/-- What is done with a line is what it means. -/
inductive Outcome.Follows (file : FileId) : Outcome → Meaning → Prop where
  | ignored : Follows file .ignored .ignored
  | component (path : Text) : Follows file (.component path) (.component path)
  | module_ (url digest : Text) : Follows file (.module_ url digest) (.module_ url digest)
  | wrong {report : Span → Diagnostic} (right : Reports file report) :
      Follows file (.wrong report) .wrong

theorem bytes_dropWhile (content : Content isWhitespace line before body after) :
    leadingOf line = bytes before := by
  rw [leadingOf, content.trim_start, content.whole, List.append_assoc, bytes_append,
    Nat.add_sub_cancel]

theorem lineSpan_eq (content : Content isWhitespace line before body after) :
    lineSpan checks line start = spanAt checks start (bytes before) (bytes body) := by
  rw [lineSpan, bytes_dropWhile content, content.trimmed]

theorem directiveSpan_eq (content : Content isWhitespace line before body after)
    (keyword : Text) : directiveSpan checks line start keyword =
      spanAt checks start (bytes before) (bytes keyword) := by
  rw [directiveSpan, bytes_dropWhile content]

/-- The content of a line, without the marks that end it. -/
theorem Content.stripped (content : Content isWhitespace line before body after) :
    ∃ after', Content isWhitespace (stripLast '\r' (stripLast '\n' line)) before body after' := by
  obtain ⟨_, content⟩ := content.stripLast '\n' (by decide)
  exact content.stripLast '\r' (by decide)

/-- What is left of a body after a word is blank only where the body is the word. -/
theorem rest_eq_nil {word : Text} (last : ∀ c ∈ (word ++ rest).getLast?, isWhitespace c = false)
    (blank : Blank isWhitespace rest) : rest = [] := by
  cases rest using List.reverseRecOn with
  | nil => rfl
  | append_singleton rest end_ =>
      have kept := last end_ (by simp)
      rw [blank end_ (by simp)] at kept
      cases kept

theorem trim_rest {word : Text} (last : ∀ c ∈ (word ++ rest).getLast?, isWhitespace c = false) :
    trim isWhitespace rest = rest.dropWhile isWhitespace := by
  cases rest using List.reverseRecOn with
  | nil => rfl
  | append_singleton rest end_ =>
      have kept := last end_ (by simp)
      rw [trim]
      apply rdropWhile_of_last
      intro c there
      rw [← List.takeWhile_append_dropWhile (p := isWhitespace) (l := rest ++ [end_])] at last
      refine last c ?_
      rw [← List.append_assoc, List.getLast?_append_of_ne_nil _ (fun none_ => by
        rw [none_] at there
        cases there)]
      exact there

theorem isAsciiHexdigit_iff (c : Char) : isAsciiHexdigit c = true ↔
    ('0' ≤ c ∧ c ≤ '9') ∨ ('a' ≤ c ∧ c ≤ 'f') ∨ ('A' ≤ c ∧ c ≤ 'F') := by
  have reads (a : Char) : (a ≤ c) = (a.toNat ≤ c.toNat) := rfl
  have read (a : Char) : (c ≤ a) = (c.toNat ≤ a.toNat) := rfl
  unfold isAsciiHexdigit toDigit isAsciiDigit
  simp only [Bool.and_eq_true, decide_eq_true_eq, reads, read]
  simp only [Char.reduceToNat]
  split_ifs with digit lower upper
  · simp only [Option.filter_some, Option.isSome_ite, decide_eq_true_eq]
    omega
  · simp only [Option.filter_some, Option.isSome_ite, decide_eq_true_eq]
    omega
  · simp only [Option.filter_some, Option.isSome_ite, decide_eq_true_eq]
    omega
  · simp only [Option.filter_none, Option.isSome_none, Bool.false_eq_true, false_iff]
    omega

theorem hexdigit_utf8Size {c : Char} (hex : isAsciiHexdigit c = true) : c.utf8Size = 1 := by
  rw [Char.utf8Size_eq_one_iff]
  show c.toNat ≤ 127
  rcases (isAsciiHexdigit_iff c).1 hex with ⟨-, high⟩ | ⟨-, high⟩ | ⟨-, high⟩
  · exact Nat.le_trans high (by decide)
  · exact Nat.le_trans high (by decide)
  · exact Nat.le_trans high (by decide)

theorem bytes_hexdigits {text : Text} (hex : text.all isAsciiHexdigit = true) :
    bytes text = text.length := by
  induction text with
  | nil => rfl
  | cons c text ih =>
      rw [List.all_cons, Bool.and_eq_true] at hex
      rw [bytes_cons, hexdigit_utf8Size hex.1, ih hex.2, List.length_cons, Nat.add_comm]

theorem lowercase_iff (c : Char) : (('0' ≤ c ∧ c ≤ '9') ∨ ('a' ≤ c ∧ c ≤ 'f')) ↔
    isAsciiHexdigit c = true ∧ ¬c.isUpper = true := by
  have reads (a : Char) : (a ≤ c) = (a.toNat ≤ c.toNat) := rfl
  have read (a : Char) : (c ≤ a) = (c.toNat ≤ a.toNat) := rfl
  have upper : c.isUpper = true ↔ 'A' ≤ c ∧ c ≤ 'Z' := by
    simp [Char.isUpper, reads, read]
    rfl
  rw [isAsciiHexdigit_iff, upper]
  simp only [reads, read]
  simp only [Char.reduceToNat]
  omega

/-- A digest is accepted exactly where it is one. -/
theorem digest_accepted : IsDigest digest ↔
    ¬(bytes digest ≠ 64 ∨ digest.all isAsciiHexdigit = false) ∧ ¬digest.any Char.isUpper = true := by
  rw [IsDigest, not_or, not_not, Bool.not_eq_false, List.any_eq_true]
  constructor
  · rintro ⟨size, lower⟩
    have hex : digest.all isAsciiHexdigit = true :=
      List.all_eq_true.2 fun c there => ((lowercase_iff c).1 (lower c there)).1
    refine ⟨⟨(bytes_hexdigits hex).trans size, hex⟩, ?_⟩
    rintro ⟨c, there, upper⟩
    exact ((lowercase_iff c).1 (lower c there)).2 upper
  · rintro ⟨⟨size, hex⟩, lower⟩
    refine ⟨(bytes_hexdigits hex).symm.trans size, fun c there => (lowercase_iff c).2 ?_⟩
    exact ⟨List.all_eq_true.1 hex c there, fun upper => lower ⟨c, there, upper⟩⟩

/-- Something with no blank at its front comes after a blank only where the blank is there. -/
theorem gap_ne_nil {gap word later : Text} (solid : Word isWhitespace word)
    (goes : ∀ c ∈ (gap ++ word ++ later).head?, isWhitespace c = true) : gap ≠ [] := by
  rintro rfl
  rcases List.exists_cons_of_ne_nil solid.some_ with ⟨head, more, rfl⟩
  have blank := goes head rfl
  rw [solid.solid head List.mem_cons_self] at blank
  cases blank

theorem isModule_of {hash : Text} (listed : words isWhitespace rest = [url, hash])
    (hash_eq : hash = sha256 ++ digest)
    (last : ∀ c ∈ (module_ ++ rest).getLast?, isWhitespace c = false)
    (goes : rest.head?.all isWhitespace = true) (right : IsDigest digest) :
    IsModule (module_ ++ rest) url digest := by
  obtain ⟨gap, later, rfl, blank, urlWord, laterGoes, listed⟩ := words_eq_cons.1 listed
  obtain ⟨gap', final, rfl, blank', hashWord, finalGoes, listed⟩ := words_eq_cons.1 listed
  have front : ∀ c ∈ (gap ++ url ++ (gap' ++ hash ++ final)).head?, isWhitespace c = true := by
    intro c there
    rw [there] at goes
    exact goes
  have none_ : final = [] := by
    have whole : module_ ++ (gap ++ url ++ (gap' ++ hash ++ final)) =
        (module_ ++ gap ++ url ++ gap' ++ hash) ++ final := by
      simp only [List.append_assoc]
    rw [whole] at last
    exact rest_eq_nil last (words_eq_nil.1 listed)
  rw [none_, hash_eq]
  refine ⟨gap, gap', ?_, gap_ne_nil urlWord front, blank, urlWord, gap_ne_nil hashWord laterGoes,
    blank', right⟩
  simp only [List.append_assoc, List.append_nil]

/-- The words after `module` are a location and a digest, or the line is reported. -/
theorem parseModule_cases (file : FileId)
    (content : Content isWhitespace line before (module_ ++ rest) after)
    (goes : rest.head?.all isWhitespace = true) :
    (∃ url digest, IsModule (module_ ++ rest) url digest ∧ ∀ checks start manifest,
      parseModule checks file line start rest manifest = (Outcome.module_ url digest).run
        (spanAt checks start (bytes before) (bytes (module_ ++ rest))) manifest) ∨
    (∀ url digest, ¬IsModule (module_ ++ rest) url digest) ∧ ∃ report, Reports file report ∧
      ∀ checks start manifest,
        parseModule checks file line start rest manifest = (Outcome.wrong report).run
          (spanAt checks start (bytes before) (bytes (module_ ++ rest))) manifest := by
  have means {url digest : Text} (form : IsModule (module_ ++ rest) url digest) :
      words isWhitespace rest = [url, sha256 ++ digest] := by
    obtain ⟨rest', same, -, listed⟩ := form.words_eq
    rwa [← List.append_cancel_left same] at listed
  have reported (report : Span → Diagnostic) (right : Reports file report)
      (wrong : ∀ url digest, words isWhitespace rest ≠ [url, sha256 ++ digest] ∨ ¬IsDigest digest)
      (ran : ∀ checks start manifest, parseModule checks file line start rest manifest =
        (Outcome.wrong report).run
          (spanAt checks start (bytes before) (bytes (module_ ++ rest))) manifest) :
      (∀ url digest, ¬IsModule (module_ ++ rest) url digest) ∧ ∃ report, Reports file report ∧
        ∀ checks start manifest, parseModule checks file line start rest manifest =
          (Outcome.wrong report).run
            (spanAt checks start (bytes before) (bytes (module_ ++ rest))) manifest := by
    refine ⟨fun url digest form => ?_, report, right, ran⟩
    rcases wrong url digest with other | other
    · exact other (means form)
    · obtain ⟨_, _, -, -, -, -, -, -, right⟩ := form
      exact other right
  rcases listed : words isWhitespace rest with _ | ⟨url, _ | ⟨hash, _ | ⟨third, more⟩⟩⟩
  · have none_ := rest_eq_nil content.last (words_eq_nil.1 listed)
    subst none_
    refine Or.inr (reported (missingSource file) (fun span => ⟨rfl, rfl⟩) (fun _ _ => Or.inl ?_)
      fun checks start manifest => ?_)
    · rw [listed]
      exact (List.cons_ne_nil _ _).symm
    · rw [parseModule, lineSpan_eq content, directiveSpan_eq content, List.append_nil]
      cases spanned : spanAt checks start (bytes before) (bytes module_) with
      | none => rfl
      | some span =>
          simp only [Option.bind_eq_bind, Option.bind_some, listed]
          rfl
  · refine Or.inr (reported (fun span => missingHash file span url) (fun span => ⟨rfl, rfl⟩)
      (fun _ _ => Or.inl ?_) fun checks start manifest => ?_)
    · rw [listed]
      exact fun same => nomatch (List.cons.inj same).2
    · rw [parseModule, lineSpan_eq content, listed]
      cases spanAt checks start (bytes before) (bytes (module_ ++ rest)) with
      | none => rfl
      | some span => rfl
  · cases stripped : stripPrefix sha256 hash with
    | none =>
        refine Or.inr (reported (fun span => otherAlgorithm file span hash)
          (fun span => ⟨rfl, rfl⟩) (fun url' digest => Or.inl ?_) fun checks start manifest => ?_)
        · rw [listed]
          intro same
          rw [stripPrefix_eq_some.2 (List.cons.inj (List.cons.inj same).2).1] at stripped
          cases stripped
        · rw [parseModule, lineSpan_eq content]
          cases spanAt checks start (bytes before) (bytes (module_ ++ rest)) with
          | none => rfl
          | some span =>
              simp only [Option.bind_eq_bind, Option.bind_some, listed, stripped]
              rfl
    | some digest =>
        have hash_eq := stripPrefix_eq_some.1 stripped
        have same {url' digest' : Text}
            (same : words isWhitespace rest = [url', sha256 ++ digest']) : digest' = digest := by
          rw [listed, hash_eq] at same
          exact (List.append_cancel_left (List.cons.inj (List.cons.inj same).2).1).symm
        by_cases bad : bytes digest ≠ 64 ∨ digest.all isAsciiHexdigit = false
        · refine Or.inr (reported (fun span => notADigest file span digest)
            (fun span => ⟨rfl, rfl⟩) (fun url' digest' => ?_) fun checks start manifest => ?_)
          · rw [or_iff_not_imp_left, not_not]
            intro found right
            rw [same found] at right
            exact (digest_accepted.1 right).1 bad
          · rw [parseModule, lineSpan_eq content]
            cases spanAt checks start (bytes before) (bytes (module_ ++ rest)) with
            | none => rfl
            | some span =>
                simp only [Option.bind_eq_bind, Option.bind_some, listed, stripped, if_pos bad]
                rfl
        · by_cases upper : digest.any Char.isUpper = true
          · refine Or.inr (reported (fun span => notLowercase file span digest)
              (fun span => ⟨rfl, rfl⟩) (fun url' digest' => ?_) fun checks start manifest => ?_)
            · rw [or_iff_not_imp_left, not_not]
              intro found right
              rw [same found] at right
              exact (digest_accepted.1 right).2 upper
            · rw [parseModule, lineSpan_eq content]
              cases spanAt checks start (bytes before) (bytes (module_ ++ rest)) with
              | none => rfl
              | some span =>
                  simp only [Option.bind_eq_bind, Option.bind_some, listed, stripped, if_neg bad,
                    if_pos upper]
                  rfl
          · refine Or.inl ⟨url, digest, isModule_of listed hash_eq content.last goes
              (digest_accepted.2 ⟨bad, upper⟩), fun checks start manifest => ?_⟩
            rw [parseModule, lineSpan_eq content]
            cases spanAt checks start (bytes before) (bytes (module_ ++ rest)) with
            | none => rfl
            | some span =>
                simp only [Option.bind_eq_bind, Option.bind_some, listed, stripped, if_neg bad,
                  if_neg upper]
                rfl
  · refine Or.inr (reported (fun span => tooMuch file span) (fun span => ⟨rfl, rfl⟩)
      (fun _ _ => Or.inl ?_) fun checks start manifest => ?_)
    · rw [listed]
      exact fun same => nomatch (List.cons.inj (List.cons.inj same).2).2
    · rw [parseModule, lineSpan_eq content, listed]
      cases spanAt checks start (bytes before) (bytes (module_ ++ rest)) with
      | none => rfl
      | some span => rfl

/-- Whether a place is kept of a line. -/
def Meaning.placed : Meaning → Bool
  | .module_ _ _ => true
  | .wrong => true
  | _ => false

/-- What the parser does with a line and what the line means, with where its content is. -/
structure Read (file : FileId) (line : Text) (outcome : Outcome) (meaning : Meaning)
    (leading length : Nat) : Prop where
  ran : ∀ checks start manifest, parseLine checks file line start manifest =
    outcome.run (spanAt checks start leading length) manifest
  reads : ∀ position entry, Says position line entry ↔
    entry = meaning.entry (position + leading, position + leading + length)
  follows : (Glued line ∧ (∃ path, outcome = .component path) ∧ meaning = .wrong) ∨
    ¬Glued line ∧ outcome.Follows file meaning
  placed : Placed line ↔ meaning.placed = true
  ends : meaning.placed = true → bytes (line.rdropWhile isWhitespace) = leading + length

theorem read_blank (blank : Blank isWhitespace line) : Read file line .ignored .ignored 0 0 where
  ran checks start manifest := by
    have none_ := trim_blank ((blank.stripLast '\n').stripLast '\r')
    simp only [parseLine, none_, true_or, if_true]
    rfl
  reads position entry := says_blank blank
  follows := by
    refine Or.inr ⟨?_, .ignored⟩
    rintro ⟨_, _, _, _, _, content, -⟩
    exact content.not_blank blank
  placed := by
    refine ⟨?_, fun no => nomatch no⟩
    rintro ⟨_, _, _, content, -⟩
    exact absurd blank content.not_blank
  ends no := nomatch no

theorem glued_iff (content : Content isWhitespace line before body after) :
    Glued line ↔ ∃ c rest, body = component ++ c :: rest ∧ isWhitespace c = false := by
  constructor
  · rintro ⟨_, _, _, c, rest, content', same, solid⟩
    exact ⟨c, rest, (content.unique content').2 ▸ same, solid⟩
  · rintro ⟨c, rest, same, solid⟩
    exact ⟨before, body, after, c, rest, content, same, solid⟩

theorem placed_iff (content : Content isWhitespace line before body after) {meaning : Meaning}
    (means : Means body meaning) : Placed line ↔ meaning.placed = true := by
  have same : Placed line ↔ body.head? ≠ some '#' ∧ ∀ path, ¬IsComponent body path := by
    constructor
    · rintro ⟨_, _, _, content', wrong⟩
      exact (content.unique content').2 ▸ wrong
    · exact fun wrong => ⟨before, body, after, content, wrong⟩
  rw [same]
  cases means with
  | comment here => exact iff_of_false (fun both => both.1 here) Bool.false_ne_true
  | component form => exact iff_of_false (fun both => both.2 _ form) Bool.false_ne_true
  | module_ form =>
      refine iff_of_true ⟨?_, fun path form' => ?_⟩ rfl
      · rw [form.head]
        decide
      · exact absurd (form.head.symm.trans form'.head) (by decide)
  | wrong not not' => exact iff_of_true ⟨not, not'⟩ rfl

/-- A line with something on it is read where what is done with it is known. -/
theorem read_content (content : Content isWhitespace line before body after) {meaning : Meaning}
    {outcome : Outcome} (means : Means body meaning)
    (ran : ∀ checks start manifest, parseLine checks file line start manifest =
      outcome.run (spanAt checks start (bytes before) (bytes body)) manifest)
    (follows : (Glued line ∧ (∃ path, outcome = .component path) ∧ meaning = .wrong) ∨
      ¬Glued line ∧ outcome.Follows file meaning) :
    Read file line outcome meaning (bytes before) (bytes body) where
  ran := ran
  reads _ _ := says_content content means
  follows := follows
  placed := placed_iff content means
  ends _ := by rw [content.trim_end, bytes_append]

theorem trim_eq_nil (none_ : trim isWhitespace rest = []) : Blank isWhitespace rest := by
  rcases blank_or_content isWhitespace rest with blank | ⟨_, _, _, content⟩
  · exact blank
  · exact absurd (content.trimmed.symm.trans none_) content.some_

theorem head_component (rest : Text) : (component ++ rest).head? ≠ some '#' := by
  show some 'c' ≠ some '#'
  decide

theorem not_isModule_component (rest url digest : Text) :
    ¬IsModule (component ++ rest) url digest := by
  intro form
  have head : some 'c' = some 'm' := form.head
  exact absurd head (by decide)

/-- A line that begins with the word `component` in front of a path, whether or not a blank is
between them. -/
theorem read_component (file : FileId)
    (content : Content isWhitespace line before (component ++ rest) after) :
    ∃ outcome meaning, Read file line outcome meaning (bytes before) (bytes (component ++ rest)) :=
  by
  obtain ⟨after', stripped⟩ := Content.stripped content
  have filled : ¬(component ++ rest = [] ∨ (component ++ rest).head? = some '#') := by
    rw [not_or]
    exact ⟨content.some_, head_component rest⟩
  have front := stripPrefix_eq_some.2 (Eq.refl (component ++ rest))
  by_cases none_ : trim isWhitespace rest = []
  · have empty := rest_eq_nil content.last (trim_eq_nil none_)
    subst empty
    rw [List.append_nil] at content stripped filled front ⊢
    have alone (path : Text) : ¬IsComponent component path := by
      rintro ⟨gap, same, some_, -⟩
      have sizes := congrArg List.length same
      rw [List.length_append, List.length_append] at sizes
      exact some_ (List.length_eq_zero_iff.1 (by omega))
    refine ⟨.wrong (missingPath file), .wrong, read_content content
      (.wrong (head_component []) alone fun _ _ => not_isModule_component [] _ _)
      (fun checks start manifest => ?_) (Or.inr ⟨?_, .wrong fun span => ⟨rfl, rfl⟩⟩)⟩
    · simp only [parseLine, stripped.trimmed, if_neg filled, front, if_pos none_,
        directiveSpan_eq stripped]
      rfl
    · rw [glued_iff content]
      rintro ⟨c, rest, same, -⟩
      have sizes := congrArg List.length same
      rw [List.length_append, List.length_cons] at sizes
      omega
  · have ran (checks : Bool) (start : UInt32) (manifest : Manifest) :
        parseLine checks file line start manifest =
          (Outcome.component (trim isWhitespace rest)).run
            (spanAt checks start (bytes before) (bytes (component ++ rest))) manifest := by
      simp only [parseLine, stripped.trimmed, if_neg filled, front, if_neg none_]
      rfl
    cases rest with
    | nil => exact absurd rfl none_
    | cons c more =>
        by_cases blank : isWhitespace c = true
        · have form : IsComponent (component ++ c :: more) (trim isWhitespace (c :: more)) := by
            have path := trim_rest content.last
            refine ⟨(c :: more).takeWhile isWhitespace, ?_, ?_, fun _ => List.mem_takeWhile_imp,
              none_, ?_⟩
            · rw [path, List.append_assoc, List.takeWhile_append_dropWhile]
            · rw [List.takeWhile_cons, if_pos blank]
              exact List.cons_ne_nil _ _
            · rw [path]
              exact head?_dropWhile _ _
          refine ⟨_, _, read_content content (.component form) ran (Or.inr ⟨?_, .component _⟩)⟩
          rw [glued_iff content]
          rintro ⟨c', rest', same, solid⟩
          cases List.append_cancel_left same
          rw [blank] at solid
          cases solid
        · have glued := (glued_iff content).2 ⟨c, more, rfl, Bool.eq_false_iff.2 blank⟩
          refine ⟨_, .wrong, read_content content (.wrong (head_component _) ?_
            fun _ _ => not_isModule_component _ _ _) ran (Or.inl ⟨glued, ⟨_, rfl⟩, rfl⟩)⟩
          rintro path ⟨gap, same, some_, gapBlank, -⟩
          rcases List.exists_cons_of_ne_nil some_ with ⟨head, gap, rfl⟩
          rw [List.append_assoc] at same
          cases List.append_cancel_left same
          exact blank (gapBlank c List.mem_cons_self)

theorem not_component_of_strip (none_ : stripPrefix component body = none) (rest : Text) :
    body ≠ component ++ rest := by
  intro same
  rw [stripPrefix_eq_some.2 same] at none_
  cases none_

/-- Any other line. -/
theorem read_other (file : FileId)
    (content : Content isWhitespace line before body after)
    (plain : body.head? ≠ some '#') (none_ : stripPrefix component body = none) :
    ∃ outcome meaning, Read file line outcome meaning (bytes before) (bytes body) := by
  obtain ⟨after', stripped⟩ := Content.stripped content
  have filled : ¬(body = [] ∨ body.head? = some '#') := not_or.2 ⟨content.some_, plain⟩
  have notGlued : ¬Glued line := by
    rw [glued_iff content]
    rintro ⟨c, rest, same, -⟩
    exact not_component_of_strip none_ _ same
  have notComponent (path : Text) : ¬IsComponent body path := by
    rintro ⟨gap, same, -⟩
    rw [List.append_assoc] at same
    exact not_component_of_strip none_ _ same
  cases later : moduleRest body with
  | some rest =>
      obtain ⟨front, goes⟩ := Option.filter_eq_some_iff.1 later
      have whole := stripPrefix_eq_some.1 front
      subst whole
      have ran (checks : Bool) (start : UInt32) (manifest : Manifest) :
          parseLine checks file line start manifest = parseModule checks file
            (stripLast '\r' (stripLast '\n' line)) start rest manifest := by
        simp only [parseLine, stripped.trimmed, if_neg filled, none_, later]
      rcases parseModule_cases file stripped goes with
        ⟨url, digest, form, does⟩ | ⟨no, report, right, does⟩
      · exact ⟨_, _, read_content content (.module_ form)
          (fun checks start manifest => (ran checks start manifest).trans (does _ _ _))
          (Or.inr ⟨notGlued, .module_ _ _⟩)⟩
      · exact ⟨_, _, read_content content (.wrong plain notComponent no)
          (fun checks start manifest => (ran checks start manifest).trans (does _ _ _))
          (Or.inr ⟨notGlued, .wrong right⟩)⟩
  | none =>
      refine ⟨.wrong fun span =>
        unknownDirective file span ((words isWhitespace body).head?.getD body), .wrong,
        read_content content (.wrong plain notComponent ?_) (fun checks start manifest => ?_)
          (Or.inr ⟨notGlued, .wrong fun span => ⟨rfl, rfl⟩⟩)⟩
      · intro url digest form
        obtain ⟨rest, same, goes, -⟩ := form.words_eq
        rw [moduleRest, stripPrefix_eq_some.2 same, Option.filter_some, if_pos goes] at later
        cases later
      · simp only [parseLine, stripped.trimmed, if_neg filled, none_, later,
          lineSpan_eq stripped]
        rfl

theorem exists_read (file : FileId) (line : Text) :
    ∃ outcome meaning leading length, Read file line outcome meaning leading length := by
  rcases blank_or_content isWhitespace line with blank | ⟨before, body, after, content⟩
  · exact ⟨_, _, _, _, read_blank blank⟩
  · by_cases comment : body.head? = some '#'
    · obtain ⟨after', stripped⟩ := Content.stripped content
      refine ⟨.ignored, .ignored, _, _, read_content content (.comment comment)
        (fun checks start manifest => ?_) (Or.inr ⟨?_, .ignored⟩)⟩
      · simp only [parseLine, stripped.trimmed, if_pos (Or.inr comment : _ ∨ _)]
        rfl
      · rw [glued_iff content]
        rintro ⟨c, rest, rfl, -⟩
        exact head_component _ comment
    · cases front : stripPrefix component body with
      | some rest =>
          have whole := stripPrefix_eq_some.1 front
          subst whole
          obtain ⟨outcome, meaning, read⟩ := read_component file content
          exact ⟨outcome, meaning, _, _, read⟩
      | none =>
          obtain ⟨outcome, meaning, read⟩ := read_other file content comment front
          exact ⟨outcome, meaning, _, _, read⟩

/-! ## Offsets -/

theorem plus_eq (checks : Bool) (a b : UInt32) (fits : a.toNat + b.toNat < 2 ^ 32) :
    plus checks a b = some (a + b) ∧ (a + b).toNat = a.toNat + b.toNat := by
  refine ⟨if_neg fun both => by omega, ?_⟩
  rw [UInt32.toNat_add, Nat.mod_eq_of_lt fits]

/-- Offsets are positions, cut to 32 bits, in either build. -/
theorem plus_position {next : UInt32} {more : Nat} (at_ : offset.toNat = position % 2 ^ 32)
    (ran : plus checks offset more.toUInt32 = some next) :
    next.toNat = (position + more) % 2 ^ 32 := by
  rw [plus] at ran
  by_cases past : checks = true ∧ 2 ^ 32 ≤ offset.toNat + more.toUInt32.toNat
  · rw [if_pos past] at ran
    cases ran
  · rw [if_neg past] at ran
    cases ran
    rw [UInt32.toNat_add, at_, Nat.toUInt32, UInt32.toNat_ofNat', ← Nat.add_mod]

theorem spanAt_eq (checks : Bool) (at_ : start.toNat = position % 2 ^ 32)
    (fits : position + leading + length < 2 ^ 32) :
    ∃ span, spanAt checks start leading length = some span ∧
      place span = (position + leading, position + leading + length) := by
  rw [Nat.mod_eq_of_lt (by omega)] at at_
  have front : leading.toUInt32.toNat = leading := toNat_toUInt32 (by omega)
  have size : length.toUInt32.toNat = length := toNat_toUInt32 (by omega)
  obtain ⟨first, firstIs⟩ := plus_eq checks start leading.toUInt32 (by omega)
  have inside : (start + leading.toUInt32).toNat + length.toUInt32.toNat < 2 ^ 32 := by
    rw [firstIs]
    omega
  obtain ⟨second, secondIs⟩ := plus_eq checks _ _ inside
  have ordered := Nat.le_add_right (start + leading.toUInt32).toNat length.toUInt32.toNat
  rw [← secondIs] at ordered inside
  obtain ⟨span, made, starts, stops⟩ := Span.new_of_le ordered inside
  refine ⟨span, ?_, ?_⟩
  · simp only [spanAt, first, second, Option.bind_eq_bind, Option.bind_some, made]
  · rw [place, starts, stops, secondIs, firstIs, at_, front, size]

/-! ## Runs -/

theorem parseLines_cons {lines : List Text} :
    parseLines checks file (line :: lines) offset manifest = some final ↔
      ∃ next middle, plus checks offset (bytes line).toUInt32 = some next ∧
        parseLine checks file line offset manifest = some middle ∧
        parseLines checks file lines next middle = some final := by
  rw [parseLines, Option.bind_eq_bind, Option.bind_eq_some_iff]
  simp only [Option.bind_eq_bind, Option.bind_eq_some_iff]
  constructor
  · rintro ⟨next, moved, middle, ran, rest⟩
    exact ⟨next, middle, moved, ran, rest⟩
  · rintro ⟨next, middle, moved, ran, rest⟩
    exact ⟨next, moved, middle, ran, rest⟩

namespace Manifest

theorem adds_nil (manifest : Manifest) : Adds file manifest manifest [] :=
  ⟨(List.append_nil _).symm, (List.append_nil _).symm, (List.append_nil _).symm⟩

theorem Adds.cons {middle : Manifest} {entry : Option Entry} {entries : List (Option Entry)}
    (first : Adds file manifest middle [entry]) (later : Adds file middle final entries) :
    Adds file manifest final (entry :: entries) := by
  constructor
  · rw [later.paths, first.paths, List.append_assoc, ← List.flatMap_append]
    rfl
  · rw [later.fetched, first.fetched, List.append_assoc, ← List.flatMap_append]
    rfl
  · rw [later.reports, first.reports, List.append_assoc, ← List.flatMap_append]
    rfl

end Manifest

/-- What a line means is added, once the line's place is known where it is kept. -/
theorem follows_adds {outcome : Outcome} {meaning : Meaning} {span : Option Span} {at_ : Place}
    (follows : outcome.Follows file meaning)
    (kept : meaning.placed = true → ∃ found, span = some found ∧ place found = at_)
    (manifest : Manifest) : ∃ next, outcome.run span manifest = some next ∧
      Manifest.Adds file manifest next [meaning.entry at_] := by
  cases follows with
  | ignored =>
      exact ⟨manifest, rfl, (List.append_nil _).symm, (List.append_nil _).symm,
        (List.append_nil _).symm⟩
  | component path =>
      refine ⟨_, rfl, ?_, (List.append_nil _).symm, (List.append_nil _).symm⟩
      exact List.map_append
  | module_ url digest =>
      obtain ⟨found, rfl, rfl⟩ := kept rfl
      refine ⟨_, rfl, (List.append_nil _).symm, ?_, (List.append_nil _).symm⟩
      exact List.map_append
  | @wrong report right =>
      obtain ⟨found, rfl, rfl⟩ := kept rfl
      refine ⟨_, rfl, (List.append_nil _).symm, (List.append_nil _).symm, ?_⟩
      show List.map _ (manifest.diagnostics ++ [report found]) = _
      rw [List.map_append, List.map_singleton, (right found).1, (right found).2]
      rfl

/-- Lines are read where none is glued and every place and sum fits. -/
theorem reads_of_fits {lines : List Text} (plain : ∀ line ∈ lines, ¬Glued line)
    (ends : Ends position lines) (at_ : offset.toNat = position % 2 ^ 32)
    (counts : checks = true → offset.toNat + counted lines < 2 ^ 32) :
    ∃ final entries, parseLines checks file lines offset manifest = some final ∧
      Reads position lines entries ∧ Manifest.Adds file manifest final entries := by
  induction lines generalizing position offset manifest with
  | nil => exact ⟨manifest, [], rfl, .nil, manifest.adds_nil⟩
  | cons line lines ih =>
      obtain ⟨outcome, meaning, leading, length, read⟩ := exists_read file line
      have follows : outcome.Follows file meaning := by
        rcases read.follows with ⟨glued, -⟩ | ⟨-, follows⟩
        · exact absurd glued (plain line List.mem_cons_self)
        · exact follows
      have kept (placed : meaning.placed = true) : ∃ found,
          spanAt checks offset leading length = some found ∧
            place found = (position + leading, position + leading + length) := by
        have fits := ends.1 (read.placed.2 placed)
        rw [read.ends placed, ← Nat.add_assoc] at fits
        exact spanAt_eq checks at_ fits
      obtain ⟨middle, ran, first⟩ := follows_adds follows kept manifest
      have size : (bytes line).toUInt32.toNat = bytes line % 2 ^ 32 := by
        rw [Nat.toUInt32, UInt32.toNat_ofNat']
      obtain ⟨next, moved⟩ : ∃ next, plus checks offset (bytes line).toUInt32 = some next := by
        refine ⟨_, if_neg ?_⟩
        rintro ⟨checked, past⟩
        have small := counts checked
        rw [counted, List.map_cons, List.sum_cons] at small
        omega
      have counts' (checked : checks = true) : next.toNat + counted lines < 2 ^ 32 := by
        have small := counts checked
        rw [counted, List.map_cons, List.sum_cons, ← counted] at small
        rw [plus] at moved
        rw [← Option.some.inj ((if_neg (by omega)).symm.trans moved), UInt32.toNat_add, size]
        have := Nat.mod_le (offset.toNat + bytes line % 2 ^ 32) (2 ^ 32)
        omega
      obtain ⟨final, entries, rest, reads, later⟩ : ∃ final entries,
          parseLines checks file lines next middle = some final ∧
            Reads (position + bytes line) lines entries ∧
            Manifest.Adds file middle final entries :=
        ih (fun other there => plain other (List.mem_cons_of_mem _ there)) ends.2
          (plus_position at_ moved) counts'
      refine ⟨final, _, parseLines_cons.2 ⟨next, middle, moved, ?_, rest⟩,
        .cons ((read.reads _ _).2 rfl) reads, first.cons later⟩
      rw [read.ran, ran]

/-! ## What a run says of its lines -/

/-- Modules and reports are only ever added behind those there are. -/
structure Manifest.Grows (manifest final : Manifest) : Prop where
  fetched : manifest.fetched <+: final.fetched
  reports : manifest.reports <+: final.reports

theorem run_grows {outcome : Outcome} {span : Option Span} {next : Manifest}
    (ran : outcome.run span manifest = some next) : manifest.Grows next := by
  cases outcome with
  | ignored =>
      cases ran
      exact ⟨List.prefix_rfl, List.prefix_rfl⟩
  | component path =>
      cases ran
      exact ⟨List.prefix_rfl, List.prefix_rfl⟩
  | module_ url digest =>
      obtain ⟨found, -, rfl⟩ := Option.map_eq_some_iff.1 ran
      refine ⟨?_, List.prefix_rfl⟩
      exact (List.prefix_append manifest.modules _).map _
  | wrong report =>
      obtain ⟨found, -, rfl⟩ := Option.map_eq_some_iff.1 ran
      refine ⟨List.prefix_rfl, ?_⟩
      exact (List.prefix_append manifest.diagnostics _).map _

theorem parseLines_grows {lines : List Text}
    (ran : parseLines checks file lines offset manifest = some final) : manifest.Grows final := by
  induction lines generalizing offset manifest with
  | nil =>
      cases ran
      exact ⟨List.prefix_rfl, List.prefix_rfl⟩
  | cons line lines ih =>
      obtain ⟨next, middle, -, here, rest⟩ := parseLines_cons.1 ran
      obtain ⟨outcome, meaning, leading, length, read⟩ := exists_read file line
      rw [read.ran] at here
      exact ⟨(run_grows here).fetched.trans (ih rest).fetched,
        (run_grows here).reports.trans (ih rest).reports⟩

/-- What is done with a line is kept with a place of 32 bits. -/
theorem follows_run {outcome : Outcome} {meaning : Meaning} {span : Option Span} {next : Manifest}
    (follows : outcome.Follows file meaning) (ran : outcome.run span manifest = some next) :
    ∃ at_ : Place, at_.2 < 2 ^ 32 ∧ Manifest.Adds file manifest next [meaning.entry at_] := by
  have done {at_ : Place} (kept : meaning.placed = true →
      ∃ found, span = some found ∧ place found = at_) :
      Manifest.Adds file manifest next [meaning.entry at_] := by
    obtain ⟨other, ran', adds⟩ := follows_adds follows kept manifest
    rw [ran] at ran'
    cases ran'
    exact adds
  cases span with
  | some found => exact ⟨place found, found.stop.toNat_lt, done fun _ => ⟨found, rfl, rfl⟩⟩
  | none =>
      refine ⟨(0, 0), by decide, done fun placed => ?_⟩
      cases follows with
      | ignored => cases placed
      | component path => cases placed
      | module_ url digest => cases ran
      | wrong right => cases ran

/-- Each component of the lines is one of the manifest, and each glued line one more. -/
theorem paths_count {lines : List Text} {entries : List (Option Entry)}
    (ran : parseLines checks file lines offset manifest = some final)
    (reads : Reads position lines entries) :
    manifest.paths.length + (entries.flatMap Entry.paths).length ≤ final.paths.length ∧
      ((∃ line ∈ lines, Glued line) →
        manifest.paths.length + (entries.flatMap Entry.paths).length < final.paths.length) := by
  induction reads generalizing offset manifest with
  | nil =>
      cases ran
      refine ⟨le_refl _, ?_⟩
      rintro ⟨line, there, -⟩
      cases there
  | @cons position line lines entry entries here _ ih =>
      obtain ⟨next, middle, -, done, rest⟩ := parseLines_cons.1 ran
      obtain ⟨outcome, meaning, leading, length, read⟩ := exists_read file line
      obtain ⟨least, more⟩ := ih rest
      rw [read.ran] at done
      rw [(read.reads _ _).1 here, List.flatMap_cons, List.length_append]
      rcases read.follows with ⟨-, ⟨path, rfl⟩, rfl⟩ | ⟨plain, follows⟩
      · cases done
        have longer : ({ manifest with components := manifest.components ++ [⟨path⟩] } :
            Manifest).paths.length = manifest.paths.length + 1 := by
          rw [Manifest.paths, List.map_append, List.length_append]
          rfl
        have none_ : (Entry.paths (Meaning.wrong.entry
            (position + leading, position + leading + length))).length = 0 := rfl
        rw [longer] at least
        exact ⟨by omega, fun _ => by omega⟩
      · obtain ⟨at_, -, adds⟩ := follows_run follows done
        have same : Entry.paths (meaning.entry at_) = Entry.paths (meaning.entry
            (position + leading, position + leading + length)) := by
          cases meaning with
          | ignored => rfl
          | component path => rfl
          | module_ url digest => rfl
          | wrong => rfl
        have longer := congrArg List.length adds.paths
        rw [List.length_append, List.flatMap_singleton, same] at longer
        refine ⟨by omega, ?_⟩
        rintro ⟨other, there, glued⟩
        rcases List.mem_cons.1 there with rfl | there
        · exact absurd glued plain
        · have := more ⟨other, there, glued⟩
          omega

/-- The place that is kept of a line is the place that the line says. -/
theorem same_place {meaning : Meaning} {at_ here : Place} {middle : Manifest}
    {entries : List (Option Entry)} (placed : meaning.placed = true)
    (done : Manifest.Adds file manifest middle [meaning.entry at_]) (grows : middle.Grows final)
    (adds : Manifest.Adds file manifest final (meaning.entry here :: entries)) : at_ = here := by
  cases meaning with
  | ignored => cases placed
  | component path => cases placed
  | module_ url digest =>
      obtain ⟨more, whole⟩ := grows.fetched
      rw [adds.fetched, done.fetched, List.append_assoc] at whole
      have first := (List.cons.inj (List.append_cancel_left whole)).1
      exact (Prod.mk.inj (Prod.mk.inj first).2).2
  | wrong =>
      obtain ⟨more, whole⟩ := grows.reports
      rw [adds.reports, done.reports, List.append_assoc] at whole
      exact (Prod.mk.inj (List.cons.inj (List.append_cancel_left whole)).1).2

theorem Manifest.Adds.tail {middle : Manifest} {entry : Option Entry}
    {entries : List (Option Entry)} (first : Adds file manifest middle [entry])
    (adds : Adds file manifest final (entry :: entries)) : Adds file middle final entries := by
  constructor
  · rw [adds.paths, first.paths, List.append_assoc, ← List.flatMap_append]
    rfl
  · rw [adds.fetched, first.fetched, List.append_assoc, ← List.flatMap_append]
    rfl
  · rw [adds.reports, first.reports, List.append_assoc, ← List.flatMap_append]
    rfl

/-- Where the manifest is what the lines say, every place fits. -/
theorem ends_of_reads {lines : List Text} {entries : List (Option Entry)}
    (plain : ∀ line ∈ lines, ¬Glued line)
    (ran : parseLines checks file lines offset manifest = some final)
    (reads : Reads position lines entries) (adds : Manifest.Adds file manifest final entries) :
    Ends position lines := by
  induction reads generalizing offset manifest with
  | nil => exact trivial
  | @cons position line lines entry entries here _ ih =>
      obtain ⟨next, middle, -, done, rest⟩ := parseLines_cons.1 ran
      obtain ⟨outcome, meaning, leading, length, read⟩ := exists_read file line
      rw [read.ran] at done
      have follows : outcome.Follows file meaning := by
        rcases read.follows with ⟨glued, -⟩ | ⟨-, follows⟩
        · exact absurd glued (plain line List.mem_cons_self)
        · exact follows
      obtain ⟨at_, small, first⟩ := follows_run follows done
      have said := (read.reads _ _).1 here
      subst said
      have later := fun other there => plain other (List.mem_cons_of_mem line there)
      by_cases placed : meaning.placed = true
      · have same := same_place placed first (parseLines_grows rest) adds
        rw [same] at first small
        refine ⟨fun _ => ?_, ih later rest (first.tail adds)⟩
        rw [read.ends placed, ← Nat.add_assoc]
        exact small
      · have same : meaning.entry at_ =
            meaning.entry (position + leading, position + leading + length) := by
          cases meaning with
          | ignored => rfl
          | component path => rfl
          | module_ url digest => exact absurd rfl placed
          | wrong => exact absurd rfl placed
        rw [same] at first
        exact ⟨fun kept => absurd (read.placed.1 kept) placed, ih later rest (first.tail adds)⟩

/-- A build that checks its sums has reached the end where they fit. -/
theorem counts_of_ran {lines : List Text} (checked : checks = true)
    (ran : parseLines checks file lines offset manifest = some final) :
    offset.toNat + counted lines < 2 ^ 32 := by
  induction lines generalizing offset manifest with
  | nil => exact offset.toNat_lt
  | cons line lines ih =>
      obtain ⟨next, middle, moved, -, rest⟩ := parseLines_cons.1 ran
      have later := ih rest
      have size : (bytes line).toUInt32.toNat = bytes line % 2 ^ 32 := by
        rw [Nat.toUInt32, UInt32.toNat_ofNat']
      rw [plus] at moved
      by_cases past : checks = true ∧ 2 ^ 32 ≤ offset.toNat + (bytes line).toUInt32.toNat
      · rw [if_pos past] at moved
        cases moved
      · rw [if_neg past] at moved
        cases moved
        rw [not_and, not_le] at past
        rw [UInt32.toNat_add, Nat.mod_eq_of_lt (past checked), size] at later
        rw [counted, List.map_cons, List.sum_cons, ← counted]
        omega

theorem parseManifest_eq (checks : Bool) (file : FileId) (text : Text) :
    parseManifest checks file text =
      parseLines checks file (linesOf text) (withoutMark text).2.toUInt32 .empty := rfl

theorem mark_small (text : Text) : (withoutMark text).2 ≤ 3 := by
  rw [withoutMark]
  by_cases marked : text.head? = some '\uFEFF'
  · rw [if_pos marked]
  · rw [if_neg marked]
    exact Nat.zero_le 3

theorem mark_toNat (text : Text) :
    (withoutMark text).2.toUInt32.toNat = (withoutMark text).2 := by
  have small := mark_small text
  exact toNat_toUInt32 (by omega)

/-- A glued line is a component that the text does not declare. -/
theorem not_accepts (glued : ∃ line ∈ linesOf text, Glued line) : ¬Accepts checks file text := by
  rintro ⟨final, entries, ran, reads, adds⟩
  have more := (paths_count ran reads).2 glued
  rw [adds.paths, List.length_append] at more
  exact absurd more (Nat.lt_irrefl _)

/-- The parser answers what the lines of a text say exactly where no line goes on right after
the word `component`, and what is kept and summed fits 32 bits. -/
theorem accepts_iff (checks : Bool) (file : FileId) (text : Text) :
    Accepts checks file text ↔ (∀ line ∈ linesOf text, ¬Glued line) ∧ Fits checks text := by
  constructor
  · intro accepts
    have plain (line : Text) (there : line ∈ linesOf text) : ¬Glued line := fun glued =>
      not_accepts ⟨line, there, glued⟩ accepts
    obtain ⟨final, entries, ran, reads, adds⟩ := accepts
    rw [parseManifest_eq] at ran
    refine ⟨plain, ends_of_reads plain ran reads adds, fun checked => ?_⟩
    have fits := counts_of_ran checked ran
    rwa [mark_toNat] at fits
  · rintro ⟨plain, ends, counts⟩
    have small := mark_small text
    unfold Accepts
    rw [parseManifest_eq]
    refine reads_of_fits plain ends ?_ ?_
    · rw [mark_toNat, Nat.mod_eq_of_lt (by omega)]
    · rwa [mark_toNat]

/-- What is not a directive at all declares a component. -/
theorem glued_not_accepted : ¬Accepts true 0 "componentfoo".toList ∧
    ¬Accepts false 0 "componentfoo".toList := by
  have glued : ∃ line ∈ linesOf "componentfoo".toList, Glued line := by
    refine ⟨"componentfoo".toList, List.mem_singleton_self _, [], "componentfoo".toList, [], 'f',
      "oo".toList, ⟨rfl, ?_, ?_, by decide, ?_, ?_⟩, rfl, rfl⟩
    · exact fun c there => nomatch there
    · exact fun c there => nomatch there
    · rintro c there
      cases there
      rfl
    · rintro c there
      cases there
      rfl
  exact ⟨not_accepts glued, not_accepts glued⟩

end Deed.Driver.Manifests
