import Deed.Lsp.Uri

/-!
# Paths found again

A URI is read back as the path it was made of, but for backslashes, which become separators,
and for a path whose first component looks like a drive.
-/

namespace Deed.Lsp.Uri

open Deed.Lexer (toDigit)
open Deed.Library
open Deed.Rt (asBytes asBytes_ascii fromUtf8 fromUtf8_asBytes)

variable {p q rest rest' : Text}

/-! ## Escapes -/

theorem upperHex_small : ∀ digit : Fin 16, (upperHex digit).toNat < 128 ∧
    toDigit (Char.ofNat (UInt8.ofNat (upperHex digit).toNat).toNat) 16 = some digit.val := by
  decide

set_option maxRecDepth 8000 in
theorem plain_small : ∀ code : Fin 256, plain (UInt8.ofNat code) = true →
    (Char.ofNat (UInt8.ofNat code).toNat).toNat < 128 ∧
      UInt8.ofNat (Char.ofNat (UInt8.ofNat code).toNat).toNat = UInt8.ofNat code ∧
      UInt8.ofNat code ≠ 0x25 := by
  decide

theorem unescape_plain {byte : UInt8} (other : byte ≠ 0x25) (bytes : List UInt8) :
    unescape (byte :: bytes) = (unescape bytes).map (byte :: ·) := by
  rw [unescape.eq_def (byte :: bytes)]
  exact if_pos other

/-- An escape in front of anything is the byte that it stands for. -/
theorem unescape_escape (byte : UInt8) (text : Text) :
    unescape (asBytes (escape byte ++ text)) = (unescape (asBytes text)).map (byte :: ·) := by
  have code := plain_small ⟨byte.toNat, byte.toNat_lt⟩
  rw [UInt8.ofNat_toNat] at code
  rw [escape]
  by_cases kept : plain byte = true
  · obtain ⟨small, same, other⟩ := code kept
    rw [if_pos kept, List.singleton_append, asBytes_ascii small, same,
      unescape_plain other]
  · obtain ⟨highSmall, high⟩ := upperHex_small ⟨byte.toNat / 16, by
      have := byte.toNat_lt
      omega⟩
    obtain ⟨lowSmall, low⟩ := upperHex_small ⟨byte.toNat % 16, Nat.mod_lt _ (by decide)⟩
    have percent : UInt8.ofNat '%'.toNat = 0x25 := rfl
    have whole : (byte.toNat / 16 * 16 + byte.toNat % 16).toUInt8 = byte := by
      rw [Nat.div_add_mod']
      exact UInt8.ofNat_toNat
    rw [if_neg kept]
    simp only [List.cons_append, List.nil_append]
    rw [asBytes_ascii (by decide), asBytes_ascii highSmall, asBytes_ascii lowSmall, percent,
      unescape, if_neg (fun no => no rfl)]
    simp only [high, low, Option.bind_eq_bind, Option.bind_some, whole]

theorem unescape_flatMap (bytes : List UInt8) :
    unescape (asBytes (bytes.flatMap escape)) = some bytes := by
  induction bytes with
  | nil => rfl
  | cons byte bytes ih => rw [List.flatMap_cons, unescape_escape, ih, Option.map_some]

theorem percentDecode_escaped (text : Text) :
    percentDecode ((asBytes text).flatMap escape) = some text := by
  rw [percentDecode, unescape_flatMap, Option.bind_some, fromUtf8_asBytes]

/-! ## There and back -/

theorem slashed_cons (path : Text) : slashed ('/' :: path) = '/' :: slashed path := rfl

theorem slash_byte (text : Text) : asBytes ('/' :: text) = 0x2f :: asBytes text := by
  have small : '/'.toNat < 128 := by decide
  exact asBytes_ascii small text

theorem fromPath_eq (rest : Text) :
    fromPath ('/' :: rest) = "file:///".toList ++ (asBytes (slashed rest)).flatMap escape := by
  have split : fromPath ('/' :: rest) = "file://".toList ++
      (if (slashed ('/' :: rest)).head? = some '/' then [] else ['/']) ++
      (asBytes (slashed ('/' :: rest))).flatMap escape := rfl
  have kept : escape 0x2f = ['/'] := by decide
  have front : "file:///".toList = "file://".toList ++ ['/'] := by decide
  rw [split, slashed_cons, List.head?_cons, if_pos rfl, slash_byte, List.flatMap_cons, kept,
    front]
  simp only [List.append_nil, List.append_assoc]

/-- What a URI is read back as. -/
theorem toPath_fromPath (rest : Text) : toPath (fromPath ('/' :: rest)) =
    some (if driveLetter (slashed rest) then slashed rest else '/' :: slashed rest) := by
  have stripped := stripPrefix_eq_some.2 (fromPath_eq rest)
  rw [toPath, stripped]
  simp only [Option.bind_eq_bind, Option.bind_some, percentDecode_escaped]
  by_cases drive : driveLetter (slashed rest) = true
  · rw [if_pos drive, if_pos drive]
  · rw [if_neg drive, if_neg drive]

theorem fromPath_inj : fromPath ('/' :: rest) = fromPath ('/' :: rest') ↔
    slashed rest = slashed rest' := by
  rw [fromPath_eq, fromPath_eq]
  constructor
  · intro same
    have decoded := congrArg percentDecode (List.append_cancel_left same)
    rw [percentDecode_escaped, percentDecode_escaped] at decoded
    exact Option.some.inj decoded
  · intro same
    rw [same]

/-! ## When a path is found -/

/-- Two paths are the same, as paths are compared. -/
def Same (p q : Text) : Prop := components p = components q

/-- A path is found again by its URI. -/
def FoundAgain (path : Text) : Prop := ∃ found, toPath (fromPath path) = some found ∧ Same found path

/-- Two paths that differ, if anywhere, in a slash against a backslash. -/
def Alike : Text → Text → Prop :=
  List.Forall₂ fun a b => a = b ∨ (a ∈ ['/', '\\'] ∧ b ∈ ['/', '\\'])

theorem slashed_eq (c : Char) (path : Text) :
    slashed (c :: path) = (if c = '\\' then '/' else c) :: slashed path := rfl

theorem alike_iff : Alike p q ↔ slashed p = slashed q := by
  induction p generalizing q with
  | nil =>
      rw [Alike, List.forall₂_nil_left_iff]
      cases q with
      | nil => exact iff_of_true rfl rfl
      | cons b q => exact iff_of_false (List.cons_ne_nil _ _) (List.cons_ne_nil _ _).symm
  | cons a p ih =>
      cases q with
      | nil =>
          rw [Alike, List.forall₂_nil_right_iff]
          exact iff_of_false (List.cons_ne_nil _ _) (List.cons_ne_nil _ _)
      | cons b q =>
          rw [Alike, List.forall₂_cons, ← Alike, ih, slashed_eq a, slashed_eq b,
            List.cons.injEq]
          refine and_congr_left fun _ => ?_
          simp only [List.mem_cons, List.not_mem_nil, or_false]
          by_cases back : a = '\\'
          · by_cases back' : b = '\\'
            · exact iff_of_true (Or.inl (back.trans back'.symm)) (by rw [back, back'])
            · rw [if_pos back, if_neg back']
              constructor
              · rintro (same | ⟨-, same | same⟩)
                · exact absurd (same.symm.trans back) back'
                · exact same.symm
                · exact absurd same back'
              · exact fun same => Or.inr ⟨Or.inr back, Or.inl same.symm⟩
          · by_cases back' : b = '\\'
            · rw [if_neg back, if_pos back']
              constructor
              · rintro (same | ⟨same | same, -⟩)
                · exact absurd (same.trans back') back
                · exact same
                · exact absurd same back
              · exact fun same => Or.inr ⟨Or.inl same, Or.inr back'⟩
            · rw [if_neg back, if_neg back']
              constructor
              · rintro (same | ⟨same | same, same' | same'⟩)
                · exact same
                · exact same.trans same'.symm
                · exact absurd same' back'
                · exact absurd same back
                · exact absurd same back
              · exact Or.inl

theorem backslash_slashed (path : Text) : '\\' ∉ slashed path := by
  intro there
  obtain ⟨c, -, same⟩ := List.mem_map.1 there
  by_cases back : c = '\\'
  · rw [if_pos back] at same
    exact absurd same (by decide)
  · rw [if_neg back] at same
    exact back same

theorem slashed_of_plain (plain_ : '\\' ∉ p) : slashed p = p := by
  rw [slashed, List.map_congr_left (g := id), List.map_id]
  intro c there
  apply if_neg
  rintro rfl
  exact plain_ there

theorem mem_components {path : Text} {c : Char} (other : c ≠ '/') (notDot : c ≠ '.') :
    (∃ name ∈ (components path).2, c ∈ name) ↔ c ∈ path := by
  have kept {names : List Text} (there : ∃ name ∈ names, c ∈ name) :
      ∃ name ∈ names.filter (· ≠ ['.']), c ∈ name := by
    obtain ⟨name, member, inside⟩ := there
    refine ⟨name, List.mem_filter.2 ⟨member, decide_eq_true fun dot => ?_⟩, inside⟩
    rw [dot] at inside
    exact notDot (List.mem_singleton.1 inside)
  have solid : (c == '/') = false := beq_false_of_ne other
  rw [components]
  by_cases rooted : path.head? = some '/'
  · rw [if_pos rooted]
    constructor
    · rintro ⟨name, member, inside⟩
      exact mem_of_mem_words (List.mem_filter.1 member).1 c inside
    · intro there
      exact kept (exists_word (· == '/') there solid)
  · rw [if_neg rooted]
    constructor
    · rintro ⟨name, member, inside⟩
      rcases List.mem_append.1 member with first | later
      · exact mem_of_mem_words (List.mem_of_mem_take first) c inside
      · exact mem_of_mem_words (List.mem_of_mem_drop (List.mem_filter.1 later).1) c inside
    · intro there
      obtain ⟨name, member, inside⟩ := exists_word (· == '/') there solid
      rw [← List.take_append_drop 1 (words (· == '/') path)] at member
      rcases List.mem_append.1 member with first | later
      · exact ⟨name, List.mem_append_left _ first, inside⟩
      · obtain ⟨name, member, inside⟩ := kept ⟨name, later, inside⟩
        exact ⟨name, List.mem_append_right _ member, inside⟩

/-- A path with no backslash that begins with no drive is found again, and no other. -/
theorem foundAgain_iff (rest : Text) :
    FoundAgain ('/' :: rest) ↔ '\\' ∉ rest ∧ driveLetter rest = false := by
  rw [FoundAgain, toPath_fromPath]
  constructor
  · rintro ⟨found, read, same⟩
    cases read
    have plain_ : '\\' ∉ rest := by
      intro there
      have held : '\\' ∈ '/' :: rest := List.mem_cons_of_mem _ there
      have inside := (mem_components (by decide) (by decide)).2 held
      rw [← same, mem_components (by decide) (by decide)] at inside
      split at inside
      · exact backslash_slashed rest inside
      · rcases List.mem_cons.1 inside with no | inside
        · exact absurd no (by decide)
        · exact backslash_slashed rest inside
    refine ⟨plain_, ?_⟩
    rw [slashed_of_plain plain_] at same
    by_contra drive
    rw [Bool.not_eq_false] at drive
    rw [if_pos drive] at same
    have rooted := congrArg Prod.fst same
    have relative : rest.head? ≠ some '/' := by
      intro slash
      rw [driveLetter, slash] at drive
      exact absurd drive Bool.false_ne_true
    rw [components, components, if_neg relative] at rooted
    cases rooted
  · rintro ⟨plain_, drive⟩
    refine ⟨'/' :: rest, ?_, rfl⟩
    rw [slashed_of_plain plain_, drive]
    rfl

/-- An absolute path is found again, and its URI tells it from another, exactly where it holds
no backslash and begins with no drive, and the other differs in more than which slashes lean
back. -/
theorem uris_iff (rest rest' : Text) :
    (FoundAgain ('/' :: rest) ∧ (¬Same ('/' :: rest) ('/' :: rest') →
      fromPath ('/' :: rest) ≠ fromPath ('/' :: rest'))) ↔
    ('\\' ∉ rest ∧ driveLetter rest = false) ∧
      (Same ('/' :: rest) ('/' :: rest') ∨ ¬Alike rest rest') := by
  rw [foundAgain_iff, alike_iff, Ne, fromPath_inj, or_iff_not_imp_left]

/-- A backslash is lost, a component that looks like a drive makes a path relative, and two
paths share a URI. -/
theorem not_found_again :
    ¬FoundAgain "/a\\b".toList ∧ ¬FoundAgain "/C:/x".toList ∧
      ¬Same "/a\\b".toList "/a/b".toList ∧
        fromPath "/a\\b".toList = fromPath "/a/b".toList := by
  refine ⟨fun found => ?_, fun found => ?_, by unfold Same; decide, ?_⟩
  · exact absurd ((foundAgain_iff "a\\b".toList).1 found).1 (by decide)
  · exact absurd ((foundAgain_iff "C:/x".toList).1 found).2 (by decide)
  · have alike : slashed "a\\b".toList = slashed "a/b".toList := by decide
    exact fromPath_inj.2 alike

end Deed.Lsp.Uri
