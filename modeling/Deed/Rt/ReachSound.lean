import Deed.Rt.Reach

/-!
# A narrowed capability reaches no more

What a successful `parts`, `splitAuthority`, `resolve` and `narrow` say about
their results, and what follows for a chain of narrowings.
-/

namespace Deed.Rt.Reach

open Deed.Library

variable {reach narrowed : Reach} {url host authority scheme path : Text} {port : Nat}
  {target : Target}

/-! ## Characters -/

/-- Lowercasing leaves everything but the capital letters as it was. -/
theorem mem_of_toLower {mark : Char} {text : Text} (plain : mark.isAlpha = false)
    (member : mark ∈ toAsciiLowercase text) : mark ∈ text := by
  rcases List.mem_map.1 member with ⟨character, held, lowered⟩
  by_cases upper : character.val ≥ 'A'.val ∧ character.val ≤ 'Z'.val
  · have low : mark.isAlpha = true := by
      rw [← lowered]
      have small : character.toNat ∈ Finset.Icc 65 90 := by
        rw [Finset.mem_Icc]
        exact ⟨upper.1, upper.2⟩
      have all : ∀ code ∈ Finset.Icc 65 90, ((Char.ofNat code).toLower.isAlpha) = true := by
        decide
      have same := all character.toNat small
      rwa [Char.ofNat_toNat] at same
    rw [plain] at low
    exact absurd low Bool.false_ne_true
  · rw [Char.toLower, dif_neg upper] at lowered
    exact lowered ▸ held

theorem decimal_injective {number other : Nat} (same : decimal number = decimal other) :
    number = other := by
  have read := congrArg (fun digits => Nat.ofDigitChars 10 digits 0) same
  simpa [decimal, Nat.ofDigitChars_ten_toDigits] using read

theorem withPort_inj {name : Text} {number : Nat} (plain : ':' ∉ host)
    (same : withPort host port = withPort name number) : host = name ∧ port = number := by
  have digits : ∀ value, ':' ∉ decimal value := by
    intro value member
    have digit := Nat.isDigit_of_mem_toDigits (by decide) (by decide) member
    exact absurd digit (by decide)
  rcases (List.append_cons_inj_of_notMem plain (digits port)).1 same with
    ⟨names, _, numbers⟩
  exact ⟨names, decimal_injective numbers⟩

theorem ne_withPort {name : Text} (plain : ':' ∉ name) : name ≠ withPort host port := by
  rintro rfl
  exact plain (List.mem_append_right _ List.mem_cons_self)

/-! ## What succeeds -/

/-- An authority holds none of the characters that end it, and a path starts with one. -/
theorem parts_ok (split : parts url = .ok (scheme, authority, path)) :
    '@' ∉ authority ∧ (∀ character ∈ authority, pathStarts character = false) ∧
      ∃ first rest, path = first :: rest ∧ pathStarts first = true := by
  rw [parts] at split
  split at split
  · exact absurd split nofun
  · split at split
    · exact absurd split nofun
    · next left rest found =>
        split at split
        · exact absurd split nofun
        · dsimp only at split
          split at split
          · exact absurd split nofun
          · next holds =>
              rcases Prod.mk.inj (Except.ok.inj split) with ⟨rfl, halves⟩
              rcases Prod.mk.inj halves with ⟨rfl, rfl⟩
              rw [not_or] at holds
              refine ⟨holds.2, ?_, ?_⟩
              · intro character member
                have stays := List.mem_takeWhile_imp member
                simpa using stays
              · split
                · exact ⟨'/', [], rfl, rfl⟩
                · next some_ =>
                    cases tail : rest.dropWhile (!pathStarts ·) with
                    | nil => exact absurd tail some_
                    | cons first others =>
                        have stops := List.head_dropWhile_not (!pathStarts ·) some_
                        simp only [tail, List.head_cons] at stops
                        exact ⟨first, others, rfl, by simpa using stops⟩

/-- A host is not empty, holds no colon, and comes from the authority. -/
theorem splitAuthority_ok {default : Nat}
    (split : splitAuthority authority default = .ok (host, port)) :
    ∃ name, host = toAsciiLowercase name ∧ name ≠ [] ∧ ':' ∉ name ∧
      ∀ character ∈ name, character ∈ authority := by
  rw [splitAuthority] at split
  cases halves : rsplitOnce ':' authority with
  | none =>
      simp only [halves] at split
      split at split
      · exact absurd split nofun
      · next whole =>
          rw [not_or] at whole
          rcases Prod.mk.inj (Except.ok.inj split) with ⟨rfl, rfl⟩
          exact ⟨authority, rfl, whole.1, whole.2, fun _ => id⟩
  | some both =>
      rcases both with ⟨name, digits⟩
      have front : ∀ character ∈ name, character ∈ authority := by
        intro character member
        rw [(rsplitOnce_eq_some halves).1]
        exact List.mem_append_left _ member
      simp only [halves] at split
      split at split
      · exact absurd split nofun
      · split at split
        · exact absurd split nofun
        · exact absurd split nofun
        · split at split
          · exact absurd split nofun
          · next whole =>
              rw [not_or] at whole
              rcases Prod.mk.inj (Except.ok.inj split) with ⟨rfl, rfl⟩
              exact ⟨name, rfl, whole.1, whole.2, front⟩

/-- A URL is resolved when its scheme, its authority and its path are there and the reach
admits the host. -/
theorem resolve_ok : resolve reach url = .ok target ↔
    ∃ authority, parts url = .ok ("http".toList, authority, target.path) ∧
      splitAuthority authority 80 = .ok (target.host, target.port) ∧
      reach.admits target.host target.port = true := by
  constructor
  · intro resolved
    rw [resolve] at resolved
    cases split : parts url with
    | error why =>
        rw [split] at resolved
        exact absurd resolved nofun
    | ok found =>
        rcases found with ⟨scheme, authority, path⟩
        rw [split] at resolved
        simp only [bind, Except.bind] at resolved
        split at resolved
        · exact absurd resolved nofun
        · next http =>
            rw [not_not] at http
            cases halves : splitAuthority authority 80 with
            | error why =>
                rw [halves] at resolved
                exact absurd resolved nofun
            | ok both =>
                rcases both with ⟨host, port⟩
                rw [halves] at resolved
                simp only at resolved
                split at resolved
                · exact absurd resolved nofun
                · next admitted =>
                    rw [← Except.ok.inj resolved]
                    exact ⟨authority, by rw [http], halves, by simpa using admitted⟩
  · rintro ⟨authority, split, halves, admitted⟩
    rw [resolve, split]
    simp [bind, Except.bind, halves, admitted]

/-- A resolved host holds none of the characters that mean something in a URL. -/
theorem host_plain (resolved : resolve reach url = .ok target) :
    ∀ character ∈ target.host, character ∉ ['/', '?', '#', '@', ':'] := by
  rcases resolve_ok.1 resolved with ⟨authority, split, halves, _⟩
  rcases parts_ok split with ⟨noAt, noEnd, _⟩
  rcases splitAuthority_ok halves with ⟨name, lowered, _, noColon, held⟩
  have absent : ∀ {mark : Char}, mark.isAlpha = false → mark ∉ name → mark ∉ target.host := by
    intro mark plain outside member
    rw [lowered] at member
    exact outside (mem_of_toLower plain member)
  have ended : ∀ {mark : Char}, pathStarts mark = true → mark ∉ name := by
    intro mark starts member
    rw [noEnd mark (held mark member)] at starts
    exact Bool.false_ne_true starts
  intro character member special
  simp only [List.mem_cons, List.not_mem_nil, or_false] at special
  rcases special with rfl | rfl | rfl | rfl | rfl
  · exact absent (by decide) (ended (by decide)) member
  · exact absent (by decide) (ended (by decide)) member
  · exact absent (by decide) (ended (by decide)) member
  · exact absent (by decide) (fun inName => noAt (held _ inName)) member
  · exact absent (by decide) noColon member

/-! ## Narrowing -/

/-- What a successful narrowing leaves is one host, or one port of one, that the reach had. -/
theorem narrow_ok (narrowing : narrow reach host = .ok narrowed) :
    ∃ name port, ':' ∉ name ∧
      narrowed.hosts = {if port = 0 then name else withPort name port} ∧
      ((if port = 0 then name else withPort name port) ∈ reach.hosts ∨
        port ≠ 0 ∧ name ∈ reach.hosts) := by
  rw [narrow] at narrowing
  split at narrowing
  · exact absurd narrowing nofun
  · split at narrowing
    · exact absurd narrowing nofun
    · cases halves : splitAuthority (trim whitespace host) 0 with
      | error why =>
          rw [halves] at narrowing
          exact absurd narrowing nofun
      | ok both =>
          rcases both with ⟨name, port⟩
          rw [halves] at narrowing
          by_cases admitted : (if port = 0 then name else withPort name port) ∈ reach.hosts ∨
              port ≠ 0 ∧ name ∈ reach.hosts
          · have left := Except.ok.inj ((if_pos admitted).symm.trans narrowing)
            rw [← left]
            rcases splitAuthority_ok halves with ⟨spelled, rfl, _, noColon, _⟩
            refine ⟨toAsciiLowercase spelled, port, ?_, rfl, admitted⟩
            intro member
            exact noColon (mem_of_toLower (by decide) member)
          · exact absurd ((if_neg admitted).symm.trans narrowing) nofun

/-- A narrowing removes hosts and adds none. -/
theorem narrow_admits (narrowing : narrow reach url = .ok narrowed) (plain : ':' ∉ host)
    (admitted : narrowed.admits host port = true) : reach.admits host port = true := by
  rcases narrow_ok narrowing with ⟨name, number, noColon, left, had⟩
  rw [admits, Bool.or_eq_true, decide_eq_true_eq, decide_eq_true_eq] at admitted ⊢
  rw [left, Finset.mem_singleton, Finset.mem_singleton] at admitted
  by_cases bare : number = 0
  · rw [if_pos bare] at admitted had
    have same : host = name := by
      rcases admitted with same | same
      · exact same
      · exact absurd same.symm (ne_withPort noColon)
    rcases had with held | ⟨ported, _⟩
    · exact Or.inl (same ▸ held)
    · exact absurd bare ported
  · rw [if_neg bare] at admitted had
    have same : host = name ∧ port = number := by
      rcases admitted with same | same
      · exact absurd same (ne_withPort plain)
      · exact withPort_inj plain same
    rcases same with ⟨rfl, rfl⟩
    rcases had with held | ⟨_, held⟩
    · exact Or.inr held
    · exact Or.inl held

/-- A finite chain of narrowings. -/
def narrowAll (reach : Reach) (hosts : List Text) : Except Refused Reach :=
  hosts.foldlM narrow reach

theorem narrowAll_admits {hosts : List Text} (chain : narrowAll reach hosts = .ok narrowed)
    (plain : ':' ∉ host) (admitted : narrowed.admits host port = true) :
    reach.admits host port = true := by
  induction hosts generalizing reach with
  | nil =>
      rw [Except.ok.inj chain]
      exact admitted
  | cons first rest ih =>
      rw [narrowAll, List.foldlM_cons] at chain
      cases step : narrow reach first with
      | error why =>
          rw [step] at chain
          exact absurd chain nofun
      | ok next =>
          rw [step] at chain
          exact narrow_admits step plain (ih chain)

/-- What a narrowed reach resolves, every earlier reach resolves to the same target. -/
theorem narrowAll_resolve {hosts : List Text} (chain : narrowAll reach hosts = .ok narrowed)
    (resolved : resolve narrowed url = .ok target) : resolve reach url = .ok target := by
  have plain : ':' ∉ target.host := by
    intro member
    exact host_plain resolved ':' member (by decide)
  rcases resolve_ok.1 resolved with ⟨authority, split, halves, admitted⟩
  exact resolve_ok.2 ⟨authority, split, halves, narrowAll_admits chain plain admitted⟩

/-- What a granted reach admits is one of the entries it was granted. -/
theorem granting_admits {granted : List Text}
    (admitted : (granting granted).admits host port = true) :
    ∃ entry ∈ granted, normal entry = host ∨ normal entry = withPort host port := by
  rw [admits, Bool.or_eq_true, decide_eq_true_eq, decide_eq_true_eq] at admitted
  have entries : ∀ text ∈ (granting granted).hosts, ∃ entry ∈ granted, normal entry = text := by
    intro text member
    rw [granting, List.mem_toFinset, List.mem_filter, List.mem_map] at member
    exact member.1
  rcases admitted with held | held
  · rcases entries _ held with ⟨entry, member, same⟩
    exact ⟨entry, member, Or.inl same⟩
  · rcases entries _ held with ⟨entry, member, same⟩
    exact ⟨entry, member, Or.inr same⟩

/--
A URL that a narrowed reach resolves is resolved by every earlier reach of the chain, to
the same target.  The target's host was granted, alone or with the port, and holds no
character that means something in a URL.
-/
theorem narrowing_never_widens (granted chain further : List Text) (url : Text)
    {earlier last : Reach} {target : Target}
    (before : narrowAll (granting granted) chain = .ok earlier)
    (after : narrowAll earlier further = .ok last)
    (resolved : resolve last url = .ok target) :
    resolve earlier url = .ok target ∧
      (∃ entry ∈ granted, normal entry = target.host ∨
        normal entry = withPort target.host target.port) ∧
      ∀ character ∈ target.host, character ∉ ['/', '?', '#', '@', ':'] := by
  have resolvedBefore := narrowAll_resolve after resolved
  have resolvedFirst := narrowAll_resolve before resolvedBefore
  rcases resolve_ok.1 resolvedFirst with ⟨_, _, _, admitted⟩
  exact ⟨resolvedBefore, granting_admits admitted, host_plain resolved⟩

/-- One port of a granted host, reached under another spelling. -/
theorem narrowing_never_widens_port :
    resolve ⟨{"a.b".toList}⟩ "http://A.b:8080/".toList =
        .ok ⟨"a.b".toList, 8080, "/".toList⟩ ∧
      (∃ entry ∈ [" A.B ".toList], normal entry = "a.b".toList ∨
        normal entry = withPort "a.b".toList 8080) ∧
      ∀ character ∈ "a.b".toList, character ∉ ['/', '?', '#', '@', ':'] :=
  @narrowing_never_widens [" A.B ".toList] ["a.b".toList] ["A.b:08080".toList]
    "http://A.b:8080/".toList _ ⟨{"a.b:8080".toList}⟩ _ (by decide)
    (by decide) (by decide)

end Deed.Rt.Reach
