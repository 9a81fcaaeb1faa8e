import Deed.Library.Http
import Deed.Rt.Http

/-!
# One request per fetch

The bytes of a request against the grammar of HTTP/1.1, and which targets they
spell one request for.
-/

namespace Deed.Rt

-- The texts of a request are decided byte by byte.
set_option maxRecDepth 4000

open Deed.Library Deed.Library.Http

variable {target : Target} {method : Text} {body : Option Text}

/-! ## The bytes, line by line -/

@[simp]
theorem asBytes_append (text other : Text) :
    asBytes (text ++ other) = asBytes text ++ asBytes other :=
  List.flatMap_append

@[simp]
theorem asBytes_nil : asBytes [] = [] := rfl

/-- The fields that a request always carries after its host, and those about a body. -/
def ownFields (body : Option Text) : List Field :=
  [⟨ascii "Connection", [space], ascii "close", []⟩, ⟨ascii "Accept", [space], ascii "*/*", []⟩] ++
    (match body with
      | some body =>
          [⟨ascii "Content-Type", [space], ascii "text/plain; charset=utf-8", []⟩,
            ⟨ascii "Content-Length", [space], asBytes (decimal (asBytes body).length), []⟩]
      | none => [])

def hostField (authority : Bytes) : Field := ⟨ascii "Host", [space], authority, []⟩

/-- The request line as it is sent, without its end. -/
def sentLine (target : Target) (method : Text) : Bytes :=
  asBytes method ++ space :: (asBytes target.path ++ space :: ascii "HTTP/1.1")

theorem requestBytes_eq : requestBytes target method body =
    sentLine target method ++ newline ++
      unlines (((hostField (asBytes target.authority)) :: ownFields body).map Field.line) ++
      newline ++ asBytes (body.getD []) := by
  have literal : asBytes " HTTP/1.1\r\nHost: ".toList =
      space :: (ascii "HTTP/1.1" ++ newline ++ ascii "Host" ++ [colon, space]) := by
    decide
  have more : asBytes "\r\nConnection: close\r\nAccept: */*\r\n".toList =
      newline ++ ascii "Connection" ++ [colon, space] ++ ascii "close" ++ newline ++
        ascii "Accept" ++ [colon, space] ++ ascii "*/*" ++ newline := by
    decide
  have about : asBytes "Content-Type: text/plain; charset=utf-8\r\nContent-Length: ".toList =
      ascii "Content-Type" ++ [colon, space] ++ ascii "text/plain; charset=utf-8" ++ newline ++
        ascii "Content-Length" ++ [colon, space] := by
    decide
  have ends : asBytes "\r\n".toList = newline := by decide
  have gap : asBytes " ".toList = [space] := by decide
  cases body with
  | none =>
      simp only [requestBytes, requestHead, asBytes_append, literal, more, ends, gap, sentLine,
        hostField, ownFields, Field.line, Option.getD_none, asBytes_nil, unlines_cons,
        unlines_nil, List.map_cons, List.map_nil, List.append_assoc, List.append_nil,
        List.nil_append, List.cons_append]
  | some body =>
      simp only [requestBytes, requestHead, asBytes_append, literal, more, about, ends, gap,
        sentLine, hostField, ownFields, Field.line, Option.getD_some, unlines_cons, unlines_nil,
        List.map_cons, List.map_nil, List.append_assoc, List.append_nil, List.nil_append,
        List.cons_append]

/-! ## The fields of a request -/

/-- A digit is one byte. -/
theorem utf8_digit {character : Char} (isDigit : character.isDigit = true) :
    String.utf8EncodeChar character = [UInt8.ofNat character.toNat] ∧
      digit (UInt8.ofNat character.toNat) = true ∧
      (UInt8.ofNat character.toNat).toNat = character.toNat := by
  have small : character.toNat ∈ Finset.Icc 48 57 := by
    rw [Char.isDigit, Bool.and_eq_true, decide_eq_true_eq, decide_eq_true_eq] at isDigit
    exact Finset.mem_Icc.2 ⟨isDigit.1, isDigit.2⟩
  have all : ∀ code ∈ Finset.Icc 48 57,
      String.utf8EncodeChar (Char.ofNat code) = [UInt8.ofNat code] ∧
        digit (UInt8.ofNat code) = true ∧ (UInt8.ofNat code).toNat = code := by
    decide
  have holds := all _ small
  rwa [Char.ofNat_toNat] at holds

theorem digit_decimal (value : Nat) : ∀ character ∈ decimal value, character.isDigit = true :=
  fun _ member => Nat.isDigit_of_mem_toDigits (by decide) (by decide) member

theorem digits_asBytes {text : Text} (digits : ∀ character ∈ text, character.isDigit = true) :
    ∀ byte ∈ asBytes text, digit byte = true := by
  intro byte member
  rcases List.mem_flatMap.1 member with ⟨character, held, inside⟩
  rcases utf8_digit (digits character held) with ⟨one, isDigit, _⟩
  rw [one] at inside
  rw [List.mem_singleton.1 inside]
  exact isDigit

theorem visible_digit : ∀ byte : UInt8, digit byte = true → visible byte = true :=
  forall_byte (by decide)

/-- A field whose name and value are seen all through, with one space between. -/
theorem wellFormed_of_visible {name value : Bytes} (token : Token name)
    (seen : ∀ byte ∈ value, visible byte = true) :
    (⟨name, [space], value, []⟩ : Field).WellFormed where
  name := token
  before := List.forall_mem_singleton.2 (by decide)
  value := FieldValue.of_visible seen
  after := fun _ member => absurd member List.not_mem_nil

theorem hostField_wellFormed {authority : Bytes} (host : HostValue authority) :
    (hostField authority).WellFormed :=
  wellFormed_of_visible ⟨by decide, by decide⟩ host.visible

theorem connection_wellFormed :
    (⟨ascii "Connection", [space], ascii "close", []⟩ : Field).WellFormed :=
  wellFormed_of_visible ⟨by decide, by decide⟩ (by decide)

theorem accept_wellFormed : (⟨ascii "Accept", [space], ascii "*/*", []⟩ : Field).WellFormed :=
  wellFormed_of_visible ⟨by decide, by decide⟩ (by decide)

theorem token_contentType : Token (ascii "Content-Type") := ⟨by decide, by decide⟩

theorem contentType_wellFormed :
    (⟨ascii "Content-Type", [space], ascii "text/plain; charset=utf-8", []⟩ :
      Field).WellFormed :=
  ⟨token_contentType, by decide, ⟨by decide, by decide, by decide⟩,
    fun _ member => absurd member List.not_mem_nil⟩

theorem ownFields_wellFormed : ∀ field ∈ ownFields body, field.WellFormed := by
  cases body with
  | none =>
      exact List.forall_mem_cons.2 ⟨connection_wellFormed,
        List.forall_mem_singleton.2 accept_wellFormed⟩
  | some body =>
      refine List.forall_mem_cons.2 ⟨connection_wellFormed, List.forall_mem_cons.2
        ⟨accept_wellFormed, List.forall_mem_cons.2
          ⟨contentType_wellFormed, List.forall_mem_singleton.2 ?_⟩⟩⟩
      apply wellFormed_of_visible ⟨by decide, by decide⟩
      intro byte member
      exact visible_digit byte (digits_asBytes (digit_decimal _) byte member)

/-- The host is the only one of a request's own fields that is named so. -/
theorem values_host {authority : Bytes} :
    values (ascii "host") (hostField authority :: ownFields body) = [authority] := by
  have own : values (ascii "host") (ownFields body) = [] := by
    cases body with
    | none => decide
    | some body =>
        rw [ownFields, values_append, List.append_eq_nil_iff]
        refine ⟨by decide, ?_⟩
        have type : lowercase (ascii "Content-Type") ≠ ascii "host" := by decide
        have length : lowercase (ascii "Content-Length") ≠ ascii "host" := by decide
        rw [values_cons, values_cons, values_nil, if_neg type, if_neg length]
  have small : lowercase (ascii "Host") = ascii "host" := by decide
  have named : lowercase (hostField authority).name = ascii "host" := small
  rw [values_cons, own, if_pos named]
  rfl

/-- The host declares nothing about the body. -/
theorem declared_host {authority : Bytes} {fields : List Field} :
    declared (fields ++ hostField authority :: ownFields body) =
      declared (fields ++ ownFields body) := by
  have skip : ∀ name, lowercase (ascii "Host") ≠ name →
      values name (fields ++ hostField authority :: ownFields body) =
        values name (fields ++ ownFields body) := by
    intro name other
    have unnamed : lowercase (hostField authority).name ≠ name := other
    rw [values_append, values_cons, if_neg unnamed, ← values_append]
  rw [declared, declared, skip _ (by decide), skip _ (by decide)]

/-! ## Which requests are one -/

/--
What a target's path may be.  With the version after it, it is a request target, a
version and whole header lines, none of which names a host, and with the request's own
fields they declare the length of the body.
-/
def Harmless (path : Bytes) (body : Option Text) : Prop :=
  ∃ (origin version : Bytes) (fields : List Field),
    OriginForm origin ∧ Version version ∧ (∀ field ∈ fields, field.WellFormed) ∧
    path ++ space :: ascii "HTTP/1.1" ++ newline =
      origin ++ space :: version ++ newline ++ unlines (fields.map Field.line) ∧
    values (ascii "host") fields = [] ∧
    declared (fields ++ ownFields body) = some (asBytes (body.getD [])).length

/-- The bytes of a request are one request: with the method, a target that begins with a
slash, the authority in the only host field, and the body. -/
def OneRequest (target : Target) (method : Text) (body : Option Text) : Prop :=
  ∃ request : Request, request.WellFormed ∧ request.bytes = requestBytes target method body ∧
    request.method = asBytes method ∧ request.target.head? = some 0x2f ∧
    values (ascii "host") request.fields = [asBytes target.authority] ∧
    request.body = asBytes (body.getD [])

theorem Request.lines_unbroken {request : Request} (wellFormed : request.WellFormed) :
    ∀ line ∈ request.line :: request.fields.map Field.line, Unbroken line := by
  refine List.forall_mem_cons.2 ⟨?_, ?_⟩
  · intro member
    rw [Http.Request.line, List.mem_append, List.mem_cons, List.mem_append, List.mem_cons] at member
    rcases member with inMethod | gap | inTarget | gap | inVersion
    · exact (plain_of_visible _ (visible_of_token _ (wellFormed.method.2 _ inMethod)).1).1 rfl
    · exact absurd gap (by decide)
    · exact unbroken_of_visible wellFormed.target.visible.1 inTarget
    · exact absurd gap (by decide)
    · exact wellFormed.version.unbroken inVersion
  · intro line member
    rcases List.mem_map.1 member with ⟨field, held, rfl⟩
    exact (wellFormed.fields field held).unbroken

theorem harmless_of_oneRequest (one : OneRequest target method body) :
    HostValue (asBytes target.authority) ∧ Harmless (asBytes target.path) body := by
  rcases one with ⟨request, wellFormed, spelled, methods, _, hosts, bodies⟩
  have host : HostValue (asBytes target.authority) := by
    apply wellFormed.hosts
    rw [hosts]
    exact List.mem_singleton_self _
  refine ⟨host, ?_⟩
  rw [Http.Request.bytes, requestBytes_eq, bodies] at spelled
  have lines := List.append_cancel_right (List.append_cancel_right spelled)
  have own : ∀ field ∈ hostField (asBytes target.authority) :: ownFields body,
      field.WellFormed :=
    List.forall_mem_cons.2 ⟨hostField_wellFormed host, ownFields_wellFormed⟩
  rcases unlines_eq_append (Request.lines_unbroken wellFormed) lines with
    ⟨first, last, whole, front, back⟩
  have unbroken := Request.lines_unbroken wellFormed
  rw [whole, List.forall_mem_append] at unbroken
  have lasts := unlines_inj unbroken.2 (by
    intro line member
    rcases List.mem_map.1 member with ⟨field, held, rfl⟩
    exact (own field held).unbroken) back
  cases first with
  | nil =>
      rw [unlines_nil] at front
      exact absurd front.symm (by simp [newline])
  | cons line injected =>
      rcases List.cons.inj whole with ⟨sameLine, sameFields⟩
      rcases List.map_eq_append_iff.1 sameFields with ⟨fields, rest, split, inject, ends⟩
      rw [split] at hosts
      have parts := wellFormed.fields
      rw [split, List.forall_mem_append] at parts
      have same := map_line_inj parts.2 own (ends.trans lasts)
      rw [values_append, values_congr same, values_host, List.append_left_eq_self] at hosts
      refine ⟨request.target, request.version, fields, wellFormed.target, wellFormed.version,
        parts.1, ?_, hosts, ?_⟩
      · rw [unlines_cons, ← sameLine, Http.Request.line, methods, sentLine, ← inject] at front
        simp only [List.append_assoc, List.cons_append, List.append_cancel_left_eq,
          List.cons.injEq, true_and] at front ⊢
        exact front.symm
      · have length := wellFormed.body
        rw [split, bodies] at length
        rw [← length, ← declared_host]
        apply declared_congr
        rw [List.map_append, List.map_append, same]

theorem oneRequest_of_harmless (token : Token (asBytes method))
    (host : HostValue (asBytes target.authority)) (harmless : Harmless (asBytes target.path) body) :
    OneRequest target method body := by
  rcases harmless with ⟨origin, version, fields, isOrigin, isVersion, wellFormed, spelled,
    hosts, length⟩
  have named : values (ascii "host") (fields ++ hostField (asBytes target.authority) ::
      ownFields body) = [asBytes target.authority] := by
    rw [values_append, hosts, values_host, List.nil_append]
  refine ⟨⟨asBytes method, origin, version,
    fields ++ hostField (asBytes target.authority) :: ownFields body,
    asBytes (body.getD [])⟩, ?_, ?_, rfl, isOrigin.visible.2, named, rfl⟩
  · constructor
    · exact token
    · exact isOrigin
    · exact isVersion
    · exact List.forall_mem_append.2 ⟨wellFormed,
        List.forall_mem_cons.2 ⟨hostField_wellFormed host, ownFields_wellFormed⟩⟩
    · rw [named]
      exact List.forall_mem_singleton.2 host
    · exact declared_host.trans length
  · rw [Http.Request.bytes, requestBytes_eq, Http.Request.line, sentLine, List.map_append,
      unlines_cons, unlines_append]
    have longer := congrArg (fun bytes => asBytes method ++ space :: bytes ++
      (unlines ((hostField (asBytes target.authority) :: ownFields body).map Field.line) ++
        newline ++ asBytes (body.getD []))) spelled.symm
    simp only [List.append_assoc, List.cons_append] at longer ⊢
    exact longer

/-- The bytes are one request exactly where the path is harmless and the authority is a
host. -/
theorem oneRequest_iff (token : Token (asBytes method)) : OneRequest target method body ↔
    HostValue (asBytes target.authority) ∧ Harmless (asBytes target.path) body :=
  ⟨harmless_of_oneRequest, fun holds => oneRequest_of_harmless token holds.1 holds.2⟩

theorem token_method (known : method = "GET".toList ∨ method = "POST".toList) :
    Token (asBytes method) := by
  rcases known with rfl | rfl
  · exact ⟨by decide, by decide⟩
  · exact ⟨by decide, by decide⟩

/-- What a resolved URL sends is one request, with the body and the authority of the
target, exactly where the path is harmless and the authority is a host. -/
theorem one_request_per_fetch (reach : Reach) (url : Text) (target : Target)
    (_resolved : reach.resolve url = .ok target) (method : Text)
    (known : method = "GET".toList ∨ method = "POST".toList) (body : Option Text) :
    OneRequest target method body ↔
      HostValue (asBytes target.authority) ∧ Harmless (asBytes target.path) body :=
  oneRequest_iff (token_method known)

theorem one_request_per_fetch_root :
    OneRequest ⟨"h".toList, 80, "/".toList⟩ "GET".toList none ↔
      HostValue (asBytes "h".toList) ∧ Harmless (asBytes "/".toList) none :=
  one_request_per_fetch (Reach.granting ["h".toList]) "http://h".toList
    ⟨"h".toList, 80, "/".toList⟩ (by decide) "GET".toList (Or.inl rfl) none

/-- A path with line ends in it finishes the request before its headers, and what is left
over is sent after it. -/
theorem fetch_sends_more :
    (Reach.granting ["h".toList]).resolve "http://h/ HTTP/1.1\r\n\r\n".toList =
        .ok ⟨"h".toList, 80, "/ HTTP/1.1\r\n\r\n".toList⟩ ∧
      ¬ OneRequest ⟨"h".toList, 80, "/ HTTP/1.1\r\n\r\n".toList⟩ "GET".toList none := by
  refine ⟨by decide, ?_⟩
  intro one
  rcases (harmless_of_oneRequest one).2 with
    ⟨origin, version, fields, isOrigin, isVersion, wellFormed, spelled, _⟩
  have path : asBytes "/ HTTP/1.1\r\n\r\n".toList =
      ascii "/ HTTP/1.1" ++ return_ :: 0x0a :: return_ :: [0x0a] := by
    decide
  have head : return_ ∉ origin ++ space :: version := by
    intro member
    rcases List.mem_append.1 member with inOrigin | inRest
    · exact unbroken_of_visible isOrigin.visible.1 inOrigin
    · rcases List.mem_cons.1 inRest with gap | inVersion
      · exact absurd gap (by decide)
      · exact isVersion.unbroken inVersion
  have plain : return_ ∉ ascii "/ HTTP/1.1" := by decide
  rw [path] at spelled
  simp only [List.append_assoc, List.cons_append, List.nil_append, newline_append] at spelled
  have ends : origin ++ space :: (version ++ return_ :: 0x0a ::
        unlines (fields.map Field.line)) =
      (origin ++ space :: version) ++ return_ :: 0x0a :: unlines (fields.map Field.line) := by
    rw [List.append_assoc, List.cons_append]
  rcases append_cons_inj plain head (spelled.trans ends) with ⟨_, rest⟩
  have left := (List.cons.inj rest).2
  cases fields with
  | nil => exact absurd left (List.cons_ne_nil _ _)
  | cons field fields =>
      have named := (wellFormed field List.mem_cons_self).name
      rw [List.map_cons, unlines_cons, Field.line] at left
      cases name : field.name with
      | nil => exact named.1 name
      | cons byte bytes =>
          rw [name] at left named
          simp only [List.cons_append] at left
          have first := (visible_of_token _ (named.2 byte List.mem_cons_self)).1
          exact (plain_of_visible _ first).1 (List.cons.inj left).1.symm

end Deed.Rt
