import Deed.Cli.Property

/-!
# Property values read back as themselves

A value that stands in memory is read as the expected one exactly when it is that one, is not
too deep and holds nothing of a declared type that is named as a `Result` is; and a value that
is written stands where it was written.
-/

namespace Deed.Cli.Property

open Deed.Library Deed.Mir
open Deed.Wasm (Memory)
open Deed.Eval (Value Fields)
open Deed.Host (asI64)
open Deed.Runtime (StringAt ListAt Kept bytesOf stringSize listSize aggregateSize)

variable {program : Program} {declared : LayoutId → Option String} {memory after : Memory}
  {ty element : Ty} {value other : Value} {word : Int64} {depth place top index : Nat}
  {layout : Layout} {variant : Variant} {id : LayoutId} {fields held : Fields}

/-! ## Entries in the order of their keys -/

/-- No name is smaller than the one before it. -/
abbrev Ascending (fields : Fields) : Prop := (fields.map Prod.fst).Pairwise (· < ·)

theorem Ascending.distinct (ascending : Ascending fields) : Assoc.Distinct fields :=
  List.Pairwise.imp (fun less => ne_of_lt less) ascending

/-- Entries in order are known by what is found among them. -/
theorem Ascending.ext (first : Ascending fields) (second : Ascending held)
    (same : ∀ name, Assoc.find? fields name = Assoc.find? held name) : fields = held := by
  have each : ∀ entry, entry ∈ fields ↔ entry ∈ held := by
    rintro ⟨name, value⟩
    constructor
    · intro listed
      have found := Assoc.find?_of_mem first.distinct listed
      exact Assoc.mem_of_find? (same name ▸ found)
    · intro listed
      have found := Assoc.find?_of_mem second.distinct listed
      exact Assoc.mem_of_find? ((same name).trans found)
  have perm : fields.Perm held :=
    (List.perm_ext_iff_of_nodup (List.Nodup.of_map _ first.distinct)
      (List.Nodup.of_map _ second.distinct)).mpr each
  refine perm.eq_of_pairwise (fun one two _ _ less more => ?_) (List.pairwise_map.mp first)
    (List.pairwise_map.mp second)
  exact absurd (lt_trans less more) (lt_irrefl _)

theorem Ascending.placed {name : String} (ascending : Ascending fields)
    (absent : name ∉ fields.map Prod.fst) : Ascending (Assoc.place name value fields) := by
  induction fields with
  | nil => exact List.pairwise_singleton _ _
  | cons head rest ih =>
      obtain ⟨first, kept⟩ := head
      have parts := List.pairwise_cons.mp ascending
      rw [Assoc.place]
      split
      · rename_i less
        refine List.pairwise_cons.mpr ⟨fun later listed => ?_, ascending⟩
        rcases List.mem_cons.mp listed with rfl | behind
        · exact less
        · exact lt_trans less (parts.1 later behind)
      · rename_i notLess
        rw [List.map_cons, List.mem_cons, not_or] at absent
        have before : first < name := lt_of_le_of_ne (not_lt.mp notLess) (Ne.symm absent.1)
        refine List.pairwise_cons.mpr ⟨fun later listed => ?_, ih parts.2 absent.2⟩
        have among := ((Assoc.place_perm name value rest).map Prod.fst).mem_iff.mp listed
        rcases List.mem_cons.mp among with rfl | behind
        · exact before
        · exact parts.1 later behind

theorem Ascending.insert {name : String} (ascending : Ascending fields) :
    Ascending (Assoc.insert fields name value) := by
  refine Ascending.placed (List.Pairwise.sublist
    ((Assoc.erase_sublist fields name).map Prod.fst) ascending) ?_
  rw [← Assoc.find?_eq_none_iff, Assoc.find?_erase, if_pos rfl]

/-- Some fields with their values, put to others. -/
def gathered (read : Fields) (pairs : List (Field × Value)) : Fields :=
  pairs.foldl (fun read pair => Assoc.insert read pair.1.name pair.2) read

section Gathered

variable {read : Fields} {pairs : List (Field × Value)}

theorem Ascending.gathered (ascending : Ascending read) : Ascending (gathered read pairs) := by
  induction pairs generalizing read with
  | nil => exact ascending
  | cons pair pairs ih => exact ih ascending.insert

theorem find?_gathered_other {name : String} (absent : name ∉ pairs.map (·.1.name)) :
    Assoc.find? (gathered read pairs) name = Assoc.find? read name := by
  induction pairs generalizing read with
  | nil => rfl
  | cons pair pairs ih =>
      rw [List.map_cons, List.mem_cons, not_or] at absent
      rw [gathered, List.foldl_cons]
      exact (ih absent.2).trans (Assoc.find?_insert_ne (Ne.symm absent.1))

theorem find?_gathered (distinct : (pairs.map (·.1.name)).Nodup) {pair : Field × Value}
    (listed : pair ∈ pairs) :
    Assoc.find? (gathered read pairs) pair.1.name = some pair.2 := by
  induction pairs generalizing read with
  | nil => exact absurd listed List.not_mem_nil
  | cons first pairs ih =>
      rw [List.map_cons, List.nodup_cons] at distinct
      rw [gathered, List.foldl_cons]
      rcases List.mem_cons.mp listed with rfl | later
      · exact (find?_gathered_other distinct.1).trans (Assoc.find?_insert_self _ _ _)
      · exact ih distinct.2 later

end Gathered

theorem Keyed.nodup (keyed : Keyed variant fields) : (variant.fields.map Field.name).Nodup :=
  keyed.names.nodup_iff.mp (Ascending.distinct keyed.sorted)

/-- A field of the variant has its entry. -/
theorem Keyed.entry (keyed : Keyed variant fields) {field : Field}
    (listed : field ∈ variant.fields) : ∃ inner, Assoc.find? fields field.name = some inner := by
  rw [← Option.isSome_iff_exists, Option.isSome_iff_ne_none, Ne, Assoc.find?_eq_none_iff, not_not]
  exact keyed.names.mem_iff.mpr (List.mem_map_of_mem listed)

/-- What has the same values for the fields of a variant is the same. -/
theorem Keyed.ext (first : Keyed variant fields) (second : Keyed variant held)
    (same : ∀ field ∈ variant.fields,
      Assoc.find? fields field.name = Assoc.find? held field.name) : fields = held := by
  refine Ascending.ext first.sorted second.sorted fun name => ?_
  by_cases listed : name ∈ variant.fields.map Field.name
  · obtain ⟨field, among, rfl⟩ := List.mem_map.mp listed
    exact same field among
  · rw [Assoc.find?_eq_none_iff.mpr fun there => listed (first.names.mem_iff.mp there),
      Assoc.find?_eq_none_iff.mpr fun there => listed (second.names.mem_iff.mp there)]

/-- The fields of a variant, gathered, are the entries that hold the same values. -/
theorem gathered_iff (keyed : Keyed variant held) {values : List Value}
    (count : values.length = variant.fields.length) :
    gathered [] (variant.fields.zip values) = held ↔
      ∀ (index : Nat) field value, variant.fields[index]? = some field →
        values[index]? = some value → Assoc.find? held field.name = some value := by
  have names : (variant.fields.zip values).map (·.1.name) = variant.fields.map Field.name := by
    have whole : (variant.fields.zip values).map Prod.fst = variant.fields :=
      List.map_fst_zip (by omega)
    have twice := congrArg (List.map Field.name) whole
    rwa [List.map_map] at twice
  have distinct : ((variant.fields.zip values).map (·.1.name)).Nodup := by
    rw [names]
    exact keyed.nodup
  constructor
  · rintro rfl index field value there also
    have listed : (field, value) ∈ variant.fields.zip values :=
      List.mem_of_getElem? (List.getElem?_zip_eq_some.mpr ⟨there, also⟩)
    exact find?_gathered distinct listed
  · intro each
    refine Ascending.ext (Ascending.gathered List.Pairwise.nil) keyed.sorted fun name => ?_
    by_cases listed : name ∈ variant.fields.map Field.name
    · rw [← names] at listed
      obtain ⟨pair, among, rfl⟩ := List.mem_map.mp listed
      obtain ⟨index, there⟩ := List.mem_iff_getElem?.mp among
      obtain ⟨one, two⟩ := List.getElem?_zip_eq_some.mp there
      exact (find?_gathered distinct among).trans (each index _ _ one two).symm
    · rw [find?_gathered_other (names ▸ listed),
        Assoc.find?_eq_none_iff.mpr fun there => listed (keyed.names.mem_iff.mp there)]
      rfl

/-! ## Words, texts and rows of words -/

theorem usize_of_toInt {size : Nat} (same : word.toInt = size) : usize word = some size := by
  have above : ¬ word < 0 := by
    rw [Int64.lt_iff_toInt_lt, same, Int64.toInt_zero]
    omega
  rw [usize, if_neg above, same, Int.toNat_natCast]

theorem usize_ofNat {size : Nat} (small : size < 2 ^ 63) :
    usize (Int64.ofNat size) = some size := usize_of_toInt (Host.toInt_ofNat64 small)

theorem load_of_read (reads : memory.read place = some word.toInt) :
    memory.load place = some word := by
  obtain ⟨found, loaded, same⟩ := Option.map_eq_some_iff.mp reads
  rw [loaded, Int64.toInt_inj.mp same]

theorem sizeAt_of_read {size : Nat} (reads : memory.read place = some (size : Int)) :
    sizeAt memory place = some size := by
  obtain ⟨found, loaded, same⟩ := Option.map_eq_some_iff.mp reads
  rw [sizeAt, loaded, Option.bind_some, usize_of_toInt same]

theorem decodeText_eq {text : String} (string : StringAt memory place text) :
    decodeText memory place = some text := by
  have bytes : bytesOf text = Rt.asBytes text.toList := by
    have same := Host.bytesOf_ofList text.toList
    rwa [String.ofList_toList] at same
  have sliced : memory.slice (place + 2 * Runtime.WORD) (bytesOf text).length = bytesOf text := by
    refine List.ext_getElem (by rw [Wasm.Memory.slice, List.length_map, List.length_range])
      fun position inside below => ?_
    simp only [Wasm.Memory.slice, List.getElem_map, List.getElem_range]
    exact string.bytes position below
  have room := string.room
  rw [decodeText, sizeAt_of_read string.characters]
  simp only [Option.bind_eq_bind, Option.bind_some]
  rw [show place + Runtime.WORD = place + 8 from rfl, sizeAt_of_read string.count,
    Option.bind_some, if_pos (show place + 2 * Runtime.WORD + _ ≤ _ from room), sliced, bytes,
    Rt.fromUtf8_asBytes, Option.bind_some, if_pos String.length_toList, String.ofList_toList]

section Rows

variable {decode : Ty → Int64 → Option Value → Option Value} {words : List Int64}
  {expected : List Value}

/-- The elements of a list are read one by one, each expected to be what is expected in its
place. -/
theorem decodeElements_iff {left : Nat}
    (loads : ∀ (index : Nat) word, words[index]? = some word →
      memory.load (place + Runtime.ELEMENTS + index * Runtime.WORD) = some word)
    (whole : index + left = words.length) {values : List Value} :
    decodeElements decode memory element place expected left index = some values ↔
      values.length = left ∧ ∀ (position : Nat) word value, words[index + position]? = some word →
        values[position]? = some value →
          decode element word expected[index + position]? = some value := by
  induction left generalizing index values with
  | zero =>
      rw [decodeElements, Option.some_inj]
      constructor
      · rintro rfl
        exact ⟨rfl, fun position word value _ none_ => (nomatch none_)⟩
      · exact fun same => (List.length_eq_zero_iff.mp same.1).symm
  | succ left ih =>
      obtain ⟨word, there⟩ : ∃ word, words[index]? = some word :=
        ⟨_, List.getElem?_eq_getElem (by omega)⟩
      rw [decodeElements, loads index word there]
      simp only [Option.bind_eq_bind, Option.bind_some, Option.bind_eq_some_iff, Option.some_inj]
      constructor
      · rintro ⟨value, here, rest, later, rfl⟩
        obtain ⟨count, each⟩ := (ih (by omega)).mp later
        refine ⟨congrArg Nat.succ count, fun position found value' there' is_ => ?_⟩
        cases position with
        | zero =>
            cases is_
            rw [Nat.add_zero, there] at there'
            cases there'
            exact here
        | succ position =>
            rw [← Nat.add_assoc, Nat.add_right_comm] at there' ⊢
            exact each position found value' there' is_
      · rintro ⟨count, each⟩
        cases values with
        | nil => cases count
        | cons value rest =>
            refine ⟨value, each 0 word value there rfl, rest, ?_, rfl⟩
            refine (ih (by omega)).mpr ⟨Nat.succ.inj count, fun position found value' there' is_ => ?_⟩
            have again := each (position + 1) found value'
            rw [← Nat.add_assoc, Nat.add_right_comm] at again
            exact again there' is_

/-- The fields of a variant are read one by one and gathered. -/
theorem decodeFields_iff {tagged : Bool} {given : Option Value}
    (loads : ∀ (index : Nat) word, words[index]? = some word →
      memory.load (place + ((if tagged then 1 else 0) + index) * Runtime.WORD) = some word)
    {rest : List Field} (whole : index + rest.length = words.length) {read : Fields} :
    decodeFields decode memory tagged place given rest index read = some held ↔
      ∃ values : List Value, values.length = rest.length ∧
        (∀ (position : Nat) field word value, rest[position]? = some field →
          words[index + position]? = some word → values[position]? = some value →
            decode field.ty word (given.bind (fieldOf · field.name)) = some value) ∧
        gathered read (rest.zip values) = held := by
  induction rest generalizing index read with
  | nil =>
      rw [decodeFields, Option.some_inj]
      constructor
      · rintro rfl
        exact ⟨[], rfl, fun position field word value none_ => (nomatch none_), rfl⟩
      · rintro ⟨values, -, -, same⟩
        exact same
  | cons field rest ih =>
      rw [List.length_cons] at whole
      obtain ⟨word, there⟩ : ∃ word, words[index]? = some word :=
        ⟨_, List.getElem?_eq_getElem (by omega)⟩
      rw [decodeFields, loads index word there]
      simp only [Option.bind_eq_bind, Option.bind_some, Option.bind_eq_some_iff]
      constructor
      · rintro ⟨value, here, later⟩
        obtain ⟨values, count, each, same⟩ := (ih (by omega)).mp later
        refine ⟨value :: values, congrArg Nat.succ count, ?_, same⟩
        intro position field' found value' is_ there' also
        cases position with
        | zero =>
            cases is_
            cases also
            rw [Nat.add_zero, there] at there'
            cases there'
            exact here
        | succ position =>
            rw [← Nat.add_assoc, Nat.add_right_comm] at there'
            exact each position field' found value' is_ there' also
      · rintro ⟨values, count, each, same⟩
        cases values with
        | nil => cases count
        | cons value values =>
            refine ⟨value, each 0 field word value rfl there rfl, ?_⟩
            refine (ih (by omega)).mpr ⟨values, Nat.succ.inj count, ?_, same⟩
            intro position field' found value' is_ there' also
            have again := each (position + 1) field' found value'
            rw [← Nat.add_assoc, Nat.add_right_comm] at again
            exact again is_ there' also

end Rows

/-! ## Values of a layout -/

theorem Made.name (made : Made declared id layout variant value) :
    variantName layout value = some variant.name := by
  cases made with
  | record _ _ only _ => rw [variantName, only, List.head?_cons, Option.map_some]
  | variant _ _ _ => rfl
  | result _ _ same =>
      rw [same]
      rfl

/-- The variants of a layout are known by their names. -/
theorem Named.unique {position' : Nat} {variant' : Variant} (first : Named layout index variant)
    (second : Named layout position' variant') (same : variant.name = variant'.name) :
    variant = variant' := by
  have one := first.first
  rw [same, second.first] at one
  cases one
  exact Option.some.inj (first.found.symm.trans second.found)

theorem readable_made (found : program.layouts[id]? = some layout)
    (named : Named layout index variant) (made : Made declared id layout variant value) :
    Readable program (depth + 1) (.aggregate id) value ↔
      (namesResult layout = true → ∃ ok inner, value = .result ok inner) ∧
        ∀ field ∈ variant.fields, ∀ inner, fieldOf value field.name = some inner →
          Readable program depth field.ty inner := by
  rw [Readable]
  constructor
  · intro each
    obtain ⟨plain, inside⟩ := each layout found
    exact ⟨plain, inside variant.name index variant made.name named.first named.found⟩
  · rintro ⟨plain, inside⟩ layout' found'
    cases Option.some.inj (found.symm.trans found')
    refine ⟨plain, fun name index' variant' is_ first there => ?_⟩
    cases Option.some.inj (made.name.symm.trans is_)
    cases Option.some.inj (named.first.symm.trans first)
    cases Option.some.inj (named.found.symm.trans there)
    exact inside

section Aggregates

variable {decode : Ty → Int64 → Option Value → Option Value} {words : List Int64}

/-- The fields that stand for entries are read as the expected ones where each is. -/
theorem fields_iff {tagged : Bool}
    (loads : ∀ (index : Nat) word, words[index]? = some word →
      memory.load (place + ((if tagged then 1 else 0) + index) * Runtime.WORD) = some word)
    (count : words.length = variant.fields.length) (keyed : Keyed variant fields)
    (keyed' : Keyed variant held) (expects : ∀ name, fieldOf value name = Assoc.find? held name)
    (each : ∀ (index : Nat) field word inner inner', variant.fields[index]? = some field →
      words[index]? = some word → Assoc.find? fields field.name = some inner →
      Assoc.find? held field.name = some inner' →
      (decode field.ty word (some inner') = some inner' ↔
        inner = inner' ∧ Readable program depth field.ty inner')) :
    decodeFields decode memory tagged place (some value) variant.fields 0 [] = some held ↔
      fields = held ∧ ∀ field ∈ variant.fields, ∀ inner, fieldOf value field.name = some inner →
        Readable program depth field.ty inner := by
  rw [decodeFields_iff loads (by omega)]
  constructor
  · rintro ⟨values, count', decoded, same⟩
    have found := (gathered_iff keyed' count').mp same
    have step : ∀ field ∈ variant.fields, ∃ inner, Assoc.find? fields field.name = some inner ∧
        Assoc.find? held field.name = some inner ∧ Readable program depth field.ty inner := by
      intro field listed
      obtain ⟨index, there⟩ := List.mem_iff_getElem?.mp listed
      have below := (List.getElem?_eq_some_iff.mp there).1
      obtain ⟨word, is_⟩ : ∃ word, words[index]? = some word :=
        ⟨_, List.getElem?_eq_getElem (by omega)⟩
      obtain ⟨inner', also⟩ : ∃ inner', values[index]? = some inner' :=
        ⟨_, List.getElem?_eq_getElem (by omega)⟩
      obtain ⟨inner, entry⟩ := keyed.entry listed
      have expected := found index field inner' there also
      have read := decoded index field word inner' there (by rwa [Nat.zero_add]) also
      rw [Option.bind_some, expects, expected] at read
      obtain ⟨rfl, readable⟩ := (each index field word inner inner' there is_ entry expected).mp read
      exact ⟨inner, entry, expected, readable⟩
    constructor
    · refine keyed.ext keyed' fun field listed => ?_
      obtain ⟨inner, one, two, -⟩ := step field listed
      exact one.trans two.symm
    · intro field listed inner is_
      obtain ⟨inner', -, two, readable⟩ := step field listed
      rw [expects, two] at is_
      cases is_
      exact readable
  · rintro ⟨rfl, readable⟩
    have entries : ∀ (index : Nat) field inner, variant.fields[index]? = some field →
        (variant.fields.map fun field => (Assoc.find? fields field.name).getD .unit)[index]? =
          some inner → Assoc.find? fields field.name = some inner := by
      intro index field inner there also
      obtain ⟨inner', entry⟩ := keyed.entry (List.mem_of_getElem? there)
      rw [List.getElem?_map, there, Option.map_some, entry, Option.getD_some] at also
      cases also
      exact entry
    refine ⟨variant.fields.map fun field => (Assoc.find? fields field.name).getD .unit,
      List.length_map .., fun index field word inner there is_ also => ?_,
      (gathered_iff keyed (List.length_map ..)).mpr entries⟩
    have entry := entries index field inner there also
    have expected : fieldOf value field.name = some inner := (expects field.name).trans entry
    rw [Option.bind_some, expected]
    rw [Nat.zero_add] at is_
    exact (each index field word inner inner there is_ entry entry).mpr
      ⟨rfl, readable field (List.mem_of_getElem? there) inner expected⟩

theorem assembled_record {name : String} {given : Option Value} (record : layout.choice = false) :
    assembled layout name given fields = some (.record held) ↔
      namesResult layout = false ∧ fields = held := by
  rw [assembled]
  cases namesResult layout with
  | true =>
      rw [if_pos rfl]
      cases Assoc.find? fields "value" with
      | none => simp
      | some payload =>
          simp only [Option.bind_eq_bind, Option.bind_some, Value.ok, Value.err]
          split_ifs <;> simp
  | false => simp [record]

theorem assembled_variant {name origin called : String} (choice : layout.choice = true) :
    assembled layout name (some (.variant origin called held)) fields =
        some (.variant origin called held) ↔
      namesResult layout = false ∧ name = called ∧ fields = held := by
  rw [assembled]
  cases namesResult layout with
  | true =>
      rw [if_pos rfl]
      cases Assoc.find? fields "value" with
      | none => simp
      | some payload =>
          simp only [Option.bind_eq_bind, Option.bind_some, Value.ok, Value.err]
          split_ifs <;> simp
  | false => simp [choice, originOf]

theorem assembled_result {given : Option Value} {ok ok' : Bool} {inner : Value}
    (result : namesResult layout = true) :
    assembled layout (if ok then "ok" else "err") given fields = some (.result ok' inner) ↔
      ok = ok' ∧ Assoc.find? fields "value" = some inner := by
  rw [assembled, if_pos result]
  cases Assoc.find? fields "value" with
  | none => simp
  | some payload => cases ok <;> cases ok' <;> simp [Value.ok, Value.err]

theorem decodeAggregate_eq (found : program.layouts[id]? = some layout)
    (named : Named layout index variant)
    (at_ : AggregateAt memory layout.isTagged place index words) (given : Option Value) :
    decodeAggregate decode memory program id place given =
      (decodeFields decode memory layout.isTagged place given variant.fields 0 []).bind
        (assembled layout variant.name given) := by
  rw [decodeAggregate, found]
  simp only [Option.bind_eq_bind, Option.bind_some]
  by_cases tagged : layout.isTagged = true
  · rw [if_pos tagged, sizeAt_of_read (at_.tag tagged), Option.bind_some, named.found,
      Option.bind_some]
  · have below := (List.getElem?_eq_some_iff.mp named.found).1
    have few : ¬ 1 < layout.variants.length := fun many => tagged (decide_eq_true many)
    have first : index = 0 := by omega
    rw [if_neg tagged, ← first, named.found, Option.bind_some]

/-- An aggregate that stands in memory is read as the expected one where it is that one, and
each of its fields is read as the expected one. -/
theorem decodeAggregate_iff {index' : Nat} {variant' : Variant}
    (found : program.layouts[id]? = some layout) (named : Named layout index variant)
    (made : Made declared id layout variant other)
    (at_ : AggregateAt memory layout.isTagged place index words)
    (count : words.length = variant.fields.length) (named' : Named layout index' variant')
    (made' : Made declared id layout variant' value)
    (each : variant = variant' → ∀ (index : Nat) field word inner inner',
      variant.fields[index]? = some field → words[index]? = some word →
      fieldOf other field.name = some inner → fieldOf value field.name = some inner' →
      (decode field.ty word (some inner') = some inner' ↔
        inner = inner' ∧ Readable program depth field.ty inner')) :
    decodeAggregate decode memory program id place (some value) = some value ↔
      other = value ∧ Readable program (depth + 1) (.aggregate id) value := by
  have loads : ∀ (index : Nat) word, words[index]? = some word →
      memory.load (place + ((if layout.isTagged then 1 else 0) + index) * Runtime.WORD) =
        some word := fun index word there => load_of_read (at_.fields index word there)
  rw [decodeAggregate_eq found named at_, readable_made found named' made', Option.bind_eq_some_iff]
  cases made with
  | @record origin fields home plain only keyed =>
      cases made' with
      | @record origin' held home' plain' only' keyed' =>
          cases (List.cons.inj (only.symm.trans only')).1
          simp only [assembled_record plain, Value.record.injEq, reduceCtorEq, exists_false,
            imp_false, Bool.not_eq_true]
          have inside := fields_iff loads count keyed keyed'
            (fun name => (rfl : fieldOf (.record held) name = _)) (each rfl)
          rw [← and_assoc, and_comm (a := _ = _) (b := _ = false), and_assoc, ← inside]
          constructor
          · rintro ⟨fields, read, unnamed, rfl⟩
            exact ⟨unnamed, read⟩
          · rintro ⟨unnamed, read⟩
            exact ⟨_, read, unnamed, rfl⟩
      | variant home' choice => exact absurd (plain.symm.trans choice) Bool.false_ne_true
      | result none_ => exact absurd (home.symm.trans none_) (Option.some_ne_none _)
  | @variant origin fields home choice keyed =>
      cases made' with
      | record home' plain' => exact absurd (plain'.symm.trans choice) Bool.false_ne_true
      | @variant origin' held home' choice' keyed' =>
          cases Option.some.inj (home.symm.trans home')
          simp only [assembled_variant choice, Value.variant.injEq, reduceCtorEq, exists_false,
            imp_false, Bool.not_eq_true, true_and]
          by_cases called : variant.name = variant'.name
          · cases named.unique named' called
            have inside := fields_iff loads count keyed keyed'
              (fun name => (rfl : fieldOf (.variant origin variant.name held) name = _))
              (each rfl)
            constructor
            · rintro ⟨fields, read, unnamed, -, rfl⟩
              obtain ⟨same, readable⟩ := inside.mp read
              exact ⟨⟨rfl, same⟩, unnamed, readable⟩
            · rintro ⟨⟨-, same⟩, unnamed, readable⟩
              exact ⟨_, inside.mpr ⟨same, readable⟩, unnamed, rfl, rfl⟩
          · constructor
            · rintro ⟨fields, read, unnamed, same, -⟩
              exact absurd same called
            · rintro ⟨⟨same, -⟩, -⟩
              exact absurd same called
      | result none_ => exact absurd (home.symm.trans none_) (Option.some_ne_none _)
  | @result ok inner ty none_ result same =>
      cases made' with
      | record home' => exact absurd (home'.symm.trans none_) (Option.some_ne_none _)
      | variant home' => exact absurd (home'.symm.trans none_) (Option.some_ne_none _)
      | @result ok' inner' ty' none_' result' same' =>
          subst same
          obtain ⟨word, rfl⟩ : ∃ word, words = [word] := List.length_eq_one_iff.mp count
          have read : decodeFields decode memory layout.isTagged place
              (some (.result ok' inner')) [⟨"value", ty⟩] 0 [] =
              (decode ty word (some inner')).bind fun inner => some [("value", inner)] := by
            rw [decodeFields, loads 0 word rfl]
            rfl
          simp only [assembled_result result, read, Option.bind_eq_some_iff, Option.some_inj,
            Value.result.injEq]
          by_cases equal : ok = ok'
          · subst equal
            cases named.unique named' (by rw [same'])
            have inside := each rfl 0 ⟨"value", ty⟩ word inner inner' rfl rfl rfl rfl
            simp only at inside
            constructor
            · rintro ⟨fields, ⟨payload, decoded, rfl⟩, -, found⟩
              cases found
              obtain ⟨rfl, readable⟩ := inside.mp decoded
              refine ⟨⟨rfl, rfl⟩, fun _ => ⟨ok, inner, rfl, rfl⟩, fun field listed held is_ => ?_⟩
              cases List.mem_singleton.mp listed
              cases is_
              exact readable
            · rintro ⟨⟨-, rfl⟩, -, readable⟩
              refine ⟨_, ⟨inner, inside.mpr ⟨rfl, ?_⟩, rfl⟩, rfl, rfl⟩
              exact readable _ List.mem_cons_self inner rfl
          · constructor
            · rintro ⟨fields, -, same, -⟩
              exact absurd same equal
            · rintro ⟨⟨same, -⟩, -⟩
              exact absurd same equal

end Aggregates

/-! ## Reading a value -/

/-- A list that stands in memory is read as the expected one where it is that one and its
elements are read as the expected ones. -/
theorem decodeList_iff {words : List Int64} {values others : List Value}
    {decode : Ty → Int64 → Option Value → Option Value}
    (list : ListAt memory place (words.map Int64.toInt)) (count : words.length = others.length)
    (each : ∀ (index : Nat) word inner inner', words[index]? = some word →
      others[index]? = some inner → values[index]? = some inner' →
      (decode element word (some inner') = some inner' ↔
        inner = inner' ∧ Readable program depth element inner')) :
    decodeElements decode memory element place values words.length 0 = some values ↔
      others = values ∧ ∀ value ∈ values, Readable program depth element value := by
  have loads : ∀ (index : Nat) word, words[index]? = some word →
      memory.load (place + Runtime.ELEMENTS + index * Runtime.WORD) = some word := by
    intro index word there
    obtain ⟨below, is_⟩ := List.getElem?_eq_some_iff.mp there
    have reads := list.elements index (by rwa [List.length_map])
    rw [List.getElem_map, is_] at reads
    exact load_of_read reads
  rw [decodeElements_iff loads (Nat.zero_add _)]
  simp only [Nat.zero_add]
  constructor
  · rintro ⟨same, decoded⟩
    have step : ∀ (index : Nat) inner', values[index]? = some inner' →
        others[index]? = some inner' ∧ Readable program depth element inner' := by
      intro index inner' is_
      have below := (List.getElem?_eq_some_iff.mp is_).1
      obtain ⟨word, there⟩ : ∃ word, words[index]? = some word :=
        ⟨_, List.getElem?_eq_getElem (by omega)⟩
      obtain ⟨inner, also⟩ : ∃ inner, others[index]? = some inner :=
        ⟨_, List.getElem?_eq_getElem (by omega)⟩
      have read := decoded index word inner' there is_
      rw [is_] at read
      obtain ⟨rfl, readable⟩ := (each index word inner inner' there also is_).mp read
      exact ⟨also, readable⟩
    constructor
    · refine List.ext_getElem? fun index => ?_
      cases is_ : values[index]? with
      | some inner' => exact (step index inner' is_).1
      | none =>
          rw [List.getElem?_eq_none_iff] at is_ ⊢
          omega
    · intro inner' listed
      obtain ⟨index, is_⟩ := List.mem_iff_getElem?.mp listed
      exact (step index inner' is_).2
  · rintro ⟨rfl, readable⟩
    refine ⟨count.symm, fun index word inner there is_ => ?_⟩
    rw [is_]
    exact (each index word inner inner there is_ is_).mpr
      ⟨rfl, readable inner (List.mem_of_getElem? is_)⟩

/-- What stands in memory is read as the expected value exactly where it is that value, and one
that can be read. -/
theorem decodeWord_iff (small : memory.size ≤ 2 ^ 32)
    (stands : Stands program declared memory memory.size ty other word)
    (typed : HasType program declared ty value) :
    decodeWord program memory depth ty word (some value) = some value ↔
      other = value ∧ Readable program depth ty value := by
  induction depth generalizing ty other word value with
  | zero => exact ⟨fun never => (nomatch never), fun both => both.2.elim⟩
  | succ depth ih =>
      cases stands with
      | unit =>
          cases typed
          exact ⟨fun _ => ⟨rfl, trivial⟩, fun _ => rfl⟩
      | bool yes =>
          cases typed with
          | bool yes' => cases yes <;> cases yes' <;> simp [decodeWord, Readable]
      | int =>
          cases typed
          simp [decodeWord, Readable]
      | @str place text string below =>
          have inside := string.inside
          have near : place < 2 ^ 63 := by omega
          cases typed
          simp [decodeWord, usize_ofNat near, decodeText_eq string, Readable]
      | @list element place words others list below count each =>
          have inside := list.inside
          have length := list.count
          rw [List.length_map] at inside length
          have whole : place + Runtime.ELEMENTS + words.length * Runtime.WORD ≤ memory.size := by
            rw [Nat.add_assoc]
            exact inside
          have near : place < 2 ^ 63 := by omega
          cases typed with
          | @list _ values typed =>
              rw [decodeWord, usize_ofNat near]
              simp only [Option.bind_eq_bind, Option.bind_some, sizeAt_of_read length,
                if_pos whole, Option.bind_eq_some_iff, Option.some_inj, Value.list.injEq,
                exists_eq_right, elementsOf, Readable]
              exact decodeList_iff list count fun index word inner inner' there also is_ =>
                ih (each index word inner there also) (typed inner' (List.mem_of_getElem? is_))
      | @made id layout index variant _ place words found named made at_ below count each =>
          have near : place < 2 ^ 63 := by omega
          cases typed with
          | made found' named' made' typed =>
              cases Option.some.inj (found.symm.trans found')
              rw [decodeWord, usize_ofNat near]
              simp only [Option.bind_eq_bind, Option.bind_some]
              refine decodeAggregate_iff found named made at_ count named' made' ?_
              rintro rfl index field word inner inner' there is_ one two
              exact ih (each index field word inner there is_ one)
                (typed field (List.mem_of_getElem? there) inner' two)

/-! ## Writing a value -/

/-- The variant of a layout that a value says it is. -/
def variantOf (layout : Layout) (value : Value) : Option Variant := do
  let name ← variantName layout value
  let index ← position layout name
  layout.variants[index]?

/-- How many bytes of the memory a value of a type takes. -/
def roomOf (program : Program) (ty : Ty) (value : Value) : Nat :=
  match ty, value with
  | .str, .str text => stringSize (bytesOf text).length
  | .list element, .list values =>
      (values.map fun value => roomOf program element value).sum + listSize values.length
  | .aggregate id, value =>
      match program.layouts[id]? with
      | none => 0
      | some layout =>
          match variantOf layout value with
          | none => 0
          | some variant =>
              (variant.fields.map fun field =>
                match _found : fieldOf value field.name with
                | some inner => roomOf program field.ty inner
                | none => 0).sum + aggregateSize layout.isTagged variant.fields.length
  | _, _ => 0
termination_by sizeOf value
decreasing_by
  · have smaller := List.sizeOf_lt_of_mem ‹_ ∈ _›
    rw [Value.list.sizeOf_spec]
    omega
  · exact sizeOf_fieldOf _found

theorem AggregateAt.kept {tagged : Bool} {words : List Int64}
    (at_ : AggregateAt memory tagged place index words) (kept : Kept memory after top)
    (below : place + aggregateSize tagged words.length ≤ top) :
    AggregateAt after tagged place index words := by
  have reserved := at_.reserved
  rw [aggregateSize, Runtime.WORD_eq] at below
  refine ⟨fun is_ => ?_, fun field word there => ?_, reserved⟩
  · rw [if_pos is_] at below
    exact kept.read reserved (by omega) (at_.tag is_)
  · have listed := (List.getElem?_eq_some_iff.mp there).1
    refine kept.read ?_ ?_ (at_.fields field word there)
    · omega
    · rw [Runtime.WORD_eq]
      omega

/-- What stands in memory goes on standing there: nothing below the bump pointer moves. -/
theorem Stands.kept {higher : Nat} (stands : Stands program declared memory top ty value word)
    (kept : Kept memory after top) (above : top ≤ higher) :
    Stands program declared after higher ty value word := by
  induction stands with
  | unit word => exact .unit word
  | bool yes => exact .bool yes
  | int number => exact .int number
  | str string below => exact .str (string.kept kept below) (below.trans above)
  | list list below count _ ih =>
      exact .list (list.kept kept (by rwa [List.length_map])) (below.trans above) count ih
  | made found named made at_ below count _ ih =>
      exact .made found named made (at_.kept kept below) (below.trans above) count ih

section Writes

variable {α β : Type}

theorem ran_bind {first : Writing α} {next : α → Writing β} {a : α}
    (ran : first memory = .ok (some (a, after))) : (first >>= next) memory = next a after := by
  show OptionT.bind (first memory) (fun ended => next ended.1 ended.2) = _
  rw [ran]
  rfl

/-- What writes a value: it takes room above the bump pointer, and answers a word that stands
for the value. -/
def Puts (program : Program) (declared : LayoutId → Option String) (ty : Ty) (value : Value)
    (need : Nat) (action : Writing Word) : Prop :=
  ∀ memory top, Host.Bumped memory top → top + need ≤ memory.size →
    ∃ word after, action memory = .ok (some (word, after)) ∧ Host.Grown memory after top need ∧
      Stands program declared after (top + need) ty value (asI64 word)

/-- What writes values one after the other. -/
def PutsAll (program : Program) (declared : LayoutId → Option String) (tys : α → Ty)
    (values : α → Value) (items : List α) (need : Nat) (action : Writing (List Word)) : Prop :=
  ∀ memory top, Host.Bumped memory top → top + need ≤ memory.size →
    ∃ words after, action memory = .ok (some (words, after)) ∧
      Host.Grown memory after top need ∧ words.length = items.length ∧
      ∀ (index : Nat) item word, items[index]? = some item → words[index]? = some word →
        Stands program declared after (top + need) (tys item) (values item) (asI64 word)

theorem puts_now {word : Word} (stands : ∀ memory top,
    Stands program declared memory top ty value (asI64 word)) :
    Puts program declared ty value 0 (pure word) :=
  fun memory _ bumped _ => ⟨word, memory, rfl, Host.Grown.refl bumped, stands memory _⟩

theorem putsAll_mapM {tys : α → Ty} {values : α → Value} {needs : α → Nat}
    {action : α → Writing Word} {items : List α} (each : ∀ item ∈ items,
      Puts program declared (tys item) (values item) (needs item) (action item)) :
    PutsAll program declared tys values items (items.map needs).sum (items.mapM action) := by
  induction items with
  | nil =>
      refine fun memory top bumped _ => ⟨[], memory, rfl, Host.Grown.refl bumped, rfl, ?_⟩
      exact fun index item word none_ => (nomatch none_)
  | cons item items ih =>
      have put := each item List.mem_cons_self
      have putAll := ih fun item listed => each item (List.mem_cons_of_mem _ listed)
      rw [List.map_cons, List.sum_cons]
      intro memory top bumped fits
      obtain ⟨word, between, ran, grown, stands⟩ := put memory top bumped (by omega)
      have size := grown.size
      obtain ⟨words, after, later, again, count, rest⟩ :=
        putAll between (top + needs item) grown.bumped (by omega)
      refine ⟨word :: words, after, ?_, grown.trans again, congrArg Nat.succ count, ?_⟩
      · rw [List.mapM_cons, ran_bind ran, ran_bind later]
        rfl
      · rw [← Nat.add_assoc]
        intro index item' word' there is_
        cases index with
        | zero =>
            cases there
            cases is_
            exact stands.kept again.kept (Nat.le_add_right _ _)
        | succ index => exact rest index item' word' there is_

end Writes

/-- A text that finds room is written at the bump pointer. -/
theorem puts_text (text : String) :
    Puts program declared .str (.str text) (stringSize (bytesOf text).length)
      (writeText text) := by
  have bytes : bytesOf text = Rt.asBytes text.toList := by
    have same := Host.bytesOf_ofList text.toList
    rwa [String.ofList_toList] at same
  rw [bytes]
  intro memory top bumped fits
  have size := Runtime.length_le_stringSize (Rt.asBytes text.toList).length
  have start : 8232 ≤ top := bumped.start
  have small := bumped.small
  obtain ⟨allocated, grown⟩ := bumped.allocate fits
  have wrote := Host.writeText_eq (by omega) (by rw [Memory.size_put]; exact fits) allocated
  have there := @Host.textAt_textPut (memory.put 0 (top + stringSize (Rt.asBytes text.toList).length : Nat))
    top text.toList (by omega) (by rwa [Memory.size_put]) (by rwa [Memory.size_put])
  refine ⟨_, _, wrote, Host.grown_textPut grown (by omega), ?_⟩
  have string := there.string
  rw [String.ofList_toList] at string
  exact .str string (by rw [bytes])

/-- A list of words that finds room is written at the bump pointer. -/
theorem listAt_listPut {items : List Word} (start : 8 ≤ top) (small : memory.size ≤ 2 ^ 32)
    (inside : top + listSize items.length ≤ memory.size) :
    ListAt (Host.listPut memory top items) top ((items.map asI64).map Int64.toInt) := by
  have size : listSize items.length = 8 + items.length * 8 := rfl
  have room : top + 8 * (Int64.ofNat items.length :: items.map asI64).length ≤ memory.size := by
    rw [List.length_cons, List.length_map]
    omega
  constructor
  · have first := Host.read_putAll room (Nat.succ_pos _)
    rw [List.getElem_cons_zero, Host.toInt_ofNat64 (by omega), Nat.zero_mul, Nat.add_zero] at first
    rw [List.length_map, List.length_map]
    exact first
  · rw [Host.listPut, Host.size_putAll, List.length_map, List.length_map]
    exact inside
  · intro index within
    have within_ : index < items.length := by rwa [List.length_map, List.length_map] at within
    have read := @Host.read_putAll memory top _ (index + 1) room (by simpa using within_)
    rw [List.getElem_cons_succ] at read
    rw [List.getElem_map, show top + 8 + index * 8 = top + (index + 1) * 8 by omega]
    exact read
  · exact start

theorem puts_list {values : List Value} {need : Nat} {action : Writing (List Word)}
    (put : PutsAll program declared (fun _ => element) (fun value => value) values need action) :
    Puts program declared (.list element) (.list values) (need + listSize values.length)
      (action >>= fun words => writeList words) := by
  intro memory top bumped fits
  have size : listSize values.length = 8 + values.length * 8 := rfl
  obtain ⟨words, between, ran, grown, count, each⟩ := put memory top bumped (by omega)
  have same := grown.size
  have small := grown.bumped.small
  have start : 8232 ≤ top + need := grown.bumped.start
  rw [← count] at size fits ⊢
  obtain ⟨allocated, again⟩ :=
    @Host.Bumped.allocate between _ (listSize words.length) grown.bumped (by omega)
  have wrote := Host.writeList_eq (by omega) (by rw [Memory.size_put]; omega) allocated
  have there := @listAt_listPut (between.put 0 (top + need + listSize words.length : Nat))
    (top + need) words (by omega) (by rwa [Memory.size_put]) (by rw [Memory.size_put]; omega)
  have put_ := @Host.grown_listPut between _ (top + need) (listSize words.length) words again
    (by omega)
  refine ⟨_, _, (ran_bind ran).trans wrote, grown.trans put_, ?_⟩
  rw [← Nat.add_assoc]
  refine .list there (by rw [List.length_map]) (by rw [List.length_map, count]) ?_
  intro index word value is_ also
  rw [List.getElem?_map, Option.map_eq_some_iff] at is_
  obtain ⟨item, is_, rfl⟩ := is_
  exact (each index value item also is_).kept put_.kept (Nat.le_add_right _ _)

/-- An aggregate that finds room is written at the bump pointer. -/
theorem writeAggregate_put {tag : Option Int64} {items : List Word}
    (small : aggregateSize tag.isSome items.length < 2 ^ 32)
    (inside : place + aggregateSize tag.isSome items.length ≤ after.size)
    (allocated : Host.allocate memory (aggregateSize tag.isSome items.length) =
      some (place, after)) :
    Host.writeAggregate memory tag items =
      .ok (some (Host.address place, Host.putAll after place (tag.toList ++ items.map asI64))) := by
  have few : items.length < 2 ^ 32 := by
    rw [aggregateSize, Runtime.WORD_eq] at small
    omega
  have size : Host.aggregateSize tag.isSome items.length =
      .ok (aggregateSize tag.isSome items.length) := by
    rw [Host.aggregateSize, Nat.mod_eq_of_lt few, Host.size32, if_pos small]
  have count : 8 * (tag.toList ++ items.map asI64).length =
      aggregateSize tag.isSome items.length := by
    rw [aggregateSize, Runtime.WORD_eq]
    cases tag <;> simp <;> omega
  rw [Host.writeAggregate, size, Host.ok_bind, allocated]
  dsimp only
  rw [Host.storeAll_eq (by omega)]
  rfl

theorem aggregateAt_put {tagged : Bool} {items : List Word} (start : 8 ≤ top)
    (small : index < 2 ^ 63)
    (inside : top + aggregateSize tagged items.length ≤ memory.size) :
    AggregateAt (Host.putAll memory top
      ((if tagged then some (Int64.ofNat index) else none).toList ++ items.map asI64))
      tagged top index (items.map asI64) := by
  rw [aggregateSize, Runtime.WORD_eq] at inside
  have room : top + 8 * ((if tagged then some (Int64.ofNat index) else none).toList ++
      items.map asI64).length ≤ memory.size := by
    cases tagged <;> simp at inside ⊢ <;> omega
  refine ⟨fun is_ => ?_, fun field word there => ?_, start⟩
  · subst is_
    have first := @Host.read_putAll memory top _ 0 room (by simp)
    rw [Nat.zero_mul, Nat.add_zero] at first
    refine first.trans ?_
    simp [Host.toInt_ofNat64 small]
  · obtain ⟨below, rfl⟩ := List.getElem?_eq_some_iff.mp there
    cases tagged with
    | true =>
        have read := @Host.read_putAll memory top _ (1 + field) room (by simp at below ⊢; omega)
        rw [Runtime.WORD_eq, if_pos rfl]
        refine read.trans ?_
        simp [Nat.add_comm 1 field]
    | false =>
        have read := @Host.read_putAll memory top _ field room (by simpa using below)
        simp only [Runtime.WORD_eq, Bool.false_eq_true, if_false, Nat.zero_add]
        exact read.trans (by simp)

/-- Each field of the variant that a value is made as has a value. -/
theorem Made.entry (made : Made declared id layout variant value) {field : Field}
    (listed : field ∈ variant.fields) : ∃ inner, fieldOf value field.name = some inner := by
  cases made with
  | record _ _ _ keyed => exact keyed.entry listed
  | variant _ _ keyed => exact keyed.entry listed
  | result _ _ _ => exact ⟨_, rfl⟩

theorem puts_made (found : program.layouts[id]? = some layout)
    (named : Named layout index variant) (made : Made declared id layout variant value)
    {need : Nat} {action : Writing (List Word)}
    (put : PutsAll program declared Field.ty
      (fun field => (fieldOf value field.name).getD .unit) variant.fields need action) :
    Puts program declared (.aggregate id) value
      (need + aggregateSize layout.isTagged variant.fields.length) (action >>= fun fields =>
        writeAggregate (if layout.isTagged then some (Int64.ofNat index) else none) fields) := by
  intro memory top bumped fits
  obtain ⟨words, between, ran, grown, count, each⟩ := put memory top bumped (by omega)
  have same := grown.size
  have small := grown.bumped.small
  have start : 8232 ≤ top + need := grown.bumped.start
  have tag : (if layout.isTagged then some (Int64.ofNat index) else none).isSome =
      layout.isTagged := by cases layout.isTagged <;> rfl
  have below : index < 2 ^ 63 := by
    have listed := program.counted layout (List.mem_of_getElem? found)
    have inside := (List.getElem?_eq_some_iff.mp named.found).1
    omega
  rw [← count] at fits ⊢
  obtain ⟨allocated, again⟩ := @Host.Bumped.allocate between _
    (aggregateSize layout.isTagged words.length) grown.bumped (by omega)
  have size : (between.put 0 (top + need + aggregateSize layout.isTagged words.length : Nat)).size =
      memory.size := Memory.size_put.trans same
  generalize between.put 0 (top + need + aggregateSize layout.isTagged words.length : Nat) =
    taken at allocated again size
  have wrote := @writeAggregate_put between taken (top + need)
    (if layout.isTagged then some (Int64.ofNat index) else none) words (by rw [tag]; omega)
    (by rw [tag]; omega) (by rw [tag]; exact allocated)
  have there := @aggregateAt_put taken (top + need) index layout.isTagged words (by omega) below
    (by omega)
  have put_ : Host.Grown between (Host.putAll taken (top + need)
      ((if layout.isTagged then some (Int64.ofNat index) else none).toList ++ words.map asI64))
      (top + need) (aggregateSize layout.isTagged words.length) :=
    again.above (by omega) Host.size_putAll fun address under =>
      Host.bytes_putAll_other (.inl under)
  refine ⟨_, _, (ran_bind ran).trans wrote, grown.trans put_, ?_⟩
  rw [← Nat.add_assoc]
  refine .made found named made there (by rw [List.length_map]) (by rw [List.length_map, count]) ?_
  intro position field word inner is_ also entry
  rw [List.getElem?_map, Option.map_eq_some_iff] at also
  obtain ⟨item, also, rfl⟩ := also
  have stands := each position field item is_ also
  simp only [entry, Option.getD_some] at stands
  exact stands.kept put_.kept (Nat.le_add_right _ _)

/-- A value of a type that finds room is written, and stands where it was written. -/
theorem encode_puts (typed : HasType program declared ty value) :
    Puts program declared ty value (roomOf program ty value) (encodeValue program ty value) := by
  induction typed with
  | unit =>
      rw [encodeValue, show roomOf program .unit .unit = 0 by simp [roomOf]]
      exact puts_now fun memory top => .unit _
  | bool yes =>
      rw [encodeValue, show roomOf program .bool (.bool yes) = 0 by simp [roomOf]]
      refine puts_now fun memory top => ?_
      have same : asI64 (.i32 (if yes then 1 else 0)) = if yes then 1 else 0 := by
        cases yes <;> rfl
      rw [same]
      exact .bool yes
  | int number =>
      rw [encodeValue, show roomOf program .int (.int number) = 0 by simp [roomOf]]
      exact puts_now fun memory top => .int number
  | str text =>
      rw [encodeValue, roomOf]
      exact puts_text text
  | list _ ih =>
      rw [encodeValue, roomOf]
      exact puts_list (putsAll_mapM ih)
  | @made id layout index variant value found named made _ ih =>
      have is_ : variantOf layout value = some variant := by
        rw [variantOf, made.name, Option.bind_eq_bind, Option.bind_some, named.first,
          Option.bind_eq_bind, Option.bind_some, named.found]
      have each : ∀ field ∈ variant.fields, Puts program declared field.ty
          ((fieldOf value field.name).getD .unit)
          (match _found : fieldOf value field.name with
            | some inner => roomOf program field.ty inner
            | none => 0)
          (match _found : fieldOf value field.name with
            | some inner => encodeValue program field.ty inner
            | none => given none) := by
        intro field listed
        obtain ⟨inner, entry⟩ := made.entry listed
        simp only [entry, Option.getD_some]
        split
        · rename_i inner' is_
          cases entry.symm.trans is_
          exact ih field listed inner entry
        · rename_i none_
          exact absurd (entry.symm.trans none_) (Option.some_ne_none _)
      have put := puts_made found named made (putsAll_mapM each)
      have room : roomOf program (.aggregate id) value =
          (variant.fields.map fun field =>
            match _found : fieldOf value field.name with
            | some inner => roomOf program field.ty inner
            | none => 0).sum + aggregateSize layout.isTagged variant.fields.length := by
        rw [roomOf, found]
        simp only [is_]
      intro memory top bumped fits
      rw [room] at fits ⊢
      obtain ⟨word, after, ran, rest⟩ := put memory top bumped fits
      refine ⟨word, after, ?_, rest⟩
      rw [encodeValue, found]
      refine Eq.trans ?_ ran
      rw [ran_bind (show given (some layout) memory = .ok (some (layout, memory)) from rfl)]
      rw [made.name, ran_bind (show given (some variant.name) memory =
        .ok (some (variant.name, memory)) from rfl), named.first,
        ran_bind (show given (some index) memory = .ok (some (index, memory)) from rfl),
        named.found]
      exact (ran_bind
        (show given (some variant) memory = .ok (some (variant, memory)) from rfl)).trans rfl

/-! ## Values that are equal -/

theorem sameElements_iff {values others : List Value}
    (each : ∀ value ∈ values, ∀ other : Value, other.same value = true ↔ other = value) :
    Value.sameElements others values = true ↔ others = values := by
  induction values generalizing others with
  | nil => cases others <;> simp [Value.sameElements]
  | cons value values ih =>
      cases others with
      | nil => simp [Value.sameElements]
      | cons other others =>
          rw [Value.sameElements, Bool.and_eq_true, each value List.mem_cons_self other,
            ih fun inner listed => each inner (List.mem_cons_of_mem _ listed), List.cons.injEq]

theorem sameFields_iff
    (each : ∀ entry ∈ held, ∀ other : Value, other.same entry.2 = true ↔ other = entry.2) :
    Value.sameFields fields held = true ↔ fields = held := by
  induction held generalizing fields with
  | nil => cases fields <;> simp [Value.sameFields]
  | cons entry held ih =>
      cases fields with
      | nil => simp [Value.sameFields]
      | cons first fields =>
          rw [Value.sameFields, Bool.and_eq_true, Bool.and_eq_true, beq_iff_eq,
            each entry List.mem_cons_self first.2,
            ih fun inner listed => each inner (List.mem_cons_of_mem _ listed), List.cons.injEq,
            Prod.ext_iff]

/-- `==` finds a value of a type equal to itself alone. -/
theorem same_iff (typed : HasType program declared ty value) (other : Value) :
    other.same value = true ↔ other = value := by
  induction typed generalizing other with
  | unit => cases other <;> simp [Value.same]
  | bool yes => cases other <;> simp [Value.same]
  | int number => cases other <;> simp [Value.same]
  | str text => cases other <;> simp [Value.same]
  | list _ ih =>
      cases other with
      | list others => rw [Value.same, sameElements_iff ih, Value.list.injEq]
      | _ => simp [Value.same]
  | @made id layout index variant value found named made _ ih =>
      have entries : ∀ held : Fields, Keyed variant held →
          (∀ name, Assoc.find? held name = fieldOf value name) → ∀ entry ∈ held,
          ∀ other : Value, other.same entry.2 = true ↔ other = entry.2 := by
        intro held keyed holds entry listed other
        obtain ⟨field, among, called⟩ :=
          List.mem_map.mp (keyed.names.mem_iff.mp (List.mem_map_of_mem listed))
        refine ih field among entry.2 ?_ other
        rw [← holds, called]
        exact Assoc.find?_of_mem (Ascending.distinct keyed.sorted) listed
      cases made with
      | record _ _ _ keyed =>
          cases other with
          | record fields =>
              rw [Value.same, sameFields_iff (entries _ keyed fun name => rfl), Value.record.injEq]
          | _ => simp [Value.same]
      | variant _ _ keyed =>
          cases other with
          | variant origin name fields =>
              rw [Value.same, Bool.and_eq_true, Bool.and_eq_true, beq_iff_eq, beq_iff_eq,
                sameFields_iff (entries _ keyed fun name => rfl), Value.variant.injEq, and_assoc]
          | _ => simp [Value.same]
      | @result ok inner ty _ _ same =>
          cases other with
          | result ok' inner' =>
              subst same
              rw [Value.same, Bool.and_eq_true, beq_iff_eq,
                ih ⟨"value", ty⟩ List.mem_cons_self inner rfl, Value.result.injEq]
          | _ => simp [Value.same]

/-! ## Attempts -/

theorem depth_eq : DEPTH = 64 + 1 := by
  unfold DEPTH
  rfl

theorem decodeResult_word : decodeResult program ty (some (.i64 word)) memory value =
    decodeWord program memory DEPTH ty word (some value) := by
  cases ty <;> rfl

theorem decodeResult_bool {yes : Bool} :
    decodeResult program .bool (some (.i32 (if yes then 1 else 0))) memory value =
      some (.bool yes) := by
  cases yes <;> rfl

/-- What a compiled function answered is read as the expected value where it is that value, and
one that can be read. -/
theorem decodeResult_iff {answer : Option Word} (small : memory.size ≤ 2 ^ 32)
    (typed : HasType program declared ty value)
    (answers : Answers program declared memory ty other answer) :
    decodeResult program ty answer memory value = some value ↔
      other = value ∧ Readable program DEPTH ty value := by
  cases ty with
  | unit =>
      obtain ⟨rfl, rfl⟩ := answers
      cases typed
      rw [depth_eq]
      exact ⟨fun _ => ⟨rfl, trivial⟩, fun _ => rfl⟩
  | bool =>
      obtain ⟨yes, rfl, rfl⟩ := answers
      cases typed with
      | bool yes' =>
          rw [decodeResult_bool, depth_eq, Option.some_inj]
          exact ⟨fun same => ⟨same, trivial⟩, And.left⟩
  | _ =>
      obtain ⟨found, rfl, stands⟩ := answers
      rw [decodeResult_word]
      exact decodeWord_iff small stands typed

/-- An attempt passes where the compiled function answered what the interpreter did, and that
can be read. -/
theorem attempt_iff {answer : Option Word} (small : memory.size ≤ 2 ^ 32)
    (typed : HasType program declared ty value)
    (answers : Answers program declared memory ty other answer) :
    attempt program ty (.passed value) (some (answer, memory)) = .passed value ↔
      other = value ∧ Readable program DEPTH ty value := by
  rw [← decodeResult_iff small typed answers, attempt]
  cases decodeResult program ty answer memory value with
  | none => simp
  | some decoded =>
      have same := same_iff typed decoded
      simp only [Option.some_inj]
      rw [← same]
      cases decoded.same value <;> simp

/-- A value that is written into a memory with room is read back as itself exactly where it can
be read; and an attempt at a property passes exactly where the compiled function answered what
the interpreter did, and that can be read. -/
theorem property_reads_back (program : Program) (declared : LayoutId → Option String) (ty : Ty)
    (value : Value) (typed : HasType program declared ty value) :
    (∀ memory top, Host.Bumped memory top → top + roomOf program ty value ≤ memory.size →
      ∃ word after, encodeValue program ty value memory = .ok (some (word, after)) ∧
        (decodeWord program after DEPTH ty (asI64 word) (some value) = some value ↔
          Readable program DEPTH ty value)) ∧
    ∀ memory other answer, memory.size ≤ 2 ^ 32 →
      Answers program declared memory ty other answer →
      (attempt program ty (.passed value) (some (answer, memory)) = .passed value ↔
        other = value ∧ Readable program DEPTH ty value) := by
  refine ⟨fun memory top bumped fits => ?_,
    fun memory other answer small answers => attempt_iff small typed answers⟩
  obtain ⟨word, after, ran, grown, stands⟩ := encode_puts typed memory top bumped fits
  refine ⟨word, after, ran, ?_⟩
  have small : after.size ≤ 2 ^ 32 := grown.bumped.small
  rw [decodeWord_iff small (stands.kept (Kept.refl _ _) grown.bumped.inside) typed]
  exact ⟨And.right, fun readable => ⟨rfl, readable⟩⟩

/-! ## A shelf of books and a long chain -/

theorem fresh_blank (address : Nat) (_ : 1 * Wasm.page ≤ address) :
    (fun _ => 0 : Nat → UInt8) address = 0 := rfl

/-- A memory of one page, whose bump pointer is at the start of the heap. -/
def fresh : Memory := Memory.put ⟨fun _ => 0, 1, fresh_blank⟩ 0 (Runtime.HEAP_START : Nat)

theorem size_fresh : fresh.size = 65536 := Memory.size_put

theorem fresh_bumped : Host.Bumped fresh Runtime.HEAP_START where
  bump := Memory.read_put (by decide) ⟨by decide, by decide⟩
  start := Nat.le_refl _
  inside := by rw [size_fresh]; decide
  small := by rw [size_fresh]; decide

/-- Everything was declared in one module. -/
def everywhere : LayoutId → Option String := fun _ => some "library"

def bookVariant : Variant := ⟨"Book", [⟨"title", .str⟩, ⟨"pages", .list .int⟩]⟩

/-- A program with the one record `Book`. -/
def shelf : Program where
  layouts := [⟨"Book", [bookVariant], false⟩]
  effects := []
  functions := []
  counted := by decide

def book : Value := .record [("pages", .list [.int 3]), ("title", .str "Zażółć")]

theorem book_typed : HasType shelf everywhere (.aggregate 0) book := by
  refine @HasType.made shelf everywhere 0 ⟨"Book", [bookVariant], false⟩ 0 bookVariant book rfl
    ⟨by decide, rfl⟩ (.record rfl rfl rfl ⟨by decide, by decide⟩) fun field listed inner found => ?_
  rcases List.mem_pair.mp listed with rfl | rfl
  · cases found
    exact .str _
  · cases found
    exact .list fun value held => List.mem_singleton.mp held ▸ .int 3

theorem book_readable (depth : Nat) : Readable shelf (depth + 3) (.aggregate 0) book := by
  intro layout found
  cases found
  refine ⟨fun named => absurd named (by decide), fun name index variant is_ first there => ?_⟩
  cases is_
  cases (show some 0 = some index from first)
  cases there
  intro field listed inner entry
  rcases List.mem_pair.mp listed with rfl | rfl
  · cases entry
    trivial
  · cases entry
    exact fun value held => List.mem_singleton.mp held ▸ trivial

theorem roomOf_book : roomOf shelf (.aggregate 0) book = 64 :=
  calc roomOf shelf (.aggregate 0) book
      = roomOf shelf .str (.str "Zażółć") + (roomOf shelf (.list .int) (.list [.int 3]) + 0) + 16 :=
        by
          rw [roomOf.eq_3]
          rfl
    _ = 64 := by simp [roomOf]; decide

/-- A book is written and read back. -/
theorem book_reads_back : ∃ word after,
    encodeValue shelf (.aggregate 0) book fresh = .ok (some (word, after)) ∧
      decodeWord shelf after DEPTH (.aggregate 0) (asI64 word) (some book) = some book := by
  obtain ⟨word, after, ran, reads⟩ :=
    (property_reads_back shelf everywhere (.aggregate 0) book book_typed).1 fresh
      Runtime.HEAP_START fresh_bumped (by rw [size_fresh, roomOf_book]; decide)
  refine ⟨word, after, ran, reads.mpr ?_⟩
  rw [depth_eq]
  exact book_readable 62

def endVariant : Variant := ⟨"End", []⟩

def linkVariant : Variant := ⟨"Link", [⟨"rest", .aggregate 0⟩]⟩

/-- A program with the one choice `Chain`, of an `End` and of a `Link` to the rest. -/
def chains : Program where
  layouts := [⟨"Chain", [endVariant, linkVariant], true⟩]
  effects := []
  functions := []
  counted := by decide

/-- A chain of so many links. -/
def chain : Nat → Value
  | 0 => .variant "library" "End" []
  | links + 1 => .variant "library" "Link" [("rest", chain links)]

theorem chain_typed (links : Nat) : HasType chains everywhere (.aggregate 0) (chain links) := by
  induction links with
  | zero =>
      exact @HasType.made chains everywhere 0 ⟨"Chain", [endVariant, linkVariant], true⟩ 0
        endVariant (chain 0) rfl ⟨by decide, rfl⟩ (.variant rfl rfl ⟨by decide, by decide⟩) nofun
  | succ links ih =>
      refine @HasType.made chains everywhere 0 ⟨"Chain", [endVariant, linkVariant], true⟩ 1
        linkVariant (chain (links + 1)) rfl ⟨by decide, rfl⟩
        (.variant rfl rfl ⟨List.pairwise_singleton _ _, .refl _⟩) fun field listed inner found => ?_
      cases List.mem_singleton.mp listed
      cases found
      exact ih

/-- A chain of as many links as there are values left to go is too deep. -/
theorem chain_deep (links : Nat) : ¬ Readable chains links (.aggregate 0) (chain links) := by
  induction links with
  | zero => exact id
  | succ links ih =>
      intro readable
      rw [Readable] at readable
      exact ih ((readable _ rfl).2 "Link" 1 linkVariant rfl (by decide) rfl _ List.mem_cons_self
        (chain links) rfl)

theorem roomOf_chain (links : Nat) :
    roomOf chains (.aggregate 0) (chain links) = 16 * links + 8 := by
  induction links with
  | zero =>
      rw [roomOf]
      rfl
  | succ links ih =>
      calc roomOf chains (.aggregate 0) (chain (links + 1))
          = roomOf chains (.aggregate 0) (chain links) + 0 + 16 := by
            rw [roomOf]
            rfl
        _ = 16 * (links + 1) + 8 := by omega

/-- A chain of sixty five links is written, and is not read back. -/
theorem chain_unread : HasType chains everywhere (.aggregate 0) (chain 65) ∧
    ∃ word after, encodeValue chains (.aggregate 0) (chain 65) fresh = .ok (some (word, after)) ∧
      decodeWord chains after DEPTH (.aggregate 0) (asI64 word) (some (chain 65)) ≠
        some (chain 65) ∧
      attempt chains (.aggregate 0) (.passed (chain 65))
        (some (some (.i64 (asI64 word)), after)) ≠ .passed (chain 65) := by
  refine ⟨chain_typed 65, ?_⟩
  obtain ⟨word, after, ran, grown, stands⟩ :=
    encode_puts (chain_typed 65) fresh Runtime.HEAP_START fresh_bumped
      (by rw [size_fresh, roomOf_chain]; decide)
  have small : after.size ≤ 2 ^ 32 := grown.bumped.small
  have below := stands.kept (Kept.refl _ _) grown.bumped.inside
  have deep : ¬ Readable chains DEPTH (.aggregate 0) (chain 65) := by
    rw [depth_eq]
    exact chain_deep 65
  refine ⟨word, after, ran, fun read => ?_, fun passed => ?_⟩
  · exact deep ((decodeWord_iff small below (chain_typed 65)).mp read).2
  · exact deep ((attempt_iff small (chain_typed 65) ⟨_, rfl, below⟩).mp passed).2

end Deed.Cli.Property
