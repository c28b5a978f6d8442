import AnotherPs4.Formats.PsfFormat
import AnotherPs4.Rust.Encoding

/-!
# Encoding of PARAM.SFO files

An encoder chooses where keys and values go: the tables may start anywhere, and
keys and values may be padded, reordered, shared or overlapping. `parse` only
depends on what reads back at the offsets of the index.
-/

namespace AnotherPs4

open Rust

/-! ### Values and index records -/

def PsfEntryFormat.code : PsfEntryFormat → Nat
  | binary => 0x0004
  | text => 0x0204
  | integer => 0x0404

theorem PsfEntryFormat.fromU16_code (format : PsfEntryFormat) : fromU16 format.code = some format := by
  cases format <;> rfl

namespace PsfValue

def format : PsfValue → PsfEntryFormat
  | binary _ => .binary
  | text _ => .text
  | integer _ => .integer

def encode : PsfValue → List UInt8
  | binary bytes => bytes
  | text string => utf8 string
  | integer value => leBytes 4 (unsigned 32 value)

/-- The length that goes into the index: a text counts its terminator, and the
length of an integer is not read. -/
def HasLength : PsfValue → Nat → Prop
  | binary bytes, paramLen => paramLen = bytes.length
  | text string, paramLen => paramLen = (utf8 string).length + 1
  | integer _, _ => True

def InRange : PsfValue → Prop
  | integer value => -2 ^ 31 ≤ value ∧ value < 2 ^ 31
  | _ => True

theorem valueLength_format {value : PsfValue} {paramLen : Nat} (length : value.HasLength paramLen) :
    Psf.valueLength paramLen value.format = value.encode.length := by
  cases value with
  | binary bytes => exact length
  | text string => exact (congrArg (· - 1) length).trans (Nat.add_sub_cancel ..)
  | integer value => exact (length_leBytes 4 _).symm

theorem decodeValue_encode {value : PsfValue} (inRange : value.InRange) :
    Psf.decodeValue value.encode value.format = some value := by
  cases value with
  | binary bytes => rfl
  | text string => exact congrArg (Option.map PsfValue.text) (fromUtf8_utf8 string)
  | integer value =>
    obtain ⟨low, high⟩ := inRange
    have word : leNat (leBytes 4 (unsigned 32 value)) = unsigned 32 value :=
      leNat_leBytes (unsigned_lt 32 value)
    simp only [encode, format, Psf.decodeValue]
    rw [word, signed_unsigned (by omega) (by omega)]

end PsfValue

namespace RawIndexEntry

def fields (raw : RawIndexEntry) : List (Nat × Nat) :=
  [(2, raw.keyOffset), (2, raw.paramFmt), (4, raw.paramLen), (4, raw.paramMaxLen), (4, raw.dataOffset)]

def encode (raw : RawIndexEntry) : List UInt8 := encodeFields raw.fields

@[simp] theorem length_encode (raw : RawIndexEntry) : raw.encode.length = 16 := length_encodeFields _

theorem encode_decodes {raw : RawIndexEntry} (fit : FieldsFit raw.fields) {data : List UInt8}
    {pos : Nat} (holds : Holds data pos raw.encode) : Psf.indexEntryAt data pos = raw := by
  have words := holds.fieldsAt fit
  simp only [fields, FieldsAt, Nat.add_assoc, Nat.reduceAdd, and_true] at words
  simp only [Psf.indexEntryAt, words]

end RawIndexEntry

namespace Psf

/-! ### Files -/

/-- What a file says: a version, and values by distinct keys without a NUL. -/
structure Contents where
  version : Nat
  entries : List (String × PsfValue)
  distinct : (entries.map Prod.fst).Nodup
  nulFree : ∀ entry ∈ entries, 0 ∉ utf8 entry.1
  inRange : ∀ entry ∈ entries, entry.2.InRange

/-- What an encoder chooses: the byte order of the magic, where the tables start,
and one index record for each entry. -/
structure Layout where
  bigEndian : Bool
  keyTable : Nat
  dataTable : Nat
  index : List RawIndexEntry

namespace Layout

def magic (layout : Layout) : List UInt8 :=
  if layout.bigEndian then [0x00, 0x50, 0x53, 0x46] else [0x46, 0x53, 0x50, 0x00]

def headerFields (layout : Layout) (version : Nat) : List (Nat × Nat) :=
  [(4, version), (4, layout.keyTable), (4, layout.dataTable), (4, layout.index.length)]

/-- An index record leads to its key, with a terminator, and to its value. -/
structure Stores (layout : Layout) (data : List UInt8) (raw : RawIndexEntry)
    (entry : String × PsfValue) : Prop where
  key : Holds data (layout.keyTable + raw.keyOffset) (utf8 entry.1 ++ [0])
  format : raw.paramFmt = entry.2.format.code
  length : entry.2.HasLength raw.paramLen
  value : Holds data (layout.dataTable + raw.dataOffset) entry.2.encode

/-- A file with these contents in this layout. -/
structure Encodes (layout : Layout) (contents : Contents) (data : List UInt8) : Prop where
  magic : Holds data 0 layout.magic
  header : Holds data 4 (encodeFields (layout.headerFields contents.version))
  fit : FieldsFit (layout.headerFields contents.version)
  index : Holds data 20 (layout.index.flatMap RawIndexEntry.encode)
  indexFit : ∀ raw ∈ layout.index, FieldsFit raw.fields
  entries : List.Forall₂ (layout.Stores data) layout.index contents.entries

end Layout

variable {data : List UInt8}

theorem filterMap_range_eq {α : Type} {decode : Nat → Option α} {results : List α} {count : Nat}
    (length : results.length = count) (each : ∀ i < count, decode i = results[i]?) :
    (List.range count).filterMap decode = results := by
  subst length
  have decoded : (List.range results.length).map decode = results.map some := by
    apply List.ext_getElem (by simp)
    intro i inRange inResults
    rw [List.length_map] at inResults
    simp [each i inResults, inResults]
  have composed := congrArg (List.filterMap id) decoded
  simpa [List.filterMap_map] using composed

theorem foldl_insert_getElem?_of_distinct {pairs : List (String × PsfValue)}
    (distinct : (pairs.map Prod.fst).Nodup) {key : String} {value : PsfValue} :
    (pairs.foldl (fun m e => m.insert e.1 e.2) (∅ : Std.HashMap String PsfValue))[key]? =
      some value ↔ (key, value) ∈ pairs := by
  rw [foldl_insert_getElem?, Std.HashMap.getElem?_empty, Option.or_none, Option.map_eq_some_iff]
  constructor
  · rintro ⟨pair, last, rfl⟩
    obtain ⟨member, same⟩ := List.mem_filter.mp (List.mem_of_getLast? last)
    rwa [← of_decide_eq_true same]
  · intro member
    have kept : (key, value) ∈ pairs.filter (·.1 = key) := List.mem_filter.mpr ⟨member, by simp⟩
    obtain ⟨pair, last⟩ := Option.ne_none_iff_exists'.mp
      (mt List.getLast?_eq_none_iff.mp (List.ne_nil_of_mem kept))
    obtain ⟨other, same⟩ := List.mem_filter.mp (List.mem_of_getLast? last)
    have only := List.inj_on_of_nodup_map distinct other member (of_decide_eq_true same)
    exact ⟨pair, last, by rw [only]⟩

namespace Layout

variable {layout : Layout} {contents : Contents}

theorem Stores.record_eq {i : Nat} {entry : String × PsfValue}
    (stores : layout.Stores data (indexEntry data i) entry)
    (keyTable : keyTableOffset data = layout.keyTable)
    (dataTable : dataTableOffset data = layout.dataTable)
    (nulFree : 0 ∉ utf8 entry.1) (inRange : entry.2.InRange) :
    RecordOk data i ∧ record data i = some entry := by
  have key : fromUtf8 (keyBytes data i) = some entry.1 := by
    rw [keyBytes, keyStart, keyTable, (stores.key.nulTerminated nulFree).2, fromUtf8_utf8]
  have format : PsfEntryFormat.fromU16 (indexEntry data i).paramFmt = some entry.2.format := by
    rw [stores.format, PsfEntryFormat.fromU16_code]
  have value : valueBytes data i entry.2.format = entry.2.encode := by
    rw [valueBytes, dataStart, dataTable, PsfValue.valueLength_format stores.length]
    exact stores.value
  have decoded := PsfValue.decodeValue_encode inRange
  refine ⟨⟨?_, by simp [key], _, format, ?_, fun isText => ?_⟩, ?_⟩
  · rw [keyStart, keyTable]
    exact (stores.key.nulTerminated nulFree).1
  · rw [dataStart, dataTable, PsfValue.valueLength_format stores.length, List.length_eq_zero_iff]
    exact stores.value.fits
  · rw [value]
    rw [isText] at decoded
    simpa [decodeValue] using congrArg Option.isSome decoded
  · simp [record, key, format, value, decoded]

namespace Encodes

variable (encodes : layout.Encodes contents data)

include encodes

theorem headerWords : word data 4 4 = contents.version ∧ keyTableOffset data = layout.keyTable ∧
    dataTableOffset data = layout.dataTable ∧ indexEntries data = layout.index.length := by
  have words := encodes.header.fieldsAt encodes.fit
  simp only [headerFields, FieldsAt, Nat.reduceAdd, and_true] at words
  exact words

theorem header_fits : 20 ≤ data.length := by
  have inside := encodes.header.fits
  rw [← List.length_eq_zero_iff, length_encodeFields] at inside
  simpa [headerFields] using inside

theorem magic_accepted : word data 0 4 = psfMagic ∨ swapBytes (word data 0 4) = psfMagic := by
  have magic := encodes.magic.bytesAt_eq
  rw [← magic_ok data encodes.header_fits]
  unfold Layout.magic at magic
  split at magic
  · exact .inl magic
  · exact .inr magic

theorem index_fits : 20 + indexEntries data * 16 ≤ data.length := by
  have inside := encodes.index.table_fits RawIndexEntry.length_encode
  have header := encodes.header_fits
  rw [encodes.headerWords.2.2.2]
  omega

theorem index_eq : (List.range (indexEntries data)).map (indexEntry data) = layout.index := by
  rw [encodes.headerWords.2.2.2]
  have read : (List.range layout.index.length).map (fun i => indexEntryAt data (20 + i * 16)) =
      layout.index := encodes.index.table RawIndexEntry.length_encode fun raw member _ holds =>
    raw.encode_decodes (encodes.indexFit raw member) holds
  exact read

theorem record_eq {i : Nat} (below : i < indexEntries data) :
    RecordOk data i ∧ record data i = contents.entries[i]? := by
  obtain ⟨-, keyTable, dataTable, count⟩ := encodes.headerWords
  have inIndex : i < layout.index.length := count ▸ below
  have inEntries : i < contents.entries.length := encodes.entries.length_eq ▸ inIndex
  have entry : layout.index[i] = indexEntry data i := by
    have same := congrArg (·[i]?) encodes.index_eq
    rw [List.getElem?_map, List.getElem?_range below, List.getElem?_eq_getElem inIndex] at same
    exact (Option.some.inj same).symm
  have stores : layout.Stores data layout.index[i] contents.entries[i] :=
    encodes.entries.get inIndex inEntries
  have member := List.getElem_mem inEntries
  rw [entry] at stores
  rw [List.getElem?_eq_getElem inEntries]
  exact stores.record_eq keyTable dataTable (contents.nulFree _ member) (contents.inRange _ member)

theorem records_eq : records data = contents.entries := by
  refine filterMap_range_eq ?_ fun i below => (encodes.record_eq below).2
  rw [encodes.headerWords.2.2.2, encodes.entries.length_eq]

end Encodes

end Layout

/-- Decoding undoes encoding: `parse` of a file that encodes some contents returns
their version and the map from their keys to their values. -/
theorem parse_encodedContents (p : Profile) {layout : Layout} {contents : Contents}
    (encodes : layout.Encodes contents data) :
    ∃ psf, parse p data = .ok psf ∧ psf.version = contents.version ∧
      ∀ key value, psf.entries[key]? = some value ↔ (key, value) ∈ contents.entries := by
  have accepted : 20 ≤ data.length ∧
      (word data 0 4 = psfMagic ∨ swapBytes (word data 0 4) = psfMagic) ∧
      20 + indexEntries data * 16 ≤ data.length :=
    ⟨encodes.header_fits, encodes.magic_accepted, encodes.index_fits⟩
  obtain ⟨-, start, parsed⟩ := (parse_header p data).resolve_right fun failed => failed.1 accepted
  have eachOk : ∀ i ∈ List.range (indexEntries data), RecordOk data i := fun i member =>
    (encodes.record_eq (List.mem_range.mp member)).1
  obtain ⟨stop, -, read⟩ := (readEntries_eq p (List.range (indexEntries data)) ∅ start).resolve_right
    fun ⟨_, bad, _⟩ => bad eachOk
  rw [read, Outcome.ok_bind] at parsed
  refine ⟨_, parsed, encodes.headerWords.1, fun key value => ?_⟩
  change ((records data).foldl (fun m e => m.insert e.1 e.2) (∅ : Std.HashMap _ _))[key]? = _ ↔ _
  rw [encodes.records_eq]
  exact foldl_insert_getElem?_of_distinct contents.distinct

/-- A key that is a suffix of another, an empty key, a text with a NUL and a negative
integer. -/
def smallContents : Contents where
  version := 0x101
  entries := [("BA", .binary [0, 0x78, 0]), ("A", .text (String.ofList ['x', Char.ofNat 0, 'y'])),
    ("", .integer (-2))]
  distinct := by decide
  nulFree := by
    simp only [List.forall_mem_cons, List.not_mem_nil, false_imp_iff, implies_true, and_true]
    decide +kernel
  inRange := by
    simp only [List.forall_mem_cons, List.not_mem_nil, false_imp_iff, implies_true, and_true]
    exact ⟨trivial, trivial, by decide, by decide⟩

/-- Keys share their ends, and the values share bytes with them. -/
def smallLayout : Layout where
  bigEndian := true
  keyTable := 0
  dataTable := 70
  index := [⟨68, 0x0004, 3, 3, 0⟩, ⟨69, 0x0204, 4, 8, 1⟩, ⟨70, 0x0404, 4, 4, 4⟩]

def smallFile : List UInt8 :=
  smallLayout.magic ++ encodeFields (smallLayout.headerFields 0x101) ++
    smallLayout.index.flatMap RawIndexEntry.encode ++
    [0x42, 0x41, 0x00, 0x78, 0x00, 0x79, 0xFE, 0xFF, 0xFF, 0xFF]

theorem parse_encodedContents_small : smallLayout.Encodes smallContents smallFile ∧
    ∃ psf, parse .dev smallFile = .ok psf ∧ psf.version = 0x101 ∧
      ∀ key value, psf.entries[key]? = some value ↔ (key, value) ∈ smallContents.entries := by
  have encodes : smallLayout.Encodes smallContents smallFile := {
    magic := by decide +kernel
    header := by decide +kernel
    fit := by decide
    index := by decide +kernel
    indexFit := by
      simp only [smallLayout, List.forall_mem_cons, List.not_mem_nil, false_imp_iff, implies_true,
        and_true]
      decide
    entries :=
      .cons ⟨by decide +kernel, rfl, rfl, by decide +kernel⟩ <|
        .cons ⟨by decide +kernel, rfl, by change _ = _; decide +kernel, by decide +kernel⟩ <|
        .cons ⟨by decide +kernel, rfl, trivial, by decide +kernel⟩ .nil }
  exact ⟨encodes, parse_encodedContents .dev encodes⟩

end Psf

end AnotherPs4
