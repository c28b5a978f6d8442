import AnotherPs4.Formats.Psf

/-!
# The PARAM.SFO format

The files `parse` accepts, described by the bytes at their positions, and the
table it returns for them.
-/

namespace AnotherPs4

open Rust Rust.CursorM

namespace Psf

variable (data : List UInt8)

def keyTableOffset : Nat := word data 8 4

def dataTableOffset : Nat := word data 12 4

def indexEntries : Nat := word data 16 4

/-- The `i`-th index record, which starts at `20 + i * 16`. -/
def indexEntry (i : Nat) : RawIndexEntry where
  keyOffset := word data (20 + i * 16) 2
  paramFmt := word data (20 + i * 16 + 2) 2
  paramLen := word data (20 + i * 16 + 4) 4
  paramMaxLen := word data (20 + i * 16 + 8) 4
  dataOffset := word data (20 + i * 16 + 12) 4

def keyStart (i : Nat) : Nat := keyTableOffset data + (indexEntry data i).keyOffset

def dataStart (i : Nat) : Nat := dataTableOffset data + (indexEntry data i).dataOffset

def keyBytes (i : Nat) : List UInt8 := (data.drop (keyStart data i)).takeWhile (· ≠ 0)

def valueLength (paramLen : Nat) : PsfEntryFormat → Nat
  | .binary => paramLen
  | .text => paramLen - 1
  | .integer => 4

def valueBytes (i : Nat) (fmt : PsfEntryFormat) : List UInt8 :=
  bytesAt data (dataStart data i) (valueLength (indexEntry data i).paramLen fmt)

structure RecordOk (i : Nat) : Prop where
  terminated : 0 ∈ data.drop (keyStart data i)
  keyUtf8 : (fromUtf8 (keyBytes data i)).isSome
  value : ∃ fmt, PsfEntryFormat.fromU16 (indexEntry data i).paramFmt = some fmt ∧
    (valueLength (indexEntry data i).paramLen fmt = 0 ∨
      dataStart data i + valueLength (indexEntry data i).paramLen fmt ≤ data.length) ∧
    (fmt = .text → (fromUtf8 (valueBytes data i fmt)).isSome)

structure Accepted : Prop where
  header : 20 ≤ data.length
  magic : bytesAt data 0 4 = [0x00, 0x50, 0x53, 0x46] ∨ bytesAt data 0 4 = [0x46, 0x53, 0x50, 0x00]
  index : 20 + indexEntries data * 16 ≤ data.length
  records : ∀ i < indexEntries data, RecordOk data i

def decodeValue (bytes : List UInt8) : PsfEntryFormat → Option PsfValue
  | .binary => some (.binary bytes)
  | .text => (fromUtf8 bytes).map .text
  | .integer => some (.integer (signed 32 (leNat bytes)))

def record (i : Nat) : Option (String × PsfValue) := do
  let key ← fromUtf8 (keyBytes data i)
  let fmt ← PsfEntryFormat.fromU16 (indexEntry data i).paramFmt
  let value ← decodeValue (valueBytes data i fmt) fmt
  return (key, value)

def records : List (String × PsfValue) := (List.range (indexEntries data)).filterMap (record data)

variable {data}

def indexEntryAt (data : List UInt8) (pos : Nat) : RawIndexEntry where
  keyOffset := word data pos 2
  paramFmt := word data (pos + 2) 2
  paramLen := word data (pos + 4) 4
  paramMaxLen := word data (pos + 8) 4
  dataOffset := word data (pos + 12) 4

theorem readIndexEntry_reads : Reads readIndexEntry 16 indexEntryAt :=
  (readUInt_reads 2).bind fun _ => (readUInt_reads 2).bind fun _ => (readUInt_reads 4).bind fun _ =>
    (readUInt_reads 4).bind fun _ => (readUInt_reads 4).bind fun _ => .pure _

theorem readKeyBytes_eq (data : List UInt8) (pos : Nat) (acc : List UInt8) :
    if 0 ∈ data.drop pos then
      ∃ pos', readKeyBytes data pos acc =
        .ok (acc ++ (data.drop pos).takeWhile (· ≠ 0), ⟨data, pos'⟩)
    else readKeyBytes data pos acc = .err (.io .unexpectedEof) := by
  induction left : data.length - pos using Nat.strong_induction_on generalizing pos acc with
  | _ left ih =>
    rw [readKeyBytes]
    by_cases inside : pos < data.length
    · rw [dif_pos inside, List.drop_eq_getElem_cons inside]
      by_cases nul : data[pos] = 0
      · simp [nul]
      · have later := ih _ (by omega) (pos + 1) (acc ++ [data[pos]]) rfl
        generalize data.drop (pos + 1) = rest at later ⊢
        simpa [nul, Ne.symm nul, List.takeWhile_cons] using later
    · rw [dif_neg inside, List.drop_eq_nil_of_le (by omega)]
      simp

theorem readValue_eq (paramLen : Nat) (fmt : PsfEntryFormat) (c : Cursor) :
    readValue paramLen fmt c =
      if valueLength paramLen fmt = 0 ∨ c.pos + valueLength paramLen fmt ≤ c.data.length then
        match decodeValue (bytesAt c.data c.pos (valueLength paramLen fmt)) fmt with
        | some value => .ok (value, { c with pos := c.pos + valueLength paramLen fmt })
        | none => .err .invalidUtf8
      else .err (.io .unexpectedEof) := by
  cases fmt with
  | binary => exact (readExact_reads (ε := PsfError) paramLen).map PsfValue.binary c
  | integer => exact (readI32_reads (ε := PsfError)).map PsfValue.integer c
  | text =>
    have strLen : (if paramLen > 0 then paramLen - 1 else 0) = valueLength paramLen .text := by
      change _ = paramLen - 1
      split <;> omega
    simp only [readValue, strLen, bind_apply, decodeValue]
    by_cases fits : valueLength paramLen .text = 0 ∨
        c.pos + valueLength paramLen .text ≤ c.data.length
    · rw [(readExact_reads _).ok fits, if_pos fits, Outcome.ok_bind]
      cases decoded : fromUtf8 (bytesAt c.data c.pos (valueLength paramLen .text)) <;> rfl
    · rw [(readExact_reads _).eof fits, if_neg fits]
      rfl

theorem add_word (p : Profile) {table offset : Nat} (tableWord : table < 2 ^ 32)
    (offsetWord : offset < 2 ^ 32) :
    (p.add 64 table offset : Outcome PsfError Nat) = .ok (table + offset) :=
  Profile.add_of_lt (by omega)

theorem keyStart_eq (p : Profile) (data : List UInt8) (i : Nat) :
    (p.add 64 (keyTableOffset data) (indexEntry data i).keyOffset : Outcome PsfError Nat) =
      .ok (keyStart data i) :=
  add_word p (word_lt data 8 4) ((word_lt data (20 + i * 16) 2).trans (by decide))

theorem dataStart_eq (p : Profile) (data : List UInt8) (i : Nat) :
    (p.add 64 (dataTableOffset data) (indexEntry data i).dataOffset : Outcome PsfError Nat) =
      .ok (dataStart data i) :=
  add_word p (word_lt data 12 4) (word_lt data (20 + i * 16 + 12) 4)

section Entry

variable (p : Profile) (entries : Std.HashMap String PsfValue) {i pos : Nat} {key : String}

theorem readEntry_of_no_key (bad : ¬ (0 ∈ data.drop (keyStart data i) ∧
    (fromUtf8 (keyBytes data i)).isSome)) :
    ∃ e, readEntry p (keyTableOffset data) (dataTableOffset data) entries (indexEntry data i)
      ⟨data, pos⟩ = .err e := by
  have walk := readKeyBytes_eq data (keyStart data i) []
  by_cases terminated : 0 ∈ data.drop (keyStart data i)
  · rw [if_pos terminated] at walk
    obtain ⟨after, walk⟩ := walk
    change readKeyBytes data (keyStart data i) [] = .ok (keyBytes data i, _) at walk
    have utf8 : fromUtf8 (keyBytes data i) = none := by
      simpa [terminated] using bad
    exact ⟨.invalidUtf8, by simp [readEntry, keyStart_eq, walk, utf8]⟩
  · rw [if_neg terminated] at walk
    exact ⟨.io .unexpectedEof, by simp [readEntry, keyStart_eq, walk]⟩

theorem readEntry_of_key (terminated : 0 ∈ data.drop (keyStart data i))
    (utf8 : fromUtf8 (keyBytes data i) = some key) :
    readEntry p (keyTableOffset data) (dataTableOffset data) entries (indexEntry data i)
        ⟨data, pos⟩ =
      (okOr (.unknownFormat (indexEntry data i).paramFmt)
          (PsfEntryFormat.fromU16 (indexEntry data i).paramFmt) >>= fun fmt =>
        readValue (indexEntry data i).paramLen fmt >>= fun value =>
          pure (entries.insert key value) : CursorM PsfError _) ⟨data, dataStart data i⟩ := by
  have walk := readKeyBytes_eq data (keyStart data i) []
  rw [if_pos terminated] at walk
  obtain ⟨after, walk⟩ := walk
  change readKeyBytes data (keyStart data i) [] = .ok (keyBytes data i, _) at walk
  simp [readEntry, keyStart_eq, walk, utf8, dataStart_eq]

end Entry

/-- A record outside the format ends parsing with an error, a record of the
format adds its key and value. -/
theorem readEntry_eq (p : Profile) (entries : Std.HashMap String PsfValue) (i : Nat) (pos : Nat) :
    (∃ key value pos', RecordOk data i ∧ record data i = some (key, value) ∧
      readEntry p (keyTableOffset data) (dataTableOffset data) entries (indexEntry data i)
        ⟨data, pos⟩ = .ok (entries.insert key value, ⟨data, pos'⟩)) ∨
    ∃ e, ¬ RecordOk data i ∧
      readEntry p (keyTableOffset data) (dataTableOffset data) entries (indexEntry data i)
        ⟨data, pos⟩ = .err e := by
  by_cases hasKey : 0 ∈ data.drop (keyStart data i) ∧ (fromUtf8 (keyBytes data i)).isSome
  · obtain ⟨terminated, isUtf8⟩ := hasKey
    obtain ⟨key, utf8⟩ := Option.isSome_iff_exists.mp isUtf8
    rw [readEntry_of_key p entries terminated utf8]
    cases format : PsfEntryFormat.fromU16 (indexEntry data i).paramFmt with
    | none =>
      refine .inr ⟨.unknownFormat (indexEntry data i).paramFmt, fun ok => ?_, by simp⟩
      obtain ⟨fmt, known, -⟩ := ok.value
      simp [format] at known
    | some fmt =>
      have read := readValue_eq (indexEntry data i).paramLen fmt ⟨data, dataStart data i⟩
      change readValue _ _ _ = if _ then match decodeValue (valueBytes data i fmt) fmt with
        | some value => _
        | none => _ else _ at read
      by_cases fits : valueLength (indexEntry data i).paramLen fmt = 0 ∨
          dataStart data i + valueLength (indexEntry data i).paramLen fmt ≤ data.length
      · rw [if_pos fits] at read
        cases decoded : decodeValue (valueBytes data i fmt) fmt with
        | none =>
          rw [decoded] at read
          refine .inr ⟨.invalidUtf8, fun ok => ?_, by simp [read]⟩
          obtain ⟨fmt', known, -, text⟩ := ok.value
          rw [format] at known
          cases known
          cases fmt with
          | text => simp_all [decodeValue]
          | binary | integer => cases decoded
        | some v =>
          rw [decoded] at read
          refine .inl ⟨key, v, _, ⟨terminated, isUtf8, fmt, format, fits, ?_⟩, ?_, by simp [read]; rfl⟩
          · rintro rfl
            simpa [decodeValue] using congrArg Option.isSome decoded
          · simp [record, utf8, format, decoded]
      · rw [if_neg fits] at read
        refine .inr ⟨.io .unexpectedEof, fun ok => ?_, by simp [read]⟩
        obtain ⟨fmt', known, fits', -⟩ := ok.value
        rw [format] at known
        cases known
        exact fits fits'
  · obtain ⟨e, failed⟩ := readEntry_of_no_key p entries hasKey
    exact .inr ⟨e, fun ok => hasKey ⟨ok.terminated, ok.keyUtf8⟩, failed⟩

/-- The loop over the index entries. -/
theorem readEntries_eq (p : Profile) (is : List Nat) (entries : Std.HashMap String PsfValue)
    (pos : Nat) :
    (∃ pos', (∀ i ∈ is, RecordOk data i) ∧
      (is.map (indexEntry data)).foldlM
          (readEntry p (keyTableOffset data) (dataTableOffset data)) entries ⟨data, pos⟩ =
        .ok ((is.filterMap (record data)).foldl (fun m e => m.insert e.1 e.2) entries,
          ⟨data, pos'⟩)) ∨
    ∃ e, ¬ (∀ i ∈ is, RecordOk data i) ∧
      (is.map (indexEntry data)).foldlM
        (readEntry p (keyTableOffset data) (dataTableOffset data)) entries ⟨data, pos⟩ = .err e := by
  induction is generalizing entries pos with
  | nil => exact .inl ⟨pos, by simp, rfl⟩
  | cons i is ih =>
    simp only [List.map_cons, List.foldlM_cons, List.mem_cons, forall_eq_or_imp, bind_apply]
    rcases @readEntry_eq data p entries i pos with
      ⟨key, value, after, ok, decoded, read⟩ | ⟨e, bad, read⟩
    · rw [read, Outcome.ok_bind]
      rcases ih (entries.insert key value) after with ⟨last, oks, rest⟩ | ⟨e, bad, rest⟩
      · refine .inl ⟨last, ⟨ok, oks⟩, ?_⟩
        rw [rest, List.filterMap_cons, decoded]
        rfl
      · exact .inr ⟨e, fun oks => bad oks.2, rest⟩
    · exact .inr ⟨e, fun oks => bad oks.1, by rw [read]; rfl⟩

theorem foldl_insert_getElem? (pairs : List (String × PsfValue))
    (entries : Std.HashMap String PsfValue) (key : String) :
    (pairs.foldl (fun m e => m.insert e.1 e.2) entries)[key]? =
      ((pairs.filter (·.1 = key)).getLast?.map Prod.snd).or entries[key]? := by
  induction pairs generalizing entries with
  | nil => rfl
  | cons pair pairs ih =>
    rw [List.foldl_cons, ih, List.filter_cons, Std.HashMap.getElem?_insert]
    by_cases same : pair.1 = key
    · cases later : (pairs.filter (·.1 = key)).getLast? <;> simp [same, List.getLast?_cons, later]
    · simp [same]

theorem magic_ok (data : List UInt8) (header : 20 ≤ data.length) :
    (bytesAt data 0 4 = [0x00, 0x50, 0x53, 0x46] ∨ bytesAt data 0 4 = [0x46, 0x53, 0x50, 0x00]) ↔
      (word data 0 4 = psfMagic ∨ swapBytes (word data 0 4) = psfMagic) := by
  have length : (bytesAt data 0 4).length = 4 := length_bytesAt (by omega)
  have isWord (bytes : List UInt8) (four : bytes.length = 4) (value : leNat bytes = psfMagic) :
      bytes = [0x46, 0x53, 0x50, 0x00] := leNat_injective four (value.trans (by decide))
  unfold word
  match bytesAt data 0 4, length with
  | [a, b, c, d], four =>
    rw [swapBytes_leNat]
    constructor
    · rintro (bigEndian | littleEndian)
      · cases bigEndian
        exact .inr (by decide)
      · rw [littleEndian]
        exact .inl (by decide)
    · rintro (littleEndian | bigEndian)
      · exact .inr (isWord _ four littleEndian)
      · have reversed := isWord [d, c, b, a] rfl bigEndian
        cases reversed
        exact .inl rfl

/-- Parsing reaches the loop over the entries of an accepted header, or fails
before it. -/
theorem parse_header (p : Profile) (data : List UInt8) :
    ((20 ≤ data.length ∧ (word data 0 4 = psfMagic ∨ swapBytes (word data 0 4) = psfMagic) ∧
        20 + indexEntries data * 16 ≤ data.length) ∧
      ∃ pos, parse p data = (((List.range (indexEntries data)).map (indexEntry data)).foldlM
          (readEntry p (keyTableOffset data) (dataTableOffset data)) ∅ ⟨data, pos⟩ >>=
        fun r => .ok ⟨word data 4 4, r.1⟩)) ∨
    (¬ (20 ≤ data.length ∧ (word data 0 4 = psfMagic ∨ swapBytes (word data 0 4) = psfMagic) ∧
        20 + indexEntries data * 16 ≤ data.length) ∧ ∃ e, parse p data = .err e) := by
  have run : parse p data = parseFrom p ⟨data, 0⟩ >>= fun r => .ok r.1 := rfl
  have magicTest : (word data 0 4 = psfMagic ∨ swapBytes (word data 0 4) = psfMagic) ↔
      ¬ (word data 0 4 ≠ psfMagic ∧ swapBytes (word data 0 4) ≠ psfMagic) := by tauto
  rw [run, parseFrom, magicTest]
  simp only [readU32_bind, failIf_bind]
  by_cases header : 20 ≤ data.length
  · rw [if_pos (by omega)]
    split
    · next bad => exact .inr ⟨fun accepted => accepted.2.1 bad, _, rfl⟩
    · next magic =>
      have entriesRead := readIndexEntry_reads.readMany (indexEntries data) ⟨data, 20⟩
      rw [if_pos (by omega), if_pos (by omega), if_pos (by omega), bind_apply]
      by_cases index : 20 + indexEntries data * 16 ≤ data.length
      · rw [if_pos (.inr index)] at entriesRead
        refine .inl ⟨⟨header, magic, index⟩, 20 + indexEntries data * 16, ?_⟩
        change (readMany readIndexEntry (indexEntries data) ⟨data, 20⟩ >>= _) >>= _ = _
        rw [entriesRead, Outcome.ok_bind, bind_apply, bind_assoc]
        rfl
      · rw [if_neg (by simp only; omega)] at entriesRead
        refine .inr ⟨fun accepted => index accepted.2.2, .io .unexpectedEof, ?_⟩
        change (readMany readIndexEntry (indexEntries data) ⟨data, 20⟩ >>= _) >>= _ = _
        rw [entriesRead]
        rfl
  · refine .inr ⟨fun accepted => header accepted.1, ?_⟩
    split_ifs <;> exact ⟨_, rfl⟩

/-- `parse` accepts exactly the files of the format, its table holds for each
key the value of the last record with that key and nothing else, and it never
panics. -/
theorem parse_accepts_format (p : Profile) (data : List UInt8) :
    ¬ (parse p data).Panics ∧
    ((∃ psf, parse p data = .ok psf) ↔ Accepted data) ∧
    ∀ psf, parse p data = .ok psf → psf.version = word data 4 4 ∧
      ∀ key, psf.entries[key]? =
        ((records data).filter (·.1 = key)).getLast?.map Prod.snd := by
  rcases parse_header p data with ⟨⟨header, magic, index⟩, pos, parsed⟩ | ⟨bad, e, failed⟩
  · rcases readEntries_eq p (List.range (indexEntries data)) ∅ pos with
      ⟨last, oks, read⟩ | ⟨e, bad, read⟩
    · rw [read, Outcome.ok_bind] at parsed
      rw [parsed]
      refine ⟨id, iff_of_true ⟨_, rfl⟩ ⟨header, (magic_ok data header).mpr magic, index,
        fun i below => oks i (List.mem_range.mpr below)⟩, ?_⟩
      rintro _ ⟨rfl⟩
      refine ⟨rfl, fun key => ?_⟩
      rw [foldl_insert_getElem?]
      simp [records]
    · rw [read, Outcome.err_bind] at parsed
      rw [parsed]
      refine ⟨id, iff_of_false (by simp) fun accepted => ?_, by simp⟩
      exact bad fun i member => accepted.records i (List.mem_range.mp member)
  · rw [failed]
    refine ⟨id, iff_of_false (by simp) fun accepted => ?_, by simp⟩
    exact bad ⟨accepted.header, (magic_ok data accepted.header).mp accepted.magic, accepted.index⟩

end Psf

end AnotherPs4
