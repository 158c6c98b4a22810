import Kasumi.MediaFormat

/-! The records of log segments: headers bound to their group and position, the bodies of
operations, directory preparations and commits, and what replay decodes from each. -/
namespace SegmentRecords

open ByteFields MediaFormat List
open DirectoryPages (CoreError ValueLocation maxTableBytes maxKeyBytes maxValueBytes segmentBytes
  segmentHeaderBytes recordHeaderBytes putPrefixBytes)
open RootFormat (Digest LogPosition)

def recordMagic : List Byte := [75, 86, 83, 82]
def relocatePrefixBytes : ℕ := putPrefixBytes + 8
def maintenanceBodyBytes : ℕ := 8
def deletePrefixBytes : ℕ := 4
def commitBodyBytes : ℕ := 72 + directoryRootBytes
def directoryRecordBytes : ℕ := recordHeaderBytes + directoryRootBytes
def maxInlineBody : ℕ := relocatePrefixBytes + maxTableBytes + maxKeyBytes
def ioWindow : ℕ := 64 * 1024
def searchWindow : ℕ := 1024 * 1024
def maxBatchOperations : ℕ := 65536
def maxBatchBytes : ℕ := 96 * 1024 * 1024
def maxMaintenanceOperations : ℕ := 512

/-- "KASUMI-KVSEG0004 batch chain". -/
def chainDomain : List Byte :=
  segmentMagic 52 ++ [32, 98, 97, 116, 99, 104, 32, 99, 104, 97, 105, 110]

/-- SHA-256 as the hashing crate computes it: some function to 32 bytes. -/
abbrev Sha256 := List Byte → Fin (256 ^ 32)

def chainDigest (sha : Sha256) (gid : ℕ) (previous : Digest) (batchSeq opCount : ℕ)
    (opsSha256 : Digest) (directory : List Byte) : Digest :=
  (sha (chainDomain ++ le 16 gid ++ le 32 previous ++ le 8 batchSeq ++ le 4 opCount ++
    le 32 opsSha256 ++ directory)).val

/-! ## Segment headers -/

def segmentHeaderFields (gid segmentId : ℕ) : List (List Byte) :=
  [segmentMagic 52, le 4 formatVersion, zeros 4, le 16 gid, le 8 segmentId, zeros 12]

def segmentHeader (gid segmentId : ℕ) : List Byte :=
  (segmentHeaderFields gid segmentId ++
    [le 4 (crc32c (segmentHeaderFields gid segmentId).flatten)]).flatten

inductive HeaderState where
  | valid
  | unwritten
  | torn
  deriving DecidableEq

def decodeSegmentHeader (bytes : List Byte) (gid segmentId : ℕ) :
    Except CoreError HeaderState := do
  rejectLegacy bytes
  if isZero bytes then pure .unwritten
  else if bytes.length < segmentHeaderBytes ∨ slice 0 16 bytes ≠ segmentMagic 52 ∨
      unle (slice 60 64 bytes) ≠ crc32c (slice 0 60 bytes) then pure .torn
  else if unle (slice 16 20 bytes) ≠ formatVersion ∨ ¬ isZero (slice 20 24 bytes) ∨
      ¬ isZero (slice 48 60 bytes) then
    throw (.corrupt "segment header has an unsupported layout")
  else if slice 24 40 bytes ≠ le 16 gid ∨ unle (slice 40 48 bytes) ≠ segmentId then
    throw (.corrupt "segment header names another group or segment")
  else pure .valid

def readSegmentHeader (file : List Byte) (gid segmentId : ℕ) : Except CoreError HeaderState :=
  if file.length > segmentBytes then throw (.corrupt "segment exceeds its size bound")
  else decodeSegmentHeader (file.take segmentHeaderBytes) gid segmentId

/-! ## Record headers -/

inductive RecordKind where
  | createTable
  | put
  | delete
  | commit
  | directory
  | relocate
  | maintenance
  deriving DecidableEq

namespace RecordKind

def tag : RecordKind → ℕ
  | createTable => 1
  | put => 2
  | delete => 3
  | commit => 4
  | directory => 5
  | relocate => 6
  | maintenance => 7

def fromTag : ℕ → Option RecordKind
  | 1 => some createTable
  | 2 => some put
  | 3 => some delete
  | 4 => some commit
  | 5 => some directory
  | 6 => some relocate
  | 7 => some maintenance
  | _ => none

def bodyBounds : RecordKind → ℕ × ℕ
  | createTable => (1, maxTableBytes)
  | put => (putPrefixBytes + 1, maxInlineBody + maxValueBytes)
  | delete => (deletePrefixBytes + 1, deletePrefixBytes + maxTableBytes + maxKeyBytes)
  | commit => (commitBodyBytes, commitBodyBytes)
  | directory => (directoryRootBytes, directoryRootBytes)
  | relocate => (relocatePrefixBytes + 1, maxInlineBody + maxValueBytes)
  | maintenance => (maintenanceBodyBytes, maintenanceBodyBytes)

@[simp] theorem fromTag_tag (kind : RecordKind) : fromTag kind.tag = some kind := by
  cases kind <;> rfl

theorem tag_pos (kind : RecordKind) : 0 < kind.tag := by cases kind <;> decide

theorem tag_lt (kind : RecordKind) : kind.tag < 8 := by cases kind <;> decide

theorem bodyBounds_fits (kind : RecordKind) : kind.bodyBounds.2 < 2 ^ 26 := by
  cases kind <;> decide

def isOperation : RecordKind → Bool
  | commit | directory => false
  | _ => true

end RecordKind

structure RecordHead where
  kind : RecordKind
  batchSeq : ℕ
  /-- The newest committed batch when the record was appended. -/
  baseSeq : ℕ
  bodyLen : ℕ
  bodyCrc : ℕ

def headerChecksum (gid : ℕ) (at' : LogPosition) (bytes : List Byte) : ℕ :=
  crc32c (le 16 gid ++ le 8 at'.segmentId ++ le 8 at'.offset ++ bytes)

def headFields (head : RecordHead) : List (List Byte) :=
  [recordMagic, le 1 head.kind.tag, zeros 3, le 8 head.batchSeq, le 8 head.baseSeq,
    le 4 head.bodyLen, le 4 head.bodyCrc]

def recordHeader (gid : ℕ) (at' : LogPosition) (head : RecordHead) : List Byte :=
  (headFields head ++ [le 4 (headerChecksum gid at' (headFields head).flatten)]).flatten

def HeaderValid (gid : ℕ) (at' : LogPosition) (bytes : List Byte) : Prop :=
  slice 0 4 bytes = recordMagic ∧
    unle (slice 32 36 bytes) = headerChecksum gid at' (slice 0 32 bytes)

instance (gid : ℕ) (at' : LogPosition) (bytes : List Byte) :
    Decidable (HeaderValid gid at' bytes) := inferInstanceAs (Decidable (_ ∧ _))

def decodeRecordHeader (bytes : List Byte) (gid : ℕ) (at' : LogPosition) :
    Except CoreError (Option RecordHead) :=
  if ¬ HeaderValid gid at' bytes then pure none
  else match RecordKind.fromTag (unle (slice 4 5 bytes)) with
    | none => throw (.corrupt "segment record has an unknown kind")
    | some kind =>
      let batchSeq := unle (slice 8 16 bytes)
      let baseSeq := unle (slice 16 24 bytes)
      let bodyLen := unle (slice 24 28 bytes)
      if ¬ isZero (slice 5 8 bytes) ∨ baseSeq ≥ batchSeq ∨ bodyLen < kind.bodyBounds.1 ∨
          bodyLen > kind.bodyBounds.2 then
        throw (.corrupt "segment record header is invalid")
      else pure (some ⟨kind, batchSeq, baseSeq, bodyLen, unle (slice 28 32 bytes)⟩)

/-! ## Bodies -/

abbrev Text := { bytes : List Byte // isUtf8 bytes = true }

inductive Operation where
  | createTable (table : Text)
  | put (table : Text) (key value : List Byte)
  | delete (table : Text) (key : List Byte)

/-- One operation record's body: its inline bytes (prefix, table and key) and its value. -/
structure EncodedOp where
  kind : RecordKind
  inline : List Byte
  value : List Byte

namespace EncodedOp

def body (op : EncodedOp) : List Byte := op.inline ++ op.value

def bodyLen (op : EncodedOp) : ℕ := op.inline.length + op.value.length

def len (op : EncodedOp) : ℕ := recordHeaderBytes + op.inline.length + op.value.length

def bodyCrc (op : EncodedOp) : ℕ := crc32c op.body

def head (op : EncodedOp) (batchSeq baseSeq : ℕ) : RecordHead :=
  ⟨op.kind, batchSeq, baseSeq, op.bodyLen, op.bodyCrc⟩

end EncodedOp

def putPrefix (table key value : List Byte) : List Byte :=
  le 2 table.length ++ le 2 key.length ++ le 4 value.length ++ le 4 (crc32c value) ++ zeros 4

def encodeOp : Operation → EncodedOp
  | .createTable table => ⟨.createTable, table.val, []⟩
  | .put table key value => ⟨.put, putPrefix table.val key value ++ table.val ++ key, value⟩
  | .delete table key =>
    ⟨.delete, le 2 table.val.length ++ le 2 key.length ++ table.val ++ key, []⟩

structure CommitBody where
  opCount : ℕ
  opsSha256 : Digest
  chainSha256 : Digest
  directory : List Byte

def commitFields (commit : CommitBody) : List (List Byte) :=
  [le 4 commit.opCount, zeros 4, le 32 commit.opsSha256, le 32 commit.chainSha256,
    commit.directory]

def CommitBody.bytes (commit : CommitBody) : List Byte := (commitFields commit).flatten

def commitRecord (gid : ℕ) (at' : LogPosition) (batchSeq baseSeq : ℕ) (commit : CommitBody) :
    List Byte :=
  recordHeader gid at' ⟨.commit, batchSeq, baseSeq, commitBodyBytes, crc32c commit.bytes⟩ ++
    commit.bytes

def decodeCommitBody (body : List Byte) : Except CoreError CommitBody :=
  let opCount := unle (slice 0 4 body)
  if ¬ isZero (slice 4 8 body) ∨ opCount = 0 ∨ opCount > maxBatchOperations then
    throw (.corrupt "batch commit record is invalid")
  else pure ⟨opCount, unle (slice 8 40 body), unle (slice 40 72 body), body.drop 72⟩

inductive ReplayedRecord where
  | createTable (table : Text)
  | put (table : Text) (key : List Byte) (value : ValueLocation)
  | delete (table : Text) (key : List Byte)
  | relocate (table : Text) (key : List Byte) (logicalBatchSeq : ℕ) (value : ValueLocation)
  | directoryOnly

def text (bytes : List Byte) : Except CoreError Text :=
  if bytes = [] ∨ bytes.length > maxTableBytes then
    throw (.corrupt "segment operation record is invalid")
  else if h : isUtf8 bytes = true then pure ⟨bytes, h⟩
  else throw (.corrupt "segment table name is not UTF-8")

def valueStart (kind : RecordKind) (inline : List Byte) : ℕ :=
  let declared := unle (slice 0 2 inline) + unle (slice 2 4 inline)
  match kind with
  | .put => min (putPrefixBytes + declared) inline.length
  | .relocate => min (relocatePrefixBytes + declared) inline.length
  | _ => inline.length

/-- The put and relocation arms of `decode_operation`, up to the record they return. -/
def decodeValue (head : RecordHead) (inline : List Byte) (valueCrc segmentId bodyAt start : ℕ) :
    Except CoreError (Text × List Byte × ValueLocation) := do
  let tableLen := unle (slice 0 2 inline)
  let keyLen := unle (slice 2 4 inline)
  let valueLen := unle (slice 4 8 inline)
  let keyAt := start + tableLen
  let valueAt := keyAt + keyLen
  if keyLen > maxKeyBytes ∨ valueLen > maxValueBytes ∨ valueAt > inline.length ∨
      valueAt + valueLen ≠ head.bodyLen ∨ ¬ isZero (slice 12 16 inline) then
    throw (.corrupt "segment operation record is invalid")
  if unle (slice 8 12 inline) ≠ valueCrc then
    throw (.corrupt "segment value checksum differs")
  let table ← text (slice start keyAt inline)
  pure (table, slice keyAt valueAt inline, ⟨segmentId, bodyAt + valueAt, valueLen, valueCrc⟩)

/-- Decode a checksum-valid operation body; `body` is split as `read_body` streams it. -/
def decodeOperation (head : RecordHead) (body : List Byte) (segmentId bodyAt : ℕ) :
    Except CoreError ReplayedRecord :=
  let inline := body.take maxInlineBody
  let valueCrc := crc32c (body.drop (valueStart head.kind inline))
  match head.kind with
  | .createTable => do
    let table ← text inline
    pure (.createTable table)
  | .delete => do
    let tableLen := unle (slice 0 2 inline)
    let keyLen := unle (slice 2 4 inline)
    if deletePrefixBytes + tableLen + keyLen ≠ inline.length ∨ keyLen > maxKeyBytes then
      throw (.corrupt "segment operation record is invalid")
    let keyAt := deletePrefixBytes + tableLen
    let table ← text (slice deletePrefixBytes keyAt inline)
    pure (.delete table (inline.drop keyAt))
  | .put => do
    let (table, key, value) ← decodeValue head inline valueCrc segmentId bodyAt putPrefixBytes
    pure (.put table key value)
  | .relocate => do
    let (table, key, value) ←
      decodeValue head inline valueCrc segmentId bodyAt relocatePrefixBytes
    let logicalBatchSeq := unle (slice putPrefixBytes relocatePrefixBytes inline)
    if logicalBatchSeq = 0 ∨ logicalBatchSeq > head.baseSeq then
      throw (.corrupt "relocation logical version is invalid")
    pure (.relocate table key logicalBatchSeq value)
  | .maintenance =>
    if ¬ isZero inline then throw (.corrupt "directory maintenance record is noncanonical")
    else pure .directoryOnly
  | .commit | .directory => throw (.corrupt "segment operation record is invalid")

/-! ## Maintenance bodies -/

inductive MaintenanceOp where
  | directoryOnly
  | relocate (table : Text) (key : List Byte) (logicalBatchSeq : ℕ) (source : ValueLocation)

/-- The record of a maintenance operation whose source bytes read back as `value`. -/
def encodeMaintenance (value : List Byte) : MaintenanceOp → EncodedOp
  | .directoryOnly => ⟨.maintenance, zeros maintenanceBodyBytes, []⟩
  | .relocate table key logicalBatchSeq source =>
    ⟨.relocate, le 2 table.val.length ++ le 2 key.length ++ le 4 source.len ++ le 4 source.crc ++
      zeros 4 ++ le 8 logicalBatchSeq ++ table.val ++ key, value⟩

/-! ## What is written decodes to itself -/

structure RecordHead.Written (head : RecordHead) : Prop where
  base : head.baseSeq < head.batchSeq
  batch : Fits 8 head.batchSeq
  low : head.kind.bodyBounds.1 ≤ head.bodyLen
  high : head.bodyLen ≤ head.kind.bodyBounds.2
  crc : Fits 4 head.bodyCrc

@[simp] theorem length_recordMagic : recordMagic.length = 4 := by decide

@[simp] theorem length_headFields (head : RecordHead) : (headFields head).flatten.length = 32 := by
  simp [headFields]

@[simp] theorem length_recordHeader (gid : ℕ) (at' : LogPosition) (head : RecordHead) :
    (recordHeader gid at' head).length = 36 := by
  simp [recordHeader, headFields]

theorem header_magic (gid : ℕ) (at' : LogPosition) (head : RecordHead) :
    slice 0 4 (recordHeader gid at' head) = recordMagic := by
  simp [recordHeader, headFields]

theorem header_body (gid : ℕ) (at' : LogPosition) (head : RecordHead) :
    slice 0 32 (recordHeader gid at' head) = (headFields head).flatten := by
  rw [recordHeader, flatten_append]
  exact slice_front (length_headFields head)

theorem header_checksum (gid : ℕ) (at' : LogPosition) (head : RecordHead) : slice 32 36
    (recordHeader gid at' head) = le 4 (headerChecksum gid at' (headFields head).flatten) := by
  simp [recordHeader, headFields]

theorem header_valid (gid : ℕ) (at' : LogPosition) (head : RecordHead) :
    HeaderValid gid at' (recordHeader gid at' head) := by
  refine ⟨header_magic gid at' head, ?_⟩
  rw [header_checksum, header_body]
  exact unle_le (crc32c_fits _)

variable {bs : List Byte}

theorem decodeRecordHeader_invalid (h : ¬ HeaderValid gid at' bs) :
    decodeRecordHeader bs gid at' = .ok none := by
  simp only [decodeRecordHeader, h, not_false_eq_true, if_true]
  rfl

theorem decodeRecordHeader_header (gid : ℕ) (at' : LogPosition) {head : RecordHead} (hw :
    head.Written) : decodeRecordHeader (recordHeader gid at' head) gid at' = .ok (some head) := by
  have hk : Fits 1 head.kind.tag := by
    have := head.kind.tag_lt
    simp only [Fits]; omega
  have hb : Fits 8 head.baseSeq := Nat.lt_trans hw.base hw.batch
  have hl : Fits 4 head.bodyLen := by
    have := head.kind.bodyBounds_fits
    have := hw.high
    simp only [Fits]; omega
  have ho : ¬ (head.baseSeq ≥ head.batchSeq ∨ head.bodyLen < head.kind.bodyBounds.1 ∨
      head.bodyLen > head.kind.bodyBounds.2) := by
    have := hw.base; have := hw.low; have := hw.high
    omega
  simp only [decodeRecordHeader, header_valid, not_true_eq_false, if_false]
  simp [recordHeader, headFields, unle_le hk, unle_le hw.batch, unle_le hb, unle_le hl,
    unle_le hw.crc, ho]
  rfl

@[simp] theorem length_segmentHeader (gid sid : ℕ) : (segmentHeader gid sid).length = 64 := by
  simp [segmentHeader, segmentHeaderFields, segmentMagic, magicStem]

theorem segmentHeader_take (gid sid : ℕ) : (segmentHeader gid sid).take 16 = segmentMagic 52 := by
  simp [segmentHeader, segmentHeaderFields, segmentMagic, magicStem]

theorem rejectLegacy_ok (h : bs.take 16 ≠ legacyMagic)
    (h' : ∀ v ∈ [(49 : Byte), 50, 51], bs.take 16 ≠ segmentMagic v) : rejectLegacy bs = .ok () := by
  have h1 := h' 49 (by simp)
  have h2 := h' 50 (by simp)
  have h3 := h' 51 (by simp)
  simp only [rejectLegacy, h, h1, h2, h3, if_false]
  rfl

theorem decodeSegmentHeader_header (hs : Fits 8 sid) :
    decodeSegmentHeader (segmentHeader gid sid) gid sid = .ok .valid := by
  have hl : rejectLegacy (segmentHeader gid sid) = .ok () := by
    apply rejectLegacy_ok
    · rw [segmentHeader_take]
      simp [segmentMagic, legacyMagic]
    · rw [segmentHeader_take]
      simp [segmentMagic]
  have hm : (segmentMagic 52).length = 16 := rfl
  have hz : isZero (segmentHeader gid sid) = false := by
    simp [isZero, segmentHeader, segmentHeaderFields, segmentMagic, magicStem]
  have hv : unle (le 4 formatVersion) = formatVersion := unle_le (by decide)
  have hbody : slice 0 60 (segmentHeader gid sid) =
      (segmentHeaderFields gid sid).flatten := by
    rw [segmentHeader, flatten_append]
    exact slice_front (by simp [segmentHeaderFields, hm])
  simp only [decodeSegmentHeader, hl, hz, hbody, length_segmentHeader]
  simp [segmentHeaderBytes, segmentHeader, segmentHeaderFields, hm, hv, unle_le hs,
    unle_le (crc32c_fits _)]

variable {commit : CommitBody}

theorem length_commitBytes (h : commit.directory.length = directoryRootBytes) :
    commit.bytes.length = commitBodyBytes := by
  simp [CommitBody.bytes, commitFields, commitBodyBytes, h]
  omega

theorem decodeCommitBody_bytes (hp : 0 < commit.opCount) (hm : commit.opCount ≤ maxBatchOperations)
    (ho : Fits 32 commit.opsSha256) (hch : Fits 32 commit.chainSha256) :
    decodeCommitBody commit.bytes = .ok commit := by
  have hc : Fits 4 commit.opCount := by
    simp only [maxBatchOperations] at hm
    simp only [Fits]; omega
  have hok : ¬ (commit.opCount = 0 ∨ commit.opCount > maxBatchOperations) := by omega
  simp [decodeCommitBody, CommitBody.bytes, commitFields, unle_le hc, unle_le ho, unle_le hch,
    hok, drop_append, drop_of_length_le]
  rfl

/-- The bytes of a put (no `extra`) or of a relocation (its logical version). -/
def valueFields (table key value : List Byte) (crc : ℕ) (extra : List Byte) : List (List Byte) :=
  [le 2 table.length, le 2 key.length, le 4 value.length, le 4 crc, zeros 4, extra, table, key,
    value]

theorem text_ok (tab : Text) (h : tab.val ≠ []) (hm : tab.val.length ≤ maxTableBytes) :
    text tab.val = .ok tab := by
  have hl : ¬ tab.val.length > maxTableBytes := by omega
  simp only [text, h, hl, or_self, if_false, tab.2, dite_true]
  rfl

theorem table_fits {tab : Text} (h : tab.val.length ≤ maxTableBytes) : Fits 2 tab.val.length := by
  simp only [maxTableBytes] at h
  omega

theorem key_fits {key : List Byte} (h : key.length ≤ maxKeyBytes) : Fits 2 key.length := by
  simp only [maxKeyBytes] at h
  omega

section Values

variable {op : EncodedOp} {tab : Text} {key value extra : List Byte} {start : ℕ}
  (hbody : op.body = (valueFields tab.val key value (crc32c value) extra).flatten)
  (ht : tab.val.length ≤ maxTableBytes) (hk : key.length ≤ maxKeyBytes)
  (hx : start ≤ relocatePrefixBytes)
include hbody ht hk hx

theorem value_field (i : ℕ) {f : List Byte}
    (h : (valueFields tab.val key value (crc32c value) extra)[i]? = some f)
    (ha : (((valueFields tab.val key value (crc32c value) extra).take i).map List.length).sum = a)
    (hb : a + f.length = b) (hm : b ≤ start + tab.val.length + key.length) :
    slice a b (op.body.take maxInlineBody) = f := by
  rw [slice_take (by simp only [maxInlineBody]; omega), hbody]
  exact slice_nth i h ha hb

variable (hs : 16 + extra.length = start)
include hs

theorem value_inline :
    start + tab.val.length + key.length ≤ (op.body.take maxInlineBody).length := by
  simp only [hbody, length_take, valueFields, flatten_cons, flatten_nil,
    length_append, length_le, length_zeros, length_nil, maxInlineBody]
  omega

variable (hkind : (op.kind = .put ∧ start = putPrefixBytes) ∨
  (op.kind = .relocate ∧ start = relocatePrefixBytes))
include hkind

theorem value_start : valueStart op.kind (op.body.take maxInlineBody) =
    start + tab.val.length + key.length := by
  have hi := value_inline hbody ht hk hx hs
  have h0 := value_field hbody ht hk hx 0 rfl (a := 0) (b := 2) rfl (by simp) (by omega)
  have h2 := value_field hbody ht hk hx 1 rfl (a := 2) (b := 4) (by simp [valueFields])
    (by simp) (by omega)
  rcases hkind with ⟨hkind, rfl⟩ | ⟨hkind, rfl⟩ <;>
    simp only [valueStart, hkind, h0, h2, unle_le (table_fits ht), unle_le (key_fits hk)] <;> omega

theorem decodeValue_fields (batchSeq baseSeq sid bodyAt : ℕ) (hn : tab.val ≠ [])
    (hv : value.length ≤ maxValueBytes)
    (hb : op.bodyLen = start + tab.val.length + key.length + value.length) :
    decodeValue (op.head batchSeq baseSeq) (op.body.take maxInlineBody)
        (crc32c (op.body.drop (valueStart op.kind (op.body.take maxInlineBody)))) sid bodyAt start =
      .ok (tab, key, ⟨sid, bodyAt + (start + tab.val.length + key.length),
        value.length, crc32c value⟩) := by
  have hd : op.body.drop (start + tab.val.length + key.length) = value := by
    rw [hbody, drop_nth 8 (by simp [valueFields]; omega)]
    simp [valueFields]
  rw [value_start hbody ht hk hx hs hkind, hd]
  have hi := value_inline hbody ht hk hx hs
  have field := @value_field op tab key value extra start hbody ht hk hx
  have h0 := field 0 rfl (a := 0) (b := 2) rfl (by simp) (by omega)
  have h2 := field 1 rfl (a := 2) (b := 4) (by simp [valueFields]) (by simp) (by omega)
  have h4 := field 2 rfl (a := 4) (b := 8) (by simp [valueFields]) (by simp) (by omega)
  have h8 := field 3 rfl (a := 8) (b := 12) (by simp [valueFields]) (by simp) (by omega)
  have h12 := field 4 rfl (a := 12) (b := 16) (by simp [valueFields]) (by simp) (by omega)
  have h16 := field 6 rfl (a := start) (b := start + tab.val.length)
    (by simp [valueFields]; omega) rfl (by omega)
  have hke := field 7 rfl (a := start + tab.val.length)
    (b := start + tab.val.length + key.length) (by simp [valueFields]; omega) rfl le_rfl
  have fv : Fits 4 value.length := by simp only [maxValueBytes] at hv; simp only [Fits]; omega
  have ho : ¬ (key.length > maxKeyBytes ∨ value.length > maxValueBytes ∨
      start + tab.val.length + key.length > (op.body.take maxInlineBody).length ∨
      start + tab.val.length + key.length + value.length ≠ (op.head batchSeq baseSeq).bodyLen) := by
    have : (op.head batchSeq baseSeq).bodyLen = op.bodyLen := rfl
    omega
  simp only [not_or] at ho
  obtain ⟨o1, o2, o3, o4⟩ := ho
  simp only [decodeValue, h0, h2, h4, h8, h12, unle_le (table_fits ht), unle_le (key_fits hk),
    unle_le fv, unle_le (crc32c_fits value), o1, o2, o3, o4, h16, hke, text_ok tab hn ht,
    isZero_zeros, ne_eq, not_true_eq_false, or_self, if_false]
  rfl

end Values

/-! ## Operation records read back -/

def Operation.table : Operation → Text
  | .createTable table | .put table _ _ | .delete table _ => table

def Operation.key : Operation → List Byte
  | .createTable _ => []
  | .put _ key _ | .delete _ key => key

def Operation.value : Operation → List Byte
  | .put _ _ value => value
  | _ => []

structure Operation.Bounded (op : Operation) : Prop where
  named : op.table.val ≠ []
  table : op.table.val.length ≤ maxTableBytes
  key : op.key.length ≤ maxKeyBytes
  value : op.value.length ≤ maxValueBytes

/-- What replay visits for an operation whose body starts at an offset of a segment. -/
def Operation.replayed (op : Operation) (segmentId bodyAt : ℕ) : ReplayedRecord :=
  match op with
  | .createTable table => .createTable table
  | .put table key value => .put table key
      ⟨segmentId, bodyAt + (encodeOp op).inline.length, value.length, crc32c value⟩
  | .delete table key => .delete table key

def MaintenanceOp.replayed (op : MaintenanceOp) (value : List Byte) (segmentId bodyAt : ℕ) :
    ReplayedRecord :=
  match op with
  | .directoryOnly => .directoryOnly
  | .relocate table key logicalBatchSeq source => .relocate table key logicalBatchSeq
      ⟨segmentId, bodyAt + (encodeMaintenance value op).inline.length, source.len, source.crc⟩

def ReplayedRecord.bytes : ReplayedRecord → ℕ
  | .createTable table => table.val.length
  | .put table key value | .relocate table key _ value =>
    table.val.length + key.length + value.len
  | .delete table key => table.val.length + key.length
  | .directoryOnly => 0

/-- A well-formed operation record, whose body decodes to `record` wherever it lies. -/
structure Decodes (op : EncodedOp) (baseSeq : ℕ) (record : ℕ → ℕ → ReplayedRecord) : Prop where
  operation : op.kind.isOperation = true
  low : op.kind.bodyBounds.1 ≤ op.bodyLen
  high : op.bodyLen ≤ op.kind.bodyBounds.2
  decodes : ∀ batchSeq segmentId bodyAt,
    decodeOperation (op.head batchSeq baseSeq) op.body segmentId bodyAt =
      .ok (record segmentId bodyAt)

theorem take_inline (h : bs.length ≤ maxInlineBody) :
    bs.take maxInlineBody = bs := take_of_length_le h

theorem createTable_decodes (baseSeq : ℕ) (hb : (Operation.createTable tab).Bounded) :
    Decodes (encodeOp (.createTable tab)) baseSeq (Operation.createTable tab).replayed := by
  have hn : tab.val ≠ [] := hb.named
  have ht : tab.val.length ≤ maxTableBytes := hb.table
  have hp : 0 < tab.val.length := length_pos_of_ne_nil hn
  refine ⟨rfl, ?_, ?_, ?_⟩
  · simpa [encodeOp, EncodedOp.bodyLen, RecordKind.bodyBounds] using Nat.succ_le_of_lt hp
  · simpa [encodeOp, EncodedOp.bodyLen, RecordKind.bodyBounds] using ht
  intro batchSeq sid bodyAt
  have hi : tab.val.take maxInlineBody = tab.val :=
    take_inline (by simp only [maxInlineBody]; omega)
  simp only [decodeOperation, encodeOp, EncodedOp.head, EncodedOp.body, append_nil, hi,
    text_ok tab hn ht]
  rfl

theorem delete_decodes {tab : Text} (baseSeq : ℕ) (hb : (Operation.delete tab key).Bounded) :
    Decodes (encodeOp (.delete tab key)) baseSeq (Operation.delete tab key).replayed := by
  set op := encodeOp (.delete tab key) with hop
  have hn : tab.val ≠ [] := hb.named
  have ht : tab.val.length ≤ maxTableBytes := hb.table
  have hk : key.length ≤ maxKeyBytes := hb.key
  have hp : 0 < tab.val.length := length_pos_of_ne_nil hn
  have hbody : op.body = [le 2 tab.val.length, le 2 key.length, tab.val, key].flatten := by
    simp [hop, encodeOp, EncodedOp.body]
  have hl : op.body.length = 4 + tab.val.length + key.length := by
    rw [hbody]; simp; omega
  refine ⟨rfl, ?_, ?_, ?_⟩
  · simp [hop, encodeOp, EncodedOp.bodyLen, RecordKind.bodyBounds, deletePrefixBytes]
    omega
  · simp [hop, encodeOp, EncodedOp.bodyLen, RecordKind.bodyBounds, deletePrefixBytes]
    omega
  intro batchSeq sid bodyAt
  have hi : op.body.take maxInlineBody = _ := take_inline
    (by rw [hl]; simp only [maxInlineBody, relocatePrefixBytes, putPrefixBytes]; omega)
  have h0 : slice 0 2 op.body = le 2 tab.val.length := by
    rw [hbody]; exact slice_nth 0 rfl rfl (by simp)
  have h2 : slice 2 4 op.body = le 2 key.length := by
    rw [hbody]; exact slice_nth 1 rfl (by simp) (by simp)
  have h4 : slice deletePrefixBytes (deletePrefixBytes + tab.val.length) op.body = tab.val := by
    rw [hbody]; exact slice_nth 2 rfl (by simp [deletePrefixBytes]) rfl
  have hke : op.body.drop (deletePrefixBytes + tab.val.length) = key := by
    rw [hbody, drop_nth 3 (by simp [deletePrefixBytes]; omega)]
    simp
  have ho : ¬ (deletePrefixBytes + tab.val.length + key.length ≠
      op.body.length ∨ key.length > maxKeyBytes) := by
    rw [hl]; simp only [deletePrefixBytes]; omega
  have hkind : (op.head batchSeq baseSeq).kind = .delete := rfl
  simp only [decodeOperation, hkind, hi, h0, h2, unle_le (table_fits ht),
    unle_le (key_fits hk), h4, hke, text_ok tab hn ht, ho, if_false]
  rfl

theorem put_decodes (baseSeq : ℕ) (hb : (Operation.put tab key value).Bounded) :
    Decodes (encodeOp (.put tab key value)) baseSeq (Operation.put tab key value).replayed := by
  have hn : tab.val ≠ [] := hb.named
  have ht : tab.val.length ≤ maxTableBytes := hb.table
  have hk : key.length ≤ maxKeyBytes := hb.key
  have hv : value.length ≤ maxValueBytes := hb.value
  have hpo : 0 < tab.val.length := length_pos_of_ne_nil hn
  have hbody : (encodeOp (.put tab key value)).body =
      (valueFields tab.val key value (crc32c value) []).flatten := by
    simp [encodeOp, EncodedOp.body, putPrefix, valueFields]
  have hi : (encodeOp (.put tab key value)).inline.length =
      16 + tab.val.length + key.length := by
    simp [encodeOp, putPrefix]
    omega
  have hl : (encodeOp (.put tab key value)).bodyLen =
      16 + tab.val.length + key.length + value.length := by
    rw [EncodedOp.bodyLen, hi]
    rfl
  refine ⟨rfl, ?_, ?_, ?_⟩
  · rw [hl]
    simp only [RecordKind.bodyBounds, encodeOp, putPrefixBytes]
    omega
  · rw [hl]
    simp only [RecordKind.bodyBounds, encodeOp, maxInlineBody, relocatePrefixBytes, putPrefixBytes]
    omega
  intro batchSeq sid bodyAt
  have hkind : ((encodeOp (.put tab key value)).head batchSeq baseSeq).kind = .put := rfl
  have hs : 16 + ([] : List Byte).length = 16 := rfl
  have hd := decodeValue_fields hbody ht hk (by decide) hs (.inl ⟨rfl, rfl⟩) batchSeq baseSeq
    sid bodyAt hn hv hl
  have hp : (encodeOp (.put tab key value)).kind = .put := rfl
  rw [hp] at hd
  simp only [decodeOperation, hkind, putPrefixBytes, Operation.replayed, hi, hd]
  rfl

theorem encodeOp_decodes (baseSeq : ℕ) (hb : op.Bounded) :
    Decodes (encodeOp op) baseSeq op.replayed := by
  cases op with
  | createTable tab => exact createTable_decodes baseSeq hb
  | put tab key value => exact put_decodes baseSeq hb
  | delete tab key => exact delete_decodes baseSeq hb

/-- The checks of `maintenance_operation_bytes` and the version bound of the batch. -/
structure MaintenanceOp.Bounded (op : MaintenanceOp) (baseSeq : ℕ) : Prop where
  named : ∀ t k n v, op = .relocate t k n v → t.val ≠ []
  table : ∀ t k n v, op = .relocate t k n v → t.val.length ≤ maxTableBytes
  key : ∀ t k n v, op = .relocate t k n v → k.length ≤ maxKeyBytes
  value : ∀ t k n v, op = .relocate t k n v → v.len ≤ maxValueBytes
  version : ∀ t k n v, op = .relocate t k n v → 0 < n ∧ n ≤ baseSeq

/-- The bytes a relocation copies: as long as the source says, with its checksum. -/
def MaintenanceOp.Source (op : MaintenanceOp) (value : List Byte) : Prop :=
  match op with
  | .directoryOnly => value = []
  | .relocate _ _ _ source => value.length = source.len ∧ crc32c value = source.crc

variable {baseSeq : ℕ}

theorem relocate_decodes (hv : Fits 8 baseSeq)
    (hb : (MaintenanceOp.relocate tab key version source).Bounded baseSeq)
    (hs : (MaintenanceOp.relocate tab key version source).Source value) :
    Decodes (encodeMaintenance value (.relocate tab key version source)) baseSeq
      ((MaintenanceOp.relocate tab key version source).replayed value) := by
  set op := encodeMaintenance value (.relocate tab key version source) with hop
  obtain ⟨hl, hc⟩ := hs
  have hne := hb.named _ _ _ _ rfl
  have ht := hb.table _ _ _ _ rfl
  have hk := hb.key _ _ _ _ rfl
  have hm := hb.value _ _ _ _ rfl
  obtain ⟨hn, hnb⟩ := hb.version _ _ _ _ rfl
  have hp : 0 < tab.val.length := length_pos_of_ne_nil hne
  rw [← hl] at hm
  have hbody : op.body = (valueFields tab.val key value (crc32c value) (le 8 version)).flatten := by
    simp [hop, encodeMaintenance, EncodedOp.body, valueFields, hl, hc]
  have hi : op.inline.length = 24 + tab.val.length + key.length := by
    simp [hop, encodeMaintenance]
    omega
  have hle : op.bodyLen = 24 + tab.val.length + key.length + value.length := by
    rw [EncodedOp.bodyLen, hi]
    rfl
  refine ⟨rfl, ?_, ?_, ?_⟩
  · rw [hle]
    simp only [RecordKind.bodyBounds, hop, encodeMaintenance, relocatePrefixBytes, putPrefixBytes]
    omega
  · rw [hle]
    simp only [RecordKind.bodyBounds, hop, encodeMaintenance, maxInlineBody, relocatePrefixBytes,
      putPrefixBytes]
    omega
  intro batchSeq sid bodyAt
  have hs : 16 + (le 8 version).length = 24 := by simp
  have hkind : (op.head batchSeq baseSeq).kind = .relocate := rfl
  have hd := decodeValue_fields hbody ht hk (by decide) hs (.inr ⟨rfl, rfl⟩) batchSeq baseSeq
    sid bodyAt hne hm hle
  have h16 := value_field hbody ht hk (by decide : 24 ≤ relocatePrefixBytes) 5 rfl (a := 16)
    (b := 24) (by simp [valueFields]) (by simp) (by omega)
  have hmo : op.kind = .relocate := rfl
  rw [hmo] at hd
  have fn : Fits 8 version := Nat.lt_of_le_of_lt hnb hv
  have ho : ¬ (version = 0 ∨ version > baseSeq) := by omega
  have hba : (op.head batchSeq baseSeq).baseSeq = baseSeq := rfl
  simp only [decodeOperation, hkind, relocatePrefixBytes, putPrefixBytes, MaintenanceOp.replayed,
    ← hop, hi, hd, h16, unle_le fn, bind, Except.bind, hba, ho, if_false, ← hl, ← hc, Nat.reduceAdd]
  rfl

theorem encodeMaintenance_decodes (hv : Fits 8 baseSeq)
    (hb : op.Bounded baseSeq) (hs : op.Source value) :
    Decodes (encodeMaintenance value op) baseSeq (op.replayed value) := by
  cases op with
  | directoryOnly =>
    refine ⟨rfl, le_rfl, le_rfl, fun _ _ _ => ?_⟩
    have hi : (zeros maintenanceBodyBytes).take maxInlineBody = _ :=
      take_inline (by simp only [length_zeros]; decide)
    rfl
  | relocate tab key version source => exact relocate_decodes hv hb hs

theorem encodeMaintenance_decodes_relocated :
    Decodes (encodeMaintenance [1, 2] (.relocate ⟨[116], rfl⟩ [1] 1 ⟨3, 64, 2, crc32c [1, 2]⟩)) 5
      ((MaintenanceOp.relocate ⟨[116], rfl⟩ [1] 1 ⟨3, 64, 2, crc32c [1, 2]⟩).replayed [1, 2]) := by
  refine encodeMaintenance_decodes (by decide) ⟨?_, ?_, ?_, ?_, ?_⟩ ⟨rfl, rfl⟩ <;>
    (rintro _ _ _ _ ⟨⟩; decide)

end SegmentRecords
