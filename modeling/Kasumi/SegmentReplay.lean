import Kasumi.SegmentRecords

/-! Replay of the segmented log: committed batches in order, then the decision whether
damage in the newest segment is an interrupted append. -/
namespace SegmentReplay

open ByteFields MediaFormat SegmentRecords
open DirectoryPages (CoreError DirectoryRoot maxU64 segmentHeaderBytes recordHeaderBytes)
open RootFormat (Digest LogPosition ReplayStart SealedSegment commitRecordBytes)

structure PreparedIdentity where
  groupId : ℕ
  batchSeq : ℕ
  start : ReplayStart
  endAt : LogPosition
  opsSha256 : Digest
  operationCount : ℕ
  deriving DecidableEq

structure ReplayPolicy where
  maxOperations : ℕ
  retainRecords : Bool
  prepared : Option PreparedIdentity

structure LogBounds where
  lastSegmentId : ℕ
  pendingSegment : Option ℕ
  sealed : Option SealedSegment

structure ReplayedBatch where
  endAt : LogPosition
  batchSeq : ℕ
  chain : Digest
  directoryRoot : DirectoryRoot Digest
  records : List ReplayedRecord

inductive BatchKind where
  | user
  | relocation
  | directoryOnly
  deriving DecidableEq

/-- `ops` is the message the operation digest has absorbed. -/
structure PendingBatch where
  batchSeq : ℕ
  directoryRoot : Option (DirectoryRoot Digest)
  records : List ReplayedRecord
  opCount : ℕ
  bytes : ℕ
  encodedBytes : ℕ
  ops : List Byte
  kind : Option BatchKind

/-- Replay's state, with the batches handed to `visit` so far. -/
structure Replay where
  directoryEnd : Option LogPosition
  directoryRoot : Option (DirectoryRoot Digest)
  batchSeq : ℕ
  chain : Digest
  maxSeen : ℕ
  pending : Option PendingBatch
  segmentAttempt : Option ℕ
  visited : List ReplayedBatch

inductive Scanned where
  | record
  | commit
  | damage

def replayGenesis : ReplayStart := ⟨⟨1, segmentHeaderBytes⟩, 0, 0⟩

def Replay.init (start : ReplayStart) : Replay :=
  ⟨none, none, start.batchSeq, start.chain, start.batchSeq, none, none, []⟩

/-- Some byte is neither zero nor the one written: not what an interrupted write leaves. -/
def otherThanWritten (bytes written : List Byte) : Bool :=
  (bytes.zip written).any fun p => p.1 ≠ 0 ∧ p.1 ≠ p.2

variable (sha : Sha256) (gid : ℕ) (policy : ReplayPolicy)

def PendingBatch.push (p : PendingBatch) (record : ReplayedRecord) :
    Except CoreError PendingBatch :=
  let bytes := p.bytes + record.bytes
  if p.opCount ≥ maxBatchOperations ∨ bytes > maxBatchBytes then
    throw (.corrupt "batch exceeds its physical bounds")
  else pure { p with
    bytes := bytes
    opCount := p.opCount + 1
    records := if policy.retainRecords then p.records ++ [record] else p.records }

namespace Replay

def pendingFor (r : Replay) (batchSeq : ℕ) : Except CoreError PendingBatch :=
  let fresh : Except CoreError PendingBatch :=
    if batchSeq ≤ r.batchSeq then throw (.corrupt "batch sequence regressed")
    else pure ⟨batchSeq, none, [], 0, 0, 0, [], none⟩
  match r.pending with
  | none => fresh
  | some pending =>
    if pending.batchSeq = batchSeq then pure pending
    else if pending.batchSeq > batchSeq then throw (.corrupt "batch sequence regressed")
    -- A later sequence abandons trailing records that never committed.
    else fresh

def commit (r : Replay) (batchSeq : ℕ) (endAt : LogPosition) (body : CommitBody) :
    Except CoreError Replay :=
  match r.pending.filter (·.batchSeq = batchSeq) with
  | none => throw (.corrupt "commit record has no matching batch")
  | some pending =>
    let opsSha256 := (sha pending.ops).val
    if pending.opCount ≠ body.opCount then
      throw (.corrupt "commit operation count differs")
    else if opsSha256 ≠ body.opsSha256 then
      throw (.corrupt "commit operation digest differs")
    else match pending.directoryRoot with
      | none => throw (.corrupt "commit has no prepared directory root")
      | some directoryRoot => do
        directoryRoot.validate
        let chain := chainDigest sha gid r.chain batchSeq body.opCount opsSha256 body.directory
        if encodeDirectoryRoot directoryRoot ≠ body.directory then
          throw (.corrupt "commit directory root differs")
        else if chain ≠ body.chainSha256 then throw (.corrupt "commit chain differs")
        else pure { r with
          batchSeq := batchSeq
          chain := chain
          pending := none
          directoryRoot := some directoryRoot
          directoryEnd := some endAt
          visited := r.visited ++ [⟨endAt, batchSeq, chain, directoryRoot, pending.records⟩] }

def follows (r : Replay) (head : RecordHead) : Except CoreError Unit :=
  if policy.prepared.any (head.batchSeq ≠ ·.batchSeq) then
    throw (.corrupt "prepared operation batch differs")
  else if policy.prepared.isSome ∧ (head.kind = .commit ∨ head.kind = .directory) then
    throw (.corrupt "prepared prefix contains a publication record")
  else if head.baseSeq ≠ r.batchSeq then
    throw (.corrupt "segment record does not follow the newest commit")
  else pure ()

/-- Records between two commits of one segment are one batch attempt. -/
def attempt (r : Replay) (batchSeq : ℕ) : Except CoreError Replay :=
  if r.segmentAttempt.any (· ≠ batchSeq) then
    throw (.corrupt "segment interleaves two uncommitted batches")
  else pure { r with segmentAttempt := some batchSeq, maxSeen := max r.maxSeen batchSeq }

def directory (r : Replay) (head : RecordHead) (bytes : List Byte) : Except CoreError Replay := do
  let directoryRoot ← decodeDirectoryRoot bytes
  if directoryRoot.groupId ≠ gid ∨ directoryRoot.generation ≠ head.batchSeq then
    throw (.corrupt "directory root does not name its batch")
  else match r.pending.filter fun p => p.batchSeq = head.batchSeq ∧ p.opCount ≠ 0 with
    | none => throw (.corrupt "directory root has no matching batch")
    | some pending =>
      if pending.directoryRoot.isSome then throw (.corrupt "batch has two directory roots")
      else pure { r with pending := some { pending with directoryRoot := some directoryRoot } }

def batchKind : RecordKind → BatchKind
  | .relocate => .relocation
  | .maintenance => .directoryOnly
  | _ => .user

/-- The pending batch as it stands before the body of another operation record is read. -/
def expect (r : Replay) (head : RecordHead) : Except CoreError PendingBatch := do
  let pending ← r.pendingFor head.batchSeq
  let kind := batchKind head.kind
  let encodedBytes := pending.encodedBytes + (recordHeaderBytes + head.bodyLen)
  if pending.directoryRoot.isSome then
    throw (.corrupt "operation follows prepared directory root")
  else if pending.opCount ≥ policy.maxOperations then
    throw (.corrupt "batch exceeds replay operation bound")
  else if pending.kind.any (· ≠ kind) ∨ (kind = .directoryOnly ∧ pending.opCount ≠ 0) then
    throw (.corrupt "maintenance batch mixes operations")
  else if kind ≠ .user ∧ pending.opCount ≥ maxMaintenanceOperations then
    throw (.corrupt "maintenance batch exceeds operation bound")
  else if encodedBytes > maxU64 then throw (.corrupt "batch encoded size overflows")
  else if kind ≠ .user ∧ encodedBytes > maxBatchBytes then
    throw (.corrupt "maintenance batch exceeds encoded byte bound")
  else pure { pending with encodedBytes := encodedBytes, kind := some kind }

/-- The effect of a record whose header decoded and whose body lies in the file. -/
def scan (r : Replay) (segmentId offset : ℕ) (header : List Byte) (head : RecordHead)
    (body : List Byte) : Except CoreError (Scanned × Replay) := do
  let bodyAt := offset + recordHeaderBytes
  if head.kind = .commit then
    if crc32c body ≠ head.bodyCrc then pure (.damage, r)
    else do
      let commitBody ← decodeCommitBody body
      let r ← r.commit sha gid head.batchSeq ⟨segmentId, bodyAt + head.bodyLen⟩ commitBody
      pure (.commit, { r with segmentAttempt := none })
  else do
    let r ← r.attempt head.batchSeq
    if head.kind = .directory then
      if crc32c body ≠ head.bodyCrc then pure (.damage, r)
      else do
        let r ← r.directory gid head body
        pure (.record, r)
    else do
      let pending ← r.expect policy head
      let pending := { pending with ops := pending.ops ++ header ++ body }
      if crc32c body ≠ head.bodyCrc then pure (.damage, { r with pending := some pending })
      else do
        let record ← decodeOperation head body segmentId bodyAt
        let pending ← pending.push policy record
        pure (.record, { r with pending := some pending })

def record (r : Replay) (file : List Byte) (segmentId offset : ℕ) :
    Except CoreError (Scanned × Replay × ℕ) := do
  if file.length - offset < recordHeaderBytes then pure (.damage, r, offset)
  else do
    let header := slice offset (offset + recordHeaderBytes) file
    match ← decodeRecordHeader header gid ⟨segmentId, offset⟩ with
    | none => pure (.damage, r, offset + recordHeaderBytes)
    | some head => do
      r.follows policy head
      let bodyAt := offset + recordHeaderBytes
      if head.bodyLen > file.length - bodyAt then pure (.damage, r, bodyAt)
      else do
        let body := slice bodyAt (bodyAt + head.bodyLen) file
        let (scanned, r) ← r.scan sha gid policy segmentId offset header head body
        pure (scanned, r, bodyAt + head.bodyLen)

/-- The commit record the writer appends at `at'` for the pending batch. -/
def pendingCommit (r : Replay) (at' : LogPosition) : Option (List Byte) := do
  let pending ← r.pending
  let root ← pending.directoryRoot
  if root.validate ≠ .ok () then none
  let directory := encodeDirectoryRoot root
  let opsSha256 := (sha pending.ops).val
  some (commitRecord gid at' pending.batchSeq r.batchSeq ⟨pending.opCount, opsSha256,
    chainDigest sha gid r.chain pending.batchSeq pending.opCount opsSha256 directory, directory⟩)

def searchHeaders (r : Replay) (file : List Byte) (segmentId start : ℕ) :
    (count offset : ℕ) → (attempt : Option ℕ) → Except CoreError (Option ℕ)
  | 0, _, attempt => pure attempt
  | count + 1, offset, attempt => do
    let header := slice offset (offset + recordHeaderBytes) file
    if slice 0 4 header ≠ recordMagic then
      searchHeaders r file segmentId start count (offset + 1) attempt
    else match ← decodeRecordHeader header gid ⟨segmentId, offset⟩ with
      | none => searchHeaders r file segmentId start count (offset + 1) attempt
      | some head =>
        let first := attempt.getD head.batchSeq
        if head.baseSeq ≠ r.batchSeq then
          throw (.corrupt "damaged record precedes a record of a later commit")
        else if first ≠ head.batchSeq then
          throw (.corrupt "damaged record precedes records of another batch")
        else if (head.kind = .directory ∨ head.kind = .commit) ∧ offset ≠ start then
          throw (.corrupt "record before a synchronized batch boundary is damaged")
        else searchHeaders r file segmentId start count (offset + 1) (some first)

/-- Windows overlap by one header less a byte, so every candidate header is whole in one. -/
def searchWindows (r : Replay) (file : List Byte) (segmentId start : ℕ) :
    (fuel offset : ℕ) → (attempt : Option ℕ) → Except CoreError (Option ℕ)
  | 0, _, attempt => pure attempt
  | fuel + 1, offset, attempt =>
    if file.length - offset < recordHeaderBytes then pure attempt
    else do
      let fill := min (file.length - offset) searchWindow
      let scanned := fill - recordHeaderBytes + 1
      let attempt ← r.searchHeaders gid file segmentId start scanned offset attempt
      if offset + fill = file.length then pure attempt
      else searchWindows r file segmentId start fuel (offset + scanned) attempt

/-- Pass every record from `offset` that was written whole; `fuel` bounds their number. -/
def interruptedAt (file : List Byte) (segmentId : ℕ) :
    (fuel offset : ℕ) → Except CoreError ℕ
  | 0, offset => pure offset
  | fuel + 1, offset =>
    if file.length - offset < recordHeaderBytes then pure offset
    else do
      let header := slice offset (offset + recordHeaderBytes) file
      match ← decodeRecordHeader header gid ⟨segmentId, offset⟩ with
      | none => pure offset
      | some head =>
        let next := offset + recordHeaderBytes + head.bodyLen
        if head.kind = .commit ∨ next > file.length then pure offset
        else interruptedAt file segmentId fuel next

/-- A byte of an operation or directory record header, as far as replay knows it. -/
def asWritten (r : Replay) (attempt : Option ℕ) (index : ℕ) (byte : Byte) : Bool :=
  if index < 4 then recordMagic[index]? = some byte
  else if index = 4 then (RecordKind.fromTag byte.val).any (· ≠ .commit)
  else if index < 8 then false
  else if index < 16 then attempt.all fun batch => (le 8 batch)[index - 8]? = some byte
  else if index < 24 then (le 8 r.batchSeq)[index - 16]? = some byte
  else true

def kindAt (bytes : List Byte) (kind : RecordKind) : Bool :=
  bytes[4]?.map (·.val) = some kind.tag

/-- The bytes where the interrupted write began, if they are those of a commit. -/
def isCommit (bytes : List Byte) (written : Option (List Byte)) : Bool :=
  kindAt bytes .commit || written.any fun written =>
    recordHeaderBytes ≤ bytes.length ∧ slice 32 36 bytes ≠ zeros 4 ∧
      slice 32 36 bytes = slice 32 36 written

def checkInterruptedWrite (r : Replay) (file : List Byte) (segmentId start : ℕ)
    (attempt : Option ℕ) : Except CoreError Unit := do
  let offset ← interruptedAt gid file segmentId file.length start
  let bytes := slice offset (offset + commitRecordBytes) file
  let written := if offset = start then r.pendingCommit sha gid ⟨segmentId, offset⟩ else none
  if offset ≠ start ∧ kindAt bytes .directory then
    throw (.corrupt "record before a synchronized batch boundary is damaged")
  else if isCommit bytes written then
    if offset ≠ start then
      throw (.corrupt "record before a synchronized batch boundary is damaged")
    else match written with
      | none => throw (.corrupt "commit record has no matching batch")
      | some written =>
        if otherThanWritten bytes written then
          throw (.corrupt "written commit record is damaged")
        else pure ()
  else if bytes.zipIdx.any fun p => p.1 ≠ 0 ∧ ¬ r.asWritten attempt p.2 p.1 then
    throw (.corrupt "damaged tail is not an interrupted write")
  else pure ()

/-- Accept damage at `start` in the newest segment as a torn append, or fail closed. -/
def checkTornTail (r : Replay) (file : List Byte) (segmentId start : ℕ) :
    Except CoreError Unit := do
  let attempt ← r.searchWindows gid file segmentId start file.length start r.segmentAttempt
  r.checkInterruptedWrite sha gid file segmentId start attempt

/-- Read records from `offset` to the end of the file or to the first damage: the state, the
end of the last commit (or the `resume` given) and the offset of the damage. -/
def scanRecords (file : List Byte) (segmentId : ℕ) :
    (fuel : ℕ) → Replay → (offset resume : ℕ) → Except CoreError (Replay × ℕ × Option ℕ)
  | 0, r, _, resume => pure (r, resume, none)
  | fuel + 1, r, offset, resume =>
    if file.length ≤ offset then pure (r, resume, none)
    else do
      match ← r.record sha gid policy file segmentId offset with
      | (.record, r, next) => scanRecords file segmentId fuel r next resume
      | (.commit, r, next) => scanRecords file segmentId fuel r next next
      | (.damage, r, _) => pure (r, resume, some offset)

end Replay

abbrev LogImage := ℕ → Option (List Byte)

structure ReplayEnd where
  directoryEnd : Option LogPosition
  directoryRoot : Option (DirectoryRoot Digest)
  batchSeq : ℕ
  chain : Digest
  nextBatchSeq : ℕ
  resume : Option LogPosition
  finalLen : ℕ
  tailHead : List Byte
  tornAt : Option ℕ
  uncommittedBatch : Option ℕ
  pendingSegment : Option ℕ

/-- Whether the file of an outstanding intent is present; it may hold only its own header. -/
def checkPendingSegment (image : LogImage) (segmentId : ℕ) : Except CoreError Bool :=
  match image segmentId with
  | none => pure false
  | some file =>
    if file.length > segmentHeaderBytes then
      throw (.corrupt "unconfirmed segment holds records")
    else do
      let _ ← decodeSegmentHeader file gid segmentId
      if otherThanWritten file (segmentHeader gid segmentId) then
        throw (.corrupt "unconfirmed segment holds bytes other than its header")
      else pure true

/-- What replay does with the offset of damage that ended a segment's scan. -/
def settleDamage (r : Replay) (file : List Byte) (segmentId : ℕ) (isSealed : Bool) :
    Option ℕ → Except CoreError Unit
  | none => pure ()
  | some offset =>
    if policy.prepared.isSome then throw (.corrupt "synchronized prepared prefix is damaged")
    else if isSealed then throw (.corrupt "sealed segment record is damaged")
    else r.checkTornTail sha gid file segmentId offset

def replayOffset (start : ReplayStart) (segmentId : ℕ) : ℕ :=
  if segmentId = start.position.segmentId then start.position.offset else segmentHeaderBytes

/-- The append position of the newest segment, and the first bytes after it. -/
def ReplayEnd.close (e : ReplayEnd) (file : List Byte) (segmentId resume : ℕ) : ReplayEnd :=
  let tail := slice resume (resume + recordHeaderBytes) file
  { e with
    resume := some ⟨segmentId, resume⟩
    finalLen := file.length
    tailHead := tail ++ zeros (recordHeaderBytes - tail.length) }

def replaySegment (image : LogImage) (start : ReplayStart) (bounds : LogBounds)
    (acc : Replay × ReplayEnd) (segmentId : ℕ) : Except CoreError (Replay × ReplayEnd) :=
  match image segmentId with
  | none => throw (.corrupt "confirmed segment is missing")
  | some file => do
    let newest : Bool := segmentId = bounds.lastSegmentId
    let isSealed := !newest || bounds.pendingSegment.isSome
    let offset := replayOffset start segmentId
    if (← readSegmentHeader file gid segmentId) ≠ .valid then
      throw (.corrupt "confirmed segment header is damaged")
    else if newest ∧ policy.prepared.any (·.endAt.offset ≠ file.length) then
      throw (.corrupt "prepared batch end differs")
    else if offset > file.length then throw (.corrupt "replay start exceeds segment length")
    else do
      let (r, resume, tornAt) ← Replay.scanRecords sha gid policy file segmentId file.length
        { acc.1 with segmentAttempt := none } offset offset
      settleDamage sha gid policy r file segmentId isSealed tornAt
      let e := { acc.2 with tornAt := tornAt.or acc.2.tornAt }
      if bounds.sealed.any (·.segmentId = segmentId) ∧
          bounds.sealed ≠ some ⟨segmentId, file.length, r.batchSeq⟩ then
        throw (.corrupt "sealed segment differs from its root record")
      else if newest then
        pure (r, e.close file segmentId (if isSealed then file.length else resume))
      else pure (r, e)

/-- The tail of a prepared batch that an abort is about to discard. -/
def checkPrepared (r : Replay) : Except CoreError Unit :=
  match policy.prepared with
  | none => pure ()
  | some prepared =>
    match r.pending with
    | none => throw (.corrupt "prepared operation prefix is missing")
    | some pending =>
      if pending.batchSeq ≠ prepared.batchSeq ∨ pending.opCount ≠ prepared.operationCount ∨
          pending.directoryRoot.isSome then
        throw (.corrupt "prepared operation prefix differs")
      else if (sha pending.ops).val ≠ prepared.opsSha256 then
        throw (.corrupt "prepared operation digest differs")
      else pure ()

def ReplayEnd.opened (start : ReplayStart) (bounds : LogBounds) : ReplayEnd :=
  ⟨none, none, start.batchSeq, start.chain, 0, none, 0, zeros recordHeaderBytes, none, none,
    bounds.pendingSegment⟩

def ReplayEnd.finish (e : ReplayEnd) (r : Replay) : ReplayEnd :=
  { e with
    directoryEnd := r.directoryEnd
    directoryRoot := r.directoryRoot
    batchSeq := r.batchSeq
    chain := r.chain
    uncommittedBatch := r.pending.map (·.batchSeq)
    nextBatchSeq := r.maxSeen + 1 }

def replaySegments (image : LogImage) (start : ReplayStart) (bounds : LogBounds) :
    Except CoreError (Replay × ReplayEnd) :=
  let first := start.position.segmentId
  if bounds.lastSegmentId = 0 then
    if start ≠ replayGenesis then throw (.corrupt "replay start names a missing segment")
    else pure (Replay.init start, ReplayEnd.opened start bounds)
  else if first = 0 ∨ first > bounds.lastSegmentId ∨
      start.position.offset < segmentHeaderBytes then
    throw (.corrupt "replay start is outside the log")
  else
    List.foldlM (replaySegment sha gid policy image start bounds)
      (Replay.init start, ReplayEnd.opened start bounds)
      (List.range' first (bounds.lastSegmentId + 1 - first))

/-- The refusals before any segment is read, and the file of an outstanding intent. -/
def checkBounds (image : LogImage) (start : ReplayStart) (bounds : LogBounds) :
    Except CoreError Unit :=
  if policy.prepared.any fun p => p.groupId ≠ gid ∨ p.start ≠ start ∨
      p.endAt.segmentId ≠ bounds.lastSegmentId ∨ bounds.pendingSegment.isSome ∨
      p.operationCount = 0 ∨ p.operationCount ≠ policy.maxOperations ∨ policy.retainRecords then
    throw (.invalidInput "prepared replay token differs")
  else match bounds.pendingSegment with
    | none => pure ()
    | some pending =>
      if pending ≠ bounds.lastSegmentId + 1 then
        throw (.corrupt "segment intent is not the next identifier")
      else do
        let _ ← checkPendingSegment gid image pending
        pure ()

def replayWithPolicy (image : LogImage) (start : ReplayStart) (bounds : LogBounds) :
    Except CoreError (ReplayEnd × List ReplayedBatch) := do
  checkBounds gid policy image start bounds
  let (r, e) ← replaySegments sha gid policy image start bounds
  checkPrepared sha policy r
  if r.maxSeen + 1 > maxU64 then throw (.corrupt "batch sequence overflow")
  else pure (e.finish r, r.visited)

/-- Complete replay; `retainRecords` is false in the root-only replay of a reopen. -/
def replay (retainRecords : Bool) (image : LogImage) (start : ReplayStart) (bounds : LogBounds) :
    Except CoreError (ReplayEnd × List ReplayedBatch) :=
  replayWithPolicy sha gid ⟨maxBatchOperations, retainRecords, none⟩ image start bounds

end SegmentReplay
