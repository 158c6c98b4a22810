import Kasumi.RootPublication
import Kasumi.SegmentReplay

/-! The segment writer: staged operation records, the roll into a new segment under a durable
root intent, the directory preparation and the commit of a batch. Every backend call may be the
one in which the power fails, before or after its effect. -/
namespace SegmentWriter

open ByteFields FallibleState MediaFormat SegmentRecords SegmentReplay
open DirectoryPages (CoreError DirectoryRoot ValueLocation maxU64 maxTableBytes maxKeyBytes
  maxValueBytes segmentBytes segmentHeaderBytes recordHeaderBytes)
open RootFormat (Digest LogPosition ReplayStart SealedSegment Superblock commitRecordBytes)
open RootPublication (Failure rejected)

/-- A file's bytes, of which an issued synchronization covers the first `kept`. -/
structure SegFile where
  bytes : List Byte
  kept : ℕ

namespace SegFile

def write (f : SegFile) (offset : ℕ) (bytes : List Byte) : SegFile :=
  ⟨f.bytes.take offset ++ bytes ++ f.bytes.drop (offset + bytes.length), min f.kept offset⟩

def sync (f : SegFile) : SegFile := ⟨f.bytes, f.bytes.length⟩

def setLen (f : SegFile) (len : ℕ) : SegFile :=
  ⟨f.bytes.take len ++ zeros (len - f.bytes.length), min f.kept len⟩

end SegFile

structure Disk where
  files : ℕ → Option SegFile
  root : Superblock

namespace Disk

def put (d : Disk) (segmentId : ℕ) (file : SegFile) : Disk :=
  { d with files := fun id => if id = segmentId then some file else d.files id }

def update (d : Disk) (segmentId : ℕ) (f : SegFile → SegFile) : Disk :=
  { d with files := fun id => if id = segmentId then (d.files id).map f else d.files id }

def image (d : Disk) : LogImage := fun id => (d.files id).map SegFile.bytes

end Disk

def logBounds (root : Superblock) : LogBounds :=
  ⟨root.lastSegmentId, root.pendingSegment, root.sealed⟩

structure PreparedBatch where
  identity : PreparedIdentity
  values : List (Option ValueLocation)

structure CommittedBatch where
  batchSeq : ℕ
  chain : Digest
  directoryRoot : DirectoryRoot Digest
  values : List (Option ValueLocation)
  endAt : LogPosition

structure Writer where
  groupId : ℕ
  active : Option ℕ
  /-- Logical end, including staged bytes. -/
  endAt : ℕ
  capacity : ℕ
  stage : List Byte
  stageAt : ℕ
  reserved : Option ℕ
  lastBatchSeq : ℕ
  nextBatchSeq : ℕ
  chain : Digest
  fenced : Bool
  prepared : Option PreparedIdentity

namespace Writer

def new (groupId : ℕ) : Writer :=
  ⟨groupId, none, 0, segmentBytes, [], 0, none, 0, 1, 0, false, none⟩

def resume (groupId : ℕ) (e : ReplayEnd) : Writer :=
  let writer := { new groupId with
    reserved := e.pendingSegment
    lastBatchSeq := e.batchSeq
    nextBatchSeq := e.nextBatchSeq
    chain := e.chain }
  match e.resume with
  | none => writer
  | some resume => { writer with
      active := some resume.segmentId, endAt := resume.offset, stageAt := resume.offset }

def position (w : Writer) : Option LogPosition := w.active.map (⟨·, w.endAt⟩)

end Writer

/-- `fault` counts the backend calls until the power fails; `late` says whether the call that
fails has had its effect. -/
structure LogState where
  disk : Disk
  writer : Writer
  fault : Option (ℕ × Bool)

abbrev LogM := Prog LogState Failure

def backendCall (effect : Disk → Disk) : LogM Unit := fun s =>
  match s.fault with
  | none => (.ok (), { s with disk := effect s.disk })
  | some (0, late) =>
    (.error (rejected .io), if late then { s with disk := effect s.disk } else s)
  | some (n + 1, late) => (.ok (), { s with disk := effect s.disk, fault := some (n, late) })

def unknownIo (x : LogM Unit) : LogM Unit := fun s =>
  match x s with
  | (.error e, t) => (.error { e with unknownCommit := true }, t)
  | ok => ok

def refuse {α : Type} (x : Except CoreError α) : LogM α := check (x.mapError rejected)

def modifyWriter (f : Writer → Writer) : LogM Unit := modify fun s => { s with writer := f s.writer }

def fileCall (segmentId : ℕ) (f : SegFile → SegFile) : LogM Unit := do
  let s ← get
  if s.disk.files segmentId = none then throw (rejected .io)
  else backendCall (·.update segmentId f)

def writeFile (segmentId offset : ℕ) (bytes : List Byte) : LogM Unit :=
  fileCall segmentId (·.write offset bytes)

/-- `sync` and `sync_ordered`: both keep what was written before them. -/
def syncFile (segmentId : ℕ) : LogM Unit := fileCall segmentId SegFile.sync

def setLen (segmentId len : ℕ) : LogM Unit := fileCall segmentId (·.setLen len)

def createFile (segmentId : ℕ) : LogM Unit := do
  let s ← get
  if s.disk.files segmentId ≠ none then throw (rejected .io)
  else backendCall (·.put segmentId ⟨[], 0⟩)

/-- `RootRoll`: the durable root takes the intent, or it does not. -/
def reserve (sealed : Option SealedSegment) : LogM ℕ := do
  let s ← get
  let (next, segmentId) ← refuse (s.disk.root.reserveSegment sealed)
  backendCall ({ · with root := next })
  pure segmentId

def confirm (segmentId : ℕ) : LogM Unit := do
  let s ← get
  let next ← refuse (s.disk.root.confirmSegment segmentId)
  backendCall ({ · with root := next })

/-- The newest segment; the writer's invariant gives it one wherever the source expects it. -/
def activeSegment : LogM ℕ := do
  let s ← get
  match s.writer.active with
  | some segmentId => pure segmentId
  | none => throw (rejected .panicked)

def flush : LogM Unit := do
  let s ← get
  if s.writer.stage = [] then
    modifyWriter fun w => { w with stageAt := w.endAt }
  else do
    let segmentId ← activeSegment
    writeFile segmentId s.writer.stageAt s.writer.stage
    modifyWriter fun w => { w with stage := [], stageAt := w.endAt }

def makeRoom (len : ℕ) : LogM Unit := do
  let s ← get
  if s.writer.stage.length + len > ioWindow then flush else pure ()

def stage (bytes : List Byte) : LogM Unit := do
  makeRoom bytes.length
  if bytes.length ≥ ioWindow then do
    let segmentId ← activeSegment
    let s ← get
    writeFile segmentId s.writer.endAt bytes
    modifyWriter fun w =>
      { w with stageAt := w.endAt + bytes.length, endAt := w.endAt + bytes.length }
  else modifyWriter fun w =>
    { w with stage := w.stage ++ bytes, endAt := w.endAt + bytes.length }

/-- Finish the replay-verified intent of an interrupted roll. -/
def takeOverIntent (segmentId : ℕ) : LogM Unit := do
  let s ← get
  let present ← refuse (checkPendingSegment s.writer.groupId s.disk.image segmentId)
  if present then do
    backendCall id
    setLen segmentId 0
  else createFile segmentId

/-- Seal before a successor can exist, so only the newest segment can end in a torn append. -/
def syncActive : LogM Unit := do
  let s ← get
  match s.writer.active with
  | some segmentId => syncFile segmentId
  | none => pure ()

def nextSegment : LogM ℕ := do
  let s ← get
  modifyWriter fun w => { w with reserved := none }
  match s.writer.reserved with
  | some segmentId => do
    takeOverIntent segmentId
    pure segmentId
  | none => do
    let segmentId ← reserve (s.writer.active.map (⟨·, s.writer.endAt, s.writer.lastBatchSeq⟩))
    createFile segmentId
    pure segmentId

def rollSegment : LogM Unit := do
  flush
  syncActive
  let segmentId ← nextSegment
  let s ← get
  writeFile segmentId 0 (segmentHeader s.writer.groupId segmentId)
  syncFile segmentId
  confirm segmentId
  modifyWriter fun w => { w with
    active := some segmentId, endAt := segmentHeaderBytes, stageAt := segmentHeaderBytes }

def ensureRoom (len : ℕ) : LogM Unit := do
  let s ← get
  if s.writer.active.isSome ∧ s.writer.reserved = none ∧
      s.writer.endAt + len ≤ s.writer.capacity then pure ()
  else if len > s.writer.capacity - segmentHeaderBytes then
    throw (rejected (.invalidInput "record exceeds segment capacity"))
  else rollSegment

/-! ## Batches -/

def validateOperations : (bytes : ℕ) → List Operation → Except CoreError Unit
  | _, [] => pure ()
  | bytes, op :: operations =>
    let bytes := bytes + (op.table.val.length + op.key.length + op.value.length)
    if op.table.val.length = 0 ∨ op.table.val.length > maxTableBytes then
      throw (.invalidInput "table name is empty or too long")
    else if op.key.length > maxKeyBytes ∨ op.value.length > maxValueBytes then
      throw (.invalidInput "key or value exceeds storage limit")
    else if bytes > maxBatchBytes then
      throw (.invalidInput "transaction exceeds 96 MiB physical limit")
    else validateOperations bytes operations

def validateBatch (operations : List Operation) : Except CoreError Unit :=
  if operations = [] ∨ operations.length > maxBatchOperations then
    throw (.invalidInput "empty or oversized transaction")
  else validateOperations 0 operations

variable (sha : Sha256)

/-- Any failure after the first effect fences the writer. -/
def fencing {α : Type} (x : LogM α) : LogM α := fun s =>
  match x s with
  | (.error e, t) => (.error e, { t with writer := { t.writer with fenced := true } })
  | ok => ok

def valueLocation (operation : Operation) (segmentId offset : ℕ) : Option ValueLocation :=
  match operation with
  | .put _ _ value => some ⟨segmentId, offset, value.length, crc32c value⟩
  | _ => none

def writeRecord (operation : Operation) : LogM (List Byte × Option ValueLocation) := do
  let record := encodeOp operation
  ensureRoom record.len
  let s ← get
  let segmentId ← activeSegment
  let header := recordHeader s.writer.groupId ⟨segmentId, s.writer.endAt⟩
    (record.head s.writer.nextBatchSeq s.writer.lastBatchSeq)
  stage header
  stage record.inline
  let s ← get
  stage record.value
  pure (header ++ record.inline ++ record.value,
    valueLocation operation segmentId s.writer.endAt)

def writeRecords : List Operation → LogM (List Byte × List (Option ValueLocation))
  | [] => pure ([], [])
  | operation :: operations => do
    let (bytes, value) ← writeRecord operation
    let (ops, values) ← writeRecords operations
    pure (bytes ++ ops, value :: values)

def writeOperations (operations : List Operation) (start : ReplayStart) : LogM PreparedBatch := do
  let (ops, values) ← writeRecords operations
  let segmentId ← activeSegment
  flush
  syncFile segmentId
  let s ← get
  pure ⟨⟨s.writer.groupId, s.writer.nextBatchSeq, start, ⟨segmentId, s.writer.endAt⟩,
    (sha ops).val, operations.length⟩, values⟩

def prepareBatch (operations : List Operation) : LogM PreparedBatch := do
  let s ← get
  if s.writer.fenced ∨ s.writer.prepared.isSome then throw (rejected .ownerFailed)
  else if s.writer.nextBatchSeq = maxU64 then
    throw (rejected (.invalidInput "batch sequence overflow"))
  else do
    refuse (validateBatch operations)
    let start : ReplayStart := ⟨s.writer.position.getD ⟨1, segmentHeaderBytes⟩,
      s.writer.lastBatchSeq, s.writer.chain⟩
    let prepared ← fencing (writeOperations sha operations start)
    modifyWriter fun w => { w with prepared := some prepared.identity }
    pure prepared

/-- The preparation record carries the exact root that the commit will bind. -/
def writeDirectory (batchSeq : ℕ) (directory : List Byte) : LogM Unit := do
  ensureRoom directoryRecordBytes
  let segmentId ← activeSegment
  let s ← get
  let head : RecordHead :=
    ⟨.directory, batchSeq, s.writer.lastBatchSeq, directoryRootBytes, crc32c directory⟩
  writeFile segmentId s.writer.endAt
    (recordHeader s.writer.groupId ⟨segmentId, s.writer.endAt⟩ head ++ directory)
  syncFile segmentId
  modifyWriter fun w => { w with
    endAt := w.endAt + directoryRecordBytes, stageAt := w.endAt + directoryRecordBytes }

def commitBody (w : Writer) (prepared : PreparedBatch) (directory : List Byte) : CommitBody :=
  ⟨prepared.values.length, prepared.identity.opsSha256,
    chainDigest sha w.groupId w.chain prepared.identity.batchSeq prepared.values.length
      prepared.identity.opsSha256 directory, directory⟩

/-- The commit point: a failure from here on leaves the outcome unknown. -/
def appendCommit (prepared : PreparedBatch) (directoryRoot : DirectoryRoot Digest)
    (body : CommitBody) : LogM CommittedBatch := do
  let batchSeq := prepared.identity.batchSeq
  ensureRoom commitRecordBytes
  let segmentId ← activeSegment
  let s ← get
  unknownIo (writeFile segmentId s.writer.endAt
    (commitRecord s.writer.groupId ⟨segmentId, s.writer.endAt⟩ batchSeq s.writer.lastBatchSeq body))
  unknownIo (syncFile segmentId)
  modifyWriter fun w => { w with
    endAt := w.endAt + commitRecordBytes
    stageAt := w.endAt + commitRecordBytes
    lastBatchSeq := batchSeq
    nextBatchSeq := batchSeq + 1
    chain := body.chainSha256 }
  pure ⟨batchSeq, body.chainSha256, directoryRoot, prepared.values,
    ⟨segmentId, s.writer.endAt + commitRecordBytes⟩⟩

def writeCommit (prepared : PreparedBatch) (directoryRoot : DirectoryRoot Digest) :
    LogM CommittedBatch := do
  let batchSeq := prepared.identity.batchSeq
  let s ← get
  if directoryRoot.groupId ≠ s.writer.groupId ∨ directoryRoot.generation ≠ batchSeq then
    throw (rejected (.invalidInput "directory root does not name prepared batch"))
  else do
    refuse directoryRoot.validate
    let directory := encodeDirectoryRoot directoryRoot
    writeDirectory batchSeq directory
    appendCommit prepared directoryRoot (commitBody sha s.writer prepared directory)

def finishBatch (prepared : PreparedBatch) (directoryRoot : DirectoryRoot Digest) :
    LogM CommittedBatch := do
  let s ← get
  if s.writer.fenced ∨ s.writer.prepared ≠ some prepared.identity then
    throw (rejected .ownerFailed)
  else do
    let committed ← fencing (writeCommit sha prepared directoryRoot)
    modifyWriter fun w => { w with prepared := none }
    pure committed

/-- Remove the bytes after `resume` from the newest segment, if they are those replay read. -/
def discardTail (e : ReplayEnd) (d : Disk) : Except CoreError Disk :=
  match e.resume with
  | none => pure d
  | some resume =>
    if e.finalLen = resume.offset then pure d
    else match d.files resume.segmentId with
      | none => throw .io
      | some file =>
        if file.bytes.length = resume.offset then pure (d.put resume.segmentId file.sync)
        else
          let head := slice resume.offset (resume.offset + recordHeaderBytes) file.bytes
          if file.bytes.length ≠ e.finalLen ∨
              head ++ zeros (recordHeaderBytes - head.length) ≠ e.tailHead then
            throw (.invalidInput "segment tail differs from the replayed tail")
          else pure (d.put resume.segmentId (file.setLen resume.offset).sync)

end SegmentWriter
