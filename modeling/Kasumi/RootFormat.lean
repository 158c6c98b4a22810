import Kasumi.DirectoryPages

/-! One root generation of a segmented log group: its fields, the invariants that both
encoding and decoding check, and when one generation may follow another. -/
namespace RootFormat

open ByteFields (isZero unle)
open DirectoryPages (CoreError DirectoryRoot maxHeight maxU64 maxTableBytes segmentBytes
  segmentHeaderBytes)

/-- SHA-256 digests: 32 bytes, read as a little-endian number. -/
abbrev Digest := ℕ

inductive FileKind where
  | segment
  | directory

/-- Root garbage tag. Tag 2 named a retired kind. -/
def FileKind.tag : FileKind → ℕ
  | .segment => 1
  | .directory => 3

def FileKind.fromTag : ℕ → Option FileKind
  | 1 => some .segment
  | 3 => some .directory
  | _ => none

@[simp] theorem fromTag_tag (k : FileKind) : FileKind.fromTag k.tag = some k := by
  cases k <;> rfl

/-- One owned file of a group. Identifier zero is never allocated. -/
@[ext] structure GroupFile where
  kind : FileKind
  id : ℕ

def GroupFile.order (f : GroupFile) : ℕ ×ₗ ℕ := toLex (f.kind.tag, f.id)

theorem GroupFile.order_injective : Function.Injective GroupFile.order := by
  intro a b h
  obtain ⟨hk, hi⟩ := Prod.mk.inj (toLex.injective h)
  have hk' := congrArg FileKind.fromTag hk
  rw [fromTag_tag, fromTag_tag] at hk'
  exact GroupFile.ext (Option.some.inj hk') hi

instance : LinearOrder GroupFile := LinearOrder.lift' GroupFile.order GroupFile.order_injective

instance groupFileLawful : LawfulBEq GroupFile := inferInstance

structure LogPosition where
  segmentId : ℕ
  offset : ℕ
  deriving DecidableEq

def LogPosition.order (p : LogPosition) : ℕ ×ₗ ℕ := toLex (p.segmentId, p.offset)

structure ReplayStart where
  position : LogPosition
  batchSeq : ℕ
  chain : Digest
  deriving DecidableEq

structure SealedSegment where
  segmentId : ℕ
  len : ℕ
  commitSeq : ℕ
  deriving DecidableEq

structure DirectoryCommit where
  root : DirectoryRoot Digest
  start : ReplayStart
  deriving DecidableEq

inductive CompactionPhase where
  | idle
  | evacuating
  | reclaiming
  | packing
  deriving DecidableEq

def CompactionPhase.tag : CompactionPhase → ℕ
  | .idle => 0
  | .evacuating => 1
  | .reclaiming => 2
  | .packing => 3

def CompactionPhase.fromTag : ℕ → Option CompactionPhase
  | 0 => some .idle
  | 1 => some .evacuating
  | 2 => some .reclaiming
  | 3 => some .packing
  | _ => none

@[simp] theorem phase_fromTag_tag (p : CompactionPhase) :
    CompactionPhase.fromTag p.tag = some p := by cases p <;> rfl

def maxCursorBytes : ℕ := 1536
def cursorNone : ℕ := 0
def cursorTable : ℕ := 1
def cursorRow : ℕ := 2
def cursorOrdinal : ℕ := 3

/-- An exact evacuation ordinal or a packing lower bound, with its fixed byte capacity. -/
structure CompactionCursor where
  kind : ℕ
  tableLen : ℕ
  rowLen : ℕ
  bytes : List ByteFields.Byte
  deriving DecidableEq

namespace CompactionCursor

def none : CompactionCursor := ⟨cursorNone, 0, 0, ByteFields.zeros maxCursorBytes⟩

def ordinal (c : CompactionCursor) : Option ℕ :=
  if c.kind = cursorNone then some 0
  else if c.kind = cursorOrdinal then some (unle (c.bytes.take 8))
  else Option.none

def isNone (c : CompactionCursor) : Bool := c.kind == cursorNone

def atOrdinal (ordinal : ℕ) : CompactionCursor :=
  ⟨cursorOrdinal, 0, 0, ByteFields.le 8 ordinal ++ ByteFields.zeros (maxCursorBytes - 8)⟩

def usedBytes (c : CompactionCursor) : ℕ :=
  if c.kind = cursorOrdinal then 8 else c.tableLen + c.rowLen

def tableOk (c : CompactionCursor) : Bool :=
  1 ≤ c.tableLen && c.tableLen ≤ maxTableBytes && ByteFields.isUtf8 (c.bytes.take c.tableLen)

def shape (c : CompactionCursor) : Bool :=
  if c.kind = cursorNone ∨ c.kind = cursorOrdinal then c.tableLen == 0 && c.rowLen == 0
  else if c.kind = cursorTable then c.rowLen == 0 && c.tableOk
  else if c.kind = cursorRow then c.tableOk && decide (c.usedBytes ≤ maxCursorBytes)
  else false

def violation (c : CompactionCursor) : Option String :=
  if ¬ c.shape ∨ c.usedBytes > maxCursorBytes ∨ ¬ isZero (c.bytes.drop c.usedBytes) then
    some "root compaction cursor is invalid"
  else Option.none

end CompactionCursor

structure CompactionRecord where
  cycle : ℕ
  phase : CompactionPhase
  level : ℕ
  cutoffSegment : ℕ
  cutoffArena : ℕ
  baselineBytes : ℕ
  baselineFiles : ℕ
  cursor : CompactionCursor
  packingRemaining : ℕ
  evacuationSource : Option (DirectoryRoot Digest)
  deriving DecidableEq

namespace CompactionRecord

def genesis : CompactionRecord :=
  ⟨0, .idle, 0, 0, 0, 0, 0, CompactionCursor.none, 0, none⟩

/-- The same cycle, phase, cutoffs and baseline; only progress differs. -/
def sameProgressFrame (old new : CompactionRecord) : Bool :=
  old.cycle == new.cycle && old.phase == new.phase && old.cutoffSegment == new.cutoffSegment &&
    old.cutoffArena == new.cutoffArena && old.baselineBytes == new.baselineBytes &&
    old.baselineFiles == new.baselineFiles && old.evacuationSource == new.evacuationSource

def progressFree (r : CompactionRecord) : Bool :=
  r.level == 0 && r.cursor.isNone && r.packingRemaining == 0

end CompactionRecord

def maxGarbage : ℕ := 128
def commitRecordBytes : ℕ := 36 + (72 + 96)

structure Superblock where
  generation : ℕ
  groupId : ℕ
  nextSegmentId : ℕ
  /-- Newest segment whose file and header are durable; zero for none. -/
  lastSegmentId : ℕ
  sealed : Option SealedSegment
  nextDirectoryId : ℕ
  lastDirectoryId : ℕ
  directory : Option DirectoryCommit
  /-- Sorted, unique files awaiting unlink. -/
  garbage : List GroupFile
  compaction : CompactionRecord
  deriving DecidableEq

/-- Proof that the unlink of one recorded garbage file succeeded. -/
structure Unlinked where
  groupId : ℕ
  file : GroupFile

def sealedLenIsValid (len : ℕ) : Bool := segmentHeaderBytes ≤ len && len ≤ segmentBytes

namespace Superblock

def genesis (groupId : ℕ) : Superblock :=
  ⟨0, groupId, 1, 0, none, 1, 0, none, [], CompactionRecord.genesis⟩

def pendingId (next last : ℕ) : Option ℕ :=
  if last ≤ next ∧ next - last = 2 then some (next - 1) else none

def pendingSegment (s : Superblock) : Option ℕ := pendingId s.nextSegmentId s.lastSegmentId

def pendingDirectory (s : Superblock) : Option ℕ :=
  pendingId s.nextDirectoryId s.lastDirectoryId

def successor (s : Superblock) : Except CoreError Superblock :=
  if s.generation + 1 > maxU64 then throw (.invalidInput "root generation overflow")
  else pure { s with generation := s.generation + 1 }

/-- Allocate the next segment identifier as a durable intent; `sealed` is the synchronized
newest segment, absent only for the first. -/
def reserveSegment (s : Superblock) (sealed : Option SealedSegment) :
    Except CoreError (Superblock × ℕ) :=
  let newest := if s.lastSegmentId ≠ 0 then some s.lastSegmentId else none
  if s.pendingSegment.isSome then throw (.invalidInput "a segment intent is outstanding")
  else if sealed.map (·.segmentId) ≠ newest ∨ sealed.any (!sealedLenIsValid ·.len) then
    throw (.invalidInput "sealed segment is not the newest segment")
  else do
    let next ← s.successor
    if s.nextSegmentId + 1 ≥ maxU64 then throw (.invalidInput "segment identifier overflow")
    else pure ({ next with nextSegmentId := s.nextSegmentId + 1, sealed := sealed },
      s.nextSegmentId)

def confirmSegment (s : Superblock) (segmentId : ℕ) : Except CoreError Superblock :=
  if s.pendingSegment ≠ some segmentId then
    throw (.invalidInput "segment is not the outstanding intent")
  else do
    let next ← s.successor
    pure { next with lastSegmentId := segmentId }

def forget (s : Superblock) (unlinked : Unlinked) : Except CoreError Superblock := do
  if unlinked.groupId ≠ s.groupId then
    throw (.invalidInput "unlink proof names another group")
  let next ← s.successor
  if unlinked.file ∉ next.garbage then
    throw (.invalidInput "file is not recorded as garbage")
  pure { next with garbage := next.garbage.erase unlinked.file }

/-- A file that structure alone lets a root record as garbage. -/
def directoryFileIsRetirable (s : Superblock) (file : GroupFile) : Bool :=
  if s.compaction.phase = .evacuating then false
  else match s.directory with
    | none => false
    | some commit =>
      if file.id = 0 then false
      else match file.kind with
        | .segment =>
          decide (file.id < s.lastSegmentId) && decide (file.id < commit.start.position.segmentId)
            && decide (s.pendingSegment ≠ some file.id)
        | .directory =>
          decide (file.id < s.lastDirectoryId) && decide (s.pendingDirectory ≠ some file.id)
            && commit.root.page.all fun page => page.arenaId != file.id

def commitOutOfBounds (s : Superblock) (commit : DirectoryCommit) : Bool :=
  !commit.root.validate.isOk || commit.root.groupId != s.groupId ||
    commit.root.generation != commit.start.batchSeq || commit.start.batchSeq == 0 ||
    commit.start.batchSeq == maxU64 || commit.start.position.segmentId == 0 ||
    decide (commit.start.position.segmentId > s.lastSegmentId) ||
    decide (commit.start.position.offset < segmentHeaderBytes + commitRecordBytes) ||
    decide (commit.start.position.offset > segmentBytes) ||
    commit.root.page.any fun page => decide (page.arenaId > s.lastDirectoryId)

def directoryInvariantViolation (s : Superblock) : Option String :=
  if s.nextDirectoryId = 0 ∨ s.nextDirectoryId = maxU64 ∨
      s.lastDirectoryId ≥ s.nextDirectoryId ∨ s.nextDirectoryId - s.lastDirectoryId > 2 then
    some "root directory intent is invalid"
  else if s.directory.any s.commitOutOfBounds then some "root directory commit is invalid"
  else none

def evacuationSourceValid (s : Superblock) : Bool :=
  match s.compaction.phase, s.compaction.evacuationSource with
  | .evacuating, some source =>
    source.validate.isOk && source.groupId == s.groupId &&
      (s.directory.any fun current => decide (source.generation ≤ current.root.generation)) &&
      (source.page.all fun page => decide (page.arenaId ≤ s.lastDirectoryId)) &&
      (s.compaction.cursor.ordinal.any fun position => decide (position ≤ source.entries)) &&
      s.garbage.isEmpty
  | .evacuating, none => false
  | _, source => source.isNone

def compactionRecordInvalid (s : Superblock) : Bool :=
  let record := s.compaction
  let active : Bool := record.cycle == 0 || s.directory.isNone ||
    (record.cutoffSegment != 0 && decide (record.cutoffSegment ≥ s.lastSegmentId)) ||
    (record.cutoffArena != 0 && decide (record.cutoffArena ≥ s.lastDirectoryId)) ||
    (record.cutoffSegment == 0 && record.cutoffArena == 0)
  match record.phase with
  | .idle => record.cutoffSegment != 0 || record.cutoffArena != 0 || !record.progressFree
  | .evacuating => active || record.level != 0
  | .reclaiming => active || !record.progressFree
  | .packing => active || decide (record.level > maxHeight) || record.cursor.kind == cursorOrdinal

def compactionInvariantViolation (s : Superblock) : Option String :=
  match s.compaction.cursor.violation with
  | some reason => some reason
  | none =>
    if ¬ s.evacuationSourceValid ∨
        (s.compaction.phase ≠ .packing ∧ s.compaction.packingRemaining ≠ 0) then
      some "root compaction evacuation source is invalid"
    else if s.compactionRecordInvalid then some "root compaction record is invalid"
    else none

/-- Every intent after the first seals the segment two before the next. -/
def sealedId (s : Superblock) : Option ℕ :=
  if 2 < s.nextSegmentId then some (s.nextSegmentId - 2) else none

/-- Shared by encoding (refusal) and decoding (corruption). -/
def invariantViolation (s : Superblock) : Option String :=
  if s.generation = 0 then some "root generation is zero"
  else if s.nextSegmentId = 0 ∨ s.nextSegmentId = maxU64 ∨
      s.lastSegmentId ≥ s.nextSegmentId ∨ s.nextSegmentId - s.lastSegmentId > 2 then
    some "root segment intent is invalid"
  else if s.sealed.map SealedSegment.segmentId ≠ s.sealedId ∨
      s.sealed.any fun sealed => !sealedLenIsValid sealed.len then
    some "root sealed segment record is invalid"
  else match s.directoryInvariantViolation with
    | some reason => some reason
    | none =>
      if s.garbage.length > maxGarbage ∨ ¬ s.garbage.IsChain (· < ·) ∨
          s.garbage.any fun file => !s.directoryFileIsRetirable file then
        some "root garbage list is invalid"
      else s.compactionInvariantViolation

def compactionCutoffs (s : Superblock) : ℕ × ℕ := (s.lastSegmentId - 1, s.lastDirectoryId - 1)

end Superblock

def directorySuccessor : (previous next : Option DirectoryCommit) → Bool
  | none, _ => true
  | some _, none => false
  | some previous, some next =>
    decide (previous = next) ||
      (decide (next.start.batchSeq > previous.start.batchSeq) &&
        decide (next.start.position.order > previous.start.position.order))

def progressSuccessor (old new : CompactionRecord) : Bool :=
  if old.phase = .packing then
    decide (new.level ≥ old.level) && (decide (new.level ≠ old.level) ||
      old.packingRemaining == 0 ||
      (new.packingRemaining != 0 && decide (new.packingRemaining ≤ old.packingRemaining)))
  else if old.phase ≠ .evacuating then true
  else match old.cursor.ordinal, new.cursor.ordinal with
    | some before, some after => decide (after ≥ before)
    | _, _ => false

/-- `next` keeps the record, changes only in-phase progress, or applies exactly one of the
four phase transitions to `previous`. -/
def compactionSuccessor (previous next : Superblock) : Bool :=
  let old := previous.compaction
  let new := next.compaction
  let cutoffsKept := old.cutoffSegment == new.cutoffSegment && old.cutoffArena == new.cutoffArena
  let baselineKept :=
    old.baselineBytes == new.baselineBytes && old.baselineFiles == new.baselineFiles
  if old = new then true
  else if old.sameProgressFrame new then progressSuccessor old new
  else match old.phase, new.phase with
    | .idle, .evacuating =>
      decide (old.cycle + 1 ≤ maxU64) && old.cycle + 1 == new.cycle &&
        new.cutoffSegment == previous.compactionCutoffs.1 &&
        new.cutoffArena == previous.compactionCutoffs.2 && baselineKept && new.progressFree &&
        decide (new.evacuationSource = previous.directory.map DirectoryCommit.root) &&
        previous.garbage.isEmpty
    | .evacuating, .reclaiming =>
      old.cycle == new.cycle && cutoffsKept && baselineKept && new.progressFree &&
        new.evacuationSource.isNone
    | .reclaiming, .packing => old.cycle == new.cycle && cutoffsKept && new.progressFree
    | .packing, .idle => old.cycle == new.cycle && baselineKept && new.progressFree
    | _, _ => false

/-- The next generation of one group that moves no allocation or directory commit back. -/
def isSuccessor (previous next : Superblock) : Bool :=
  decide (previous.generation + 1 ≤ maxU64) && previous.generation + 1 == next.generation &&
    previous.groupId == next.groupId &&
    decide (next.nextSegmentId ≥ previous.nextSegmentId) &&
    decide (next.lastSegmentId ≥ previous.lastSegmentId) &&
    decide (next.nextDirectoryId ≥ previous.nextDirectoryId) &&
    decide (next.lastDirectoryId ≥ previous.lastDirectoryId) &&
    directorySuccessor previous.directory next.directory && compactionSuccessor previous next &&
    (decide (next.nextSegmentId ≠ previous.nextSegmentId) ||
      decide (next.sealed = previous.sealed))

/-- What the absence of a violation says, as far as decoding and publication need it. -/
structure Invariants (s : Superblock) : Prop where
  published : s.generation ≠ 0
  sealedId : ∀ x, s.sealed = some x → x.segmentId ≠ 0
  garbage : s.garbage.length ≤ maxGarbage
  commit : ∀ c, s.directory = some c → c.root.validate = .ok () ∧ c.root.groupId = s.groupId ∧
    c.root.generation ≠ 0
  cursor : s.compaction.cursor.tableLen + s.compaction.cursor.rowLen ≤ maxCursorBytes
  source : ∀ x, s.compaction.evacuationSource = some x →
    s.compaction.phase = .evacuating ∧ x.validate = .ok ()

theorem isOk_unit {x : Except CoreError Unit} (h : x.isOk = true) : x = .ok () := by
  cases x with
  | ok u => rfl
  | error e => cases h

theorem cursor_fits {c : CompactionCursor} (h : c.violation = none) :
    c.tableLen + c.rowLen ≤ maxCursorBytes := by
  by_cases hv : ¬ c.shape ∨ c.usedBytes > maxCursorBytes ∨ ¬ isZero (c.bytes.drop c.usedBytes)
  · rw [CompactionCursor.violation, if_pos hv] at h
    cases h
  push Not at hv
  obtain ⟨hs, hu, -⟩ := hv
  by_cases hk : c.kind = cursorOrdinal
  · simp [CompactionCursor.shape, hk] at hs
    rw [hs.1, hs.2]
    exact Nat.zero_le _
  · rw [CompactionCursor.usedBytes, if_neg hk] at hu
    exact hu

variable {s : Superblock}

theorem commit_in_bounds (h : s.directoryInvariantViolation = none) {c : DirectoryCommit}
    (hc : s.directory = some c) :
    c.root.validate = .ok () ∧ c.root.groupId = s.groupId ∧ c.root.generation ≠ 0 := by
  have hb : s.commitOutOfBounds c = false := by
    by_contra hb
    simp only [Superblock.directoryInvariantViolation, hc, Option.any_some] at h
    split at h
    · cases h
    · simp [Bool.eq_true_of_not_eq_false hb] at h
  simp only [Superblock.commitOutOfBounds, Bool.or_eq_false_iff, Bool.not_eq_false',
    bne_eq_false_iff_eq, beq_eq_false_iff_ne] at hb
  obtain ⟨⟨⟨⟨⟨⟨⟨⟨⟨hv, hg⟩, hs⟩, h0⟩, -⟩, -⟩, -⟩, -⟩, -⟩, -⟩ := hb
  exact ⟨isOk_unit hv, hg, hs ▸ h0⟩

theorem source_valid (h : s.compactionInvariantViolation = none) {x : DirectoryRoot Digest}
    (hx : s.compaction.evacuationSource = some x) :
    s.compaction.phase = .evacuating ∧ x.validate = .ok () := by
  have hv : s.evacuationSourceValid = true := by
    by_contra hv
    simp only [Superblock.compactionInvariantViolation] at h
    split at h
    · cases h
    · simp [hv] at h
  cases hp : s.compaction.phase with
  | evacuating =>
    simp only [Superblock.evacuationSourceValid, hp, hx, Bool.and_eq_true] at hv
    exact ⟨rfl, isOk_unit hv.1.1.1.1.1⟩
  | idle => simp [Superblock.evacuationSourceValid, hp, hx] at hv
  | reclaiming => simp [Superblock.evacuationSourceValid, hp, hx] at hv
  | packing => simp [Superblock.evacuationSourceValid, hp, hx] at hv

theorem invariants_of_ok (h : s.invariantViolation = none) : Invariants s := by
  rw [Superblock.invariantViolation] at h
  split at h
  · cases h
  next hge =>
  split at h
  · cases h
  split at h
  · cases h
  next hs =>
  split at h
  · cases h
  next hd =>
  split at h
  · cases h
  next hg =>
  push Not at hs hg
  refine ⟨hge, ?_, hg.1, fun c hc => commit_in_bounds hd hc, ?_, fun x hx => source_valid h hx⟩
  · intro x hx
    have hi := hs.1
    rw [hx, Superblock.sealedId] at hi
    split at hi
    · next h2 =>
      have : x.segmentId = s.nextSegmentId - 2 := Option.some.inj hi
      omega
    · cases hi
  apply cursor_fits
  rw [Superblock.compactionInvariantViolation] at h
  split at h
  · cases h
  · next hc => exact hc

theorem isSuccessor_step (h : isSuccessor prev next) :
    prev.generation + 1 = next.generation ∧ prev.groupId = next.groupId := by
  simp only [isSuccessor, Bool.and_eq_true, beq_iff_eq] at h
  exact ⟨h.1.1.1.1.1.1.1.1.2, h.1.1.1.1.1.1.1.2⟩

end RootFormat
