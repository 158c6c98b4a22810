import Kasumi.MediaFormat

/-! The 4 KiB image of a root slot. Encoding lays the fields out in offset order; decoding
reads them back by offset, and refuses retired formats before it looks at the checksum. -/
namespace RootCodec

open ByteFields List
open DirectoryPages (CoreError DirectoryRoot)
open MediaFormat
open RootFormat

def rootSlotBytes : ℕ := 4096
def checksumAt : ℕ := 4092

def rootMagic : List Byte := magicStem ++ [82, 79, 79, 84, 48, 48, 53]
def retiredRootMagics : List (List Byte) :=
  [49, 50, 51, 52].map fun version => magicStem ++ [82, 79, 79, 84, 48, 48, version]
/-- The retired checkpoint fields: next identifier one, then no reference. -/
def retiredCheckpoint : List Byte := le 8 1 ++ zeros 56

def encodeSealed : Option SealedSegment → List Byte
  | none => zeros 24
  | some sealed => [le 8 sealed.segmentId, le 8 sealed.len, le 8 sealed.commitSeq].flatten

def encodeGarbage (garbage : List GroupFile) : List Byte :=
  garbage.flatMap fun file => [le 1 file.kind.tag, zeros 7, le 8 file.id].flatten

def encodeCommit : Option DirectoryCommit → List Byte
  | none => zeros 160
  | some commit =>
    [le 1 1, zeros 7, encodeDirectoryRoot commit.root, le 8 commit.start.position.segmentId,
      le 8 commit.start.position.offset, le 8 commit.start.batchSeq,
      le 32 commit.start.chain].flatten

def encodeDirectory (s : Superblock) : List Byte :=
  [le 8 s.nextDirectoryId, le 8 s.lastDirectoryId, encodeCommit s.directory].flatten

def encodeSource : Option (DirectoryRoot Digest) → List Byte
  | none => zeros 96
  | some source => encodeDirectoryRoot source

def compactionFields (r : CompactionRecord) : List (List Byte) :=
  [le 8 r.cycle, le 1 r.phase.tag, le 1 r.level, le 1 r.cursor.kind, zeros 5,
    le 8 r.cutoffSegment, le 8 r.cutoffArena, le 8 r.baselineBytes, le 8 r.baselineFiles,
    le 2 r.cursor.tableLen, le 2 r.cursor.rowLen, le 8 r.packingRemaining, zeros 4,
    r.cursor.bytes, encodeSource r.evacuationSource]

def encodeCompaction (r : CompactionRecord) : List Byte := (compactionFields r).flatten

def slotFields (s : Superblock) : List (List Byte) :=
  [rootMagic, le 4 formatVersion, zeros 4, le 16 s.groupId, le 8 s.generation,
    le 8 s.nextSegmentId, le 8 s.lastSegmentId, retiredCheckpoint, encodeSealed s.sealed,
    le 4 s.garbage.length, zeros 4, encodeGarbage s.garbage,
    zeros (16 * maxGarbage - 16 * s.garbage.length), encodeDirectory s,
    encodeCompaction s.compaction, zeros 12]

def slotBody (s : Superblock) : List Byte := (slotFields s).flatten

def slotImage (s : Superblock) : List Byte := slotBody s ++ le 4 (crc32c (slotBody s))

def encode (s : Superblock) : Except CoreError (List Byte) :=
  match s.invariantViolation with
  | some reason => throw (.invalidInput reason)
  | none => pure (slotImage s)

inductive SlotImage where
  | unwritten
  /-- Torn or damaged: wrong magic or checksum. -/
  | invalid
  | valid (superblock : Superblock)

def decodeGarbage : (count : ℕ) → (bytes : List Byte) → Except CoreError (List GroupFile)
  | 0, _ => pure []
  | count + 1, bytes => do
    let kind ← match FileKind.fromTag (unle (slice 0 1 bytes)) with
      | some kind => pure kind
      | none => throw (.corrupt "root garbage entry has an unknown kind")
    if ¬ isZero (slice 1 8 bytes) then throw (.corrupt "root slot has an unsupported layout")
    let rest ← decodeGarbage count (bytes.drop 16)
    pure (⟨kind, unle (slice 8 16 bytes)⟩ :: rest)

/-- A directory root inside a superblock reports either a layout or a commit error. -/
def decodeCommitRoot (bytes : List Byte) : Except CoreError (DirectoryRoot Digest) :=
  match decodeDirectoryRoot bytes with
  | .ok root => pure root
  | .error (.corrupt "directory root is noncanonical") =>
    throw (.corrupt "root directory has an unsupported layout")
  | .error _ => throw (.corrupt "root directory commit is invalid")

def decodeDirectory (bytes : List Byte) (groupId : ℕ) :
    Except CoreError (ℕ × ℕ × Option DirectoryCommit) := do
  let flag := unle (slice 16 17 bytes)
  if flag > 1 ∨ ¬ isZero (slice 17 24 bytes) then
    throw (.corrupt "root directory has an unsupported layout")
  let commit ← if flag = 0 then do
      if ¬ isZero (slice 24 176 bytes) then
        throw (.corrupt "root directory has an unsupported layout")
      pure none
    else do
      let root ← decodeCommitRoot (slice 24 120 bytes)
      if root.groupId ≠ groupId then throw (.corrupt "root directory commit is invalid")
      pure (some { root := root, start := {
        position := ⟨unle (slice 120 128 bytes), unle (slice 128 136 bytes)⟩,
        batchSeq := unle (slice 136 144 bytes), chain := unle (slice 144 176 bytes) } })
  pure (unle (slice 0 8 bytes), unle (slice 8 16 bytes), commit)

/-- Layout only; the root invariants are checked with the decoded superblock. -/
def decodeCompaction (bytes : List Byte) : Except CoreError CompactionRecord := do
  if bytes.length ≠ 1696 ∨ ¬ isZero (slice 11 16 bytes) ∨ ¬ isZero (slice 60 64 bytes) then
    throw (.corrupt "root compaction has an unsupported layout")
  let phase ← match CompactionPhase.fromTag (unle (slice 8 9 bytes)) with
    | some phase => pure phase
    | none => throw (.corrupt "root compaction record is invalid")
  let tableLen := unle (slice 48 50 bytes)
  let rowLen := unle (slice 50 52 bytes)
  if tableLen + rowLen > maxCursorBytes then
    throw (.corrupt "root compaction cursor is invalid")
  let source ← if isZero (slice 1600 1696 bytes) then pure none else do
    let source ← decodeDirectoryRoot (slice 1600 1696 bytes)
    pure (some source)
  pure {
    cycle := unle (slice 0 8 bytes), phase := phase, level := unle (slice 9 10 bytes),
    cutoffSegment := unle (slice 16 24 bytes), cutoffArena := unle (slice 24 32 bytes),
    baselineBytes := unle (slice 32 40 bytes), baselineFiles := unle (slice 40 48 bytes),
    cursor := ⟨unle (slice 10 11 bytes), tableLen, rowLen, slice 64 1600 bytes⟩,
    packingRemaining := unle (slice 52 60 bytes), evacuationSource := source }

def decodeSealed (bytes : List Byte) : Except CoreError (Option SealedSegment) :=
  if unle (slice 128 136 bytes) = 0 then
    if ¬ isZero (slice 136 152 bytes) then
      throw (.corrupt "root slot has an unsupported layout")
    else pure none
  else pure (some ⟨unle (slice 128 136 bytes), unle (slice 136 144 bytes),
    unle (slice 144 152 bytes)⟩)

/-- The magic or the checksum is wrong, as in an image torn between two contents. -/
def ChecksumBad (bytes : List Byte) : Prop :=
  slice 0 16 bytes ≠ rootMagic ∨ unle (slice 4092 4096 bytes) ≠ crc32c (slice 0 4092 bytes)

instance (bytes : List Byte) : Decidable (ChecksumBad bytes) := inferInstanceAs (Decidable (_ ∨ _))

def decodeFields (bytes : List Byte) : Except CoreError Superblock := do
  let garbageCount := unle (slice 152 156 bytes)
  if unle (slice 16 20 bytes) ≠ formatVersion ∨ ¬ isZero (slice 20 24 bytes) ∨
      slice 64 128 bytes ≠ retiredCheckpoint ∨ ¬ isZero (slice 156 160 bytes) ∨
      garbageCount > maxGarbage ∨ ¬ isZero (slice (160 + garbageCount * 16) 2208 bytes) ∨
      ¬ isZero (slice 4080 4092 bytes) then
    throw (.corrupt "root slot has an unsupported layout")
  let sealed ← decodeSealed bytes
  let garbage ← decodeGarbage garbageCount (bytes.drop 160)
  let (nextDirectoryId, lastDirectoryId, directory) ←
    decodeDirectory (slice 2208 2384 bytes) (unle (slice 24 40 bytes))
  let compaction ← decodeCompaction (slice 2384 4080 bytes)
  let superblock : Superblock := {
    generation := unle (slice 40 48 bytes), groupId := unle (slice 24 40 bytes),
    nextSegmentId := unle (slice 48 56 bytes), lastSegmentId := unle (slice 56 64 bytes),
    sealed := sealed, nextDirectoryId := nextDirectoryId, lastDirectoryId := lastDirectoryId,
    directory := directory, garbage := garbage, compaction := compaction }
  match superblock.invariantViolation with
  | some reason => throw (.corrupt reason)
  | none => pure superblock

def decodeSlot (bytes : List Byte) : Except CoreError SlotImage := do
  rejectLegacy bytes
  if bytes.take 16 ∈ retiredRootMagics then throw (.corrupt "retired root format is unsupported")
  if isZero bytes then pure .unwritten
  else if ChecksumBad bytes then pure .invalid
  else do
    let superblock ← decodeFields bytes
    pure (.valid superblock)

structure SealedTyped (x : SealedSegment) : Prop where
  segment : Fits 8 x.segmentId
  len : Fits 8 x.len
  commit : Fits 8 x.commitSeq

structure CommitTyped (c : DirectoryCommit) : Prop where
  root : RootTyped c.root
  segment : Fits 8 c.start.position.segmentId
  offset : Fits 8 c.start.position.offset
  batch : Fits 8 c.start.batchSeq
  chain : Fits 32 c.start.chain

structure CursorTyped (c : CompactionCursor) : Prop where
  kind : Fits 1 c.kind
  table : Fits 2 c.tableLen
  row : Fits 2 c.rowLen
  bytes : c.bytes.length = maxCursorBytes

structure RecordTyped (r : CompactionRecord) : Prop where
  cycle : Fits 8 r.cycle
  level : Fits 1 r.level
  cutoffSegment : Fits 8 r.cutoffSegment
  cutoffArena : Fits 8 r.cutoffArena
  baselineBytes : Fits 8 r.baselineBytes
  baselineFiles : Fits 8 r.baselineFiles
  cursor : CursorTyped r.cursor
  remaining : Fits 8 r.packingRemaining
  source : ∀ x, r.evacuationSource = some x → RootTyped x

/-- Every field is in the range of its type in the source. -/
structure Typed (s : Superblock) : Prop where
  generation : Fits 8 s.generation
  group : Fits 16 s.groupId
  nextSegment : Fits 8 s.nextSegmentId
  lastSegment : Fits 8 s.lastSegmentId
  sealed : ∀ x, s.sealed = some x → SealedTyped x
  nextDirectory : Fits 8 s.nextDirectoryId
  lastDirectory : Fits 8 s.lastDirectoryId
  directory : ∀ c, s.directory = some c → CommitTyped c
  garbage : ∀ f ∈ s.garbage, Fits 8 f.id
  compaction : RecordTyped s.compaction

@[simp] theorem length_encodeSealed (x : Option SealedSegment) :
    (encodeSealed x).length = 24 := by cases x <;> simp [encodeSealed]

@[simp] theorem length_encodeGarbage (gs : List GroupFile) :
    (encodeGarbage gs).length = 16 * gs.length := by
  induction gs with
  | nil => rfl
  | cons g gs ih => simp [encodeGarbage] at ih ⊢; omega

@[simp] theorem length_encodeCommit (c : Option DirectoryCommit) :
    (encodeCommit c).length = 160 := by cases c <;> simp [encodeCommit, directoryRootBytes]

@[simp] theorem length_encodeDirectory (s : Superblock) : (encodeDirectory s).length = 176 := by
  simp [encodeDirectory]

@[simp] theorem length_encodeSource (x : Option (DirectoryRoot Digest)) :
    (encodeSource x).length = 96 := by cases x <;> simp [encodeSource, directoryRootBytes]

theorem length_encodeCompaction (ht : RecordTyped r) : (encodeCompaction r).length = 1696 := by
  simp [encodeCompaction, compactionFields, ht.cursor.bytes, maxCursorBytes]

theorem decodeSealed_encode
    (ht : ∀ y, x = some y → SealedTyped y) (hi : ∀ y, x = some y → y.segmentId ≠ 0)
    (hb : slice 128 152 bs = encodeSealed x) : decodeSealed bs = .ok x := by
  have part (a b : ℕ) (h : b ≤ 24) :
      slice (128 + a) (128 + b) bs = slice a b (encodeSealed x) := by
    rw [← hb, slice_slice (by omega)]
  have p0 := part 0 8 (by omega)
  have p1 := part 8 16 (by omega)
  have p2 := part 16 24 (by omega)
  have p3 := part 8 24 (by omega)
  norm_num at p0 p1 p2 p3
  rw [decodeSealed, p0, p1, p2, p3]
  rcases x with _ | y
  · rfl
  have hy := ht y rfl
  simp [encodeSealed, unle_le hy.segment, unle_le hy.len, unle_le hy.commit, hi y rfl]
  rfl

theorem decodeGarbage_encode (ht : ∀ f ∈ gs, Fits 8 f.id)
    : decodeGarbage gs.length (encodeGarbage gs ++ bs) = .ok gs := by
  induction gs with
  | nil => rfl
  | cons g gs ih =>
    have hta : unle (le 1 g.kind.tag) = g.kind.tag :=
      unle_le (by cases g.kind <;> simp [Fits, FileKind.tag])
    have hr := ih (fun f hf => ht f (mem_cons_of_mem _ hf))
    have hs : encodeGarbage (g :: gs) ++ bs =
        le 1 g.kind.tag ++ (zeros 7 ++ (le 8 g.id ++ (encodeGarbage gs ++ bs))) := by
      simp [encodeGarbage]
    simp [hs, decodeGarbage, hta, hr, unle_le (ht g mem_cons_self), drop_append, drop_of_length_le]

theorem decodeCommitRoot_encode (ht : RootTyped r)
    (hv : r.validate = .ok ()) : decodeCommitRoot (encodeDirectoryRoot r) = .ok r := by
  rw [decodeCommitRoot, decodeDirectoryRoot_encode ht hv]
  rfl

theorem decodeDirectory_encode (ht : Typed s)
    (hv : ∀ c, s.directory = some c → c.root.validate = .ok () ∧ c.root.groupId = s.groupId) :
    decodeDirectory (encodeDirectory s) s.groupId =
      .ok (s.nextDirectoryId, s.lastDirectoryId, s.directory) := by
  rcases hd : s.directory with _ | c
  · simp [decodeDirectory, encodeDirectory, encodeCommit, hd, slice_zeros, unle_zeros,
      unle_le ht.nextDirectory, unle_le ht.lastDirectory]
    rfl
  obtain ⟨hr, hg⟩ := hv c hd
  have hc := ht.directory c hd
  have ho : unle (le 1 1) = 1 := unle_le (by simp [Fits])
  simp [decodeDirectory, encodeDirectory, encodeCommit, hd, directoryRootBytes, ho,
    decodeCommitRoot_encode hc.root hr, unle_le hc.segment, unle_le hc.offset,
    unle_le hc.batch, unle_le hc.chain, unle_le ht.nextDirectory, unle_le ht.lastDirectory,
    bind, Except.bind, pure, Except.pure, hg]

theorem encodeSource_zero (ht : ∀ y, x = some y → RootTyped y)
    (hg : ∀ y, x = some y → y.generation ≠ 0) : isZero (encodeSource x) = x.isNone := by
  rcases x with _ | y
  · exact isZero_zeros 96
  -- The generation field alone keeps the image of a committed root from being zero.
  have hy := ht y rfl
  have hf : slice 16 24 (encodeDirectoryRoot y) = le 8 y.generation :=
    slice_nth 1 rfl (by simp [directoryRootFields]) (by simp)
  by_contra hz
  have hz' : isZero (encodeDirectoryRoot y) = true := by simpa [encodeSource] using hz
  rw [isZero_iff] at hz'
  have hu : unle (slice 16 24 (encodeDirectoryRoot y)) = 0 := by
    rw [hz', slice_zeros, unle_zeros]
  rw [hf, unle_le hy.generation] at hu
  exact hg y rfl hu

theorem decodeCompaction_encode (ht : RecordTyped r)
    (hc : r.cursor.tableLen + r.cursor.rowLen ≤ maxCursorBytes)
    (hv : ∀ x, r.evacuationSource = some x → x.validate = .ok () ∧ x.generation ≠ 0) :
    decodeCompaction (encodeCompaction r) = .ok r := by
  have hl := length_encodeCompaction ht
  have hcu : r.cursor.bytes.length = 1536 := ht.cursor.bytes
  have hta : unle (le 1 r.phase.tag) = r.phase.tag :=
    unle_le (by cases r.phase <;> simp [Fits, CompactionPhase.tag])
  have hz := encodeSource_zero ht.source fun x hx => (hv x hx).2
  rw [decodeCompaction, hl]
  simp [encodeCompaction, compactionFields, hcu, hta, hz, unle_le ht.cycle,
    unle_le ht.level, unle_le ht.cutoffSegment, unle_le ht.cutoffArena, unle_le ht.baselineBytes,
    unle_le ht.baselineFiles, unle_le ht.cursor.kind, unle_le ht.cursor.table,
    unle_le ht.cursor.row, unle_le ht.remaining]
  obtain ⟨cycle, phase, level, cs, ca, bb, bf, cursor, remaining, source⟩ := r
  rcases source with _ | x
  · simp [pure, Except.pure, Nat.not_lt.mpr hc]
  have hd : decodeDirectoryRoot (encodeSource (some x)) = .ok x :=
    decodeDirectoryRoot_encode (ht.source x rfl) (hv x rfl).1
  simp [Nat.not_lt.mpr hc, hd]

/-- A worklist root was committed, so its image is told apart from an absent one. -/
def SourceCommitted (s : Superblock) : Prop :=
  ∀ x, s.compaction.evacuationSource = some x → x.generation ≠ 0

theorem length_slotBody (ht : Typed s) (hg : s.garbage.length ≤ maxGarbage) :
    (slotBody s).length = checksumAt := by
  have hc := length_encodeCompaction ht.compaction
  simp only [maxGarbage] at hg
  simp [slotBody, slotFields, rootMagic, magicStem, retiredCheckpoint, hc, checksumAt, maxGarbage]
  omega

theorem length_slotImage (ht : Typed s) (hg : s.garbage.length ≤ maxGarbage) :
    (slotImage s).length = rootSlotBytes := by
  simp [slotImage, length_slotBody ht hg, checksumAt, rootSlotBytes]

theorem slotImage_flatten (s : Superblock) :
    slotImage s = (slotFields s ++ [le 4 (crc32c (slotBody s))]).flatten := by
  simp [slotImage, slotBody]

def slotWidths (n : ℕ) : List ℕ :=
  [16, 4, 4, 16, 8, 8, 8, 64, 24, 4, 4, 16 * n, 2048 - 16 * n, 176, 1696, 12, 4]

theorem garbage_widths (h : n ≤ 128) : ((slotWidths n).take 12).sum = 160 + n * 16 ∧ 160 + n
    * 16 + (16 * maxGarbage - 16 * n) = 2208 := by
  simp only [slotWidths, maxGarbage, List.take, sum_cons, sum_nil]
  omega

theorem slotWidths_sums (h : n ≤ 128) : ((slotWidths n).take 13).sum = 2208 ∧
    ((slotWidths n).take 14).sum = 2384 ∧ ((slotWidths n).take 15).sum = 4080 := by
  simp only [slotWidths, List.take, sum_cons, sum_nil]
  omega

theorem slot_widths (ht : Typed s) : (slotFields s ++ [le 4 (crc32c (slotBody s))]).map List.length
    = slotWidths s.garbage.length := by
  have hc := length_encodeCompaction ht.compaction
  simp [slotFields, slotWidths, rootMagic, magicStem, retiredCheckpoint, maxGarbage, hc]

theorem decodeFields_image (ht : Typed s) (hi : s.invariantViolation = none)
    (hs : SourceCommitted s) : decodeFields (slotImage s) = .ok s := by
  have inv := invariants_of_ok hi
  have hn : s.garbage.length ≤ 128 := inv.garbage
  have hcl := length_encodeCompaction ht.compaction
  have field (i : ℕ) {f : List Byte} {a b : ℕ}
      (h : (slotFields s ++ [le 4 (crc32c (slotBody s))])[i]? = some f)
      (ha : ((slotWidths s.garbage.length).take i).sum = a)
      (hb : a + f.length = b) : slice a b (slotImage s) = f := by
    rw [slotImage_flatten]
    exact slice_nth i h (by rw [map_take, slot_widths ht]; exact ha) hb
  have h3 := field 3 (a := 24) (b := 40) rfl rfl (by simp)
  have h8 := field 8 (a := 128) (b := 152) rfl rfl (by simp)
  have h9 := field 9 (a := 152) (b := 156) rfl rfl (by simp)
  obtain ⟨w12, w13⟩ := garbage_widths hn
  have h12 := field 12 (a := 160 + s.garbage.length * 16) (b := 2208) rfl w12
    (by rw [length_zeros]; exact w13)
  have w := slotWidths_sums hn
  have h13 := field 13 (a := 2208) (b := 2384) rfl w.1 (by simp)
  have h14 := field 14 (a := 2384) (b := 4080) rfl w.2.1 (by simp [hcl])
  have h15 := field 15 (a := 4080) (b := 4092) rfl w.2.2 (by simp)
  have h11 : ∃ rest, (slotImage s).drop 160 = encodeGarbage s.garbage ++ rest := by
    rw [slotImage_flatten, drop_nth 11 (by rw [map_take, slot_widths ht]; rfl)]
    exact ⟨_, flatten_cons⟩
  obtain ⟨rest, hre⟩ := h11
  have hco : Fits 4 s.garbage.length := by simp only [Fits]; omega
  have hv : unle (le 4 formatVersion) = formatVersion := unle_le (by decide)
  have hd := decodeDirectory_encode ht fun c hc => ⟨(inv.commit c hc).1, (inv.commit c hc).2.1⟩
  have hk := decodeCompaction_encode ht.compaction inv.cursor
    fun x hx => ⟨(inv.source x hx).2, hs x hx⟩
  simp only [decodeFields, h3, h9, unle_le hco, h12, h13, h14, h15, hre, unle_le ht.group,
    decodeSealed_encode ht.sealed inv.sealedId h8, decodeGarbage_encode ht.garbage, hd, hk]
  have hm : rootMagic.length = 16 := rfl
  have hr : retiredCheckpoint.length = 64 := rfl
  simp [slotImage, slotBody, slotFields, hm, hr, hv, unle_le ht.generation, unle_le ht.nextSegment,
    unle_le ht.lastSegment, bind, Except.bind, pure, Except.pure, Nat.not_lt.mpr inv.garbage, hi]

section Torn

/-- Each of the first sixteen bytes is zero or the one of the root magic: the slot has never
held a foreign or retired image. -/
def MagicSound (bytes : List Byte) : Prop :=
  ∀ i < 16, bytes[i]? = some 0 ∨ bytes[i]? = rootMagic[i]?

theorem magicSound_zeros (h : 16 ≤ n) : MagicSound (zeros n) := by
  intro i hi
  left
  rw [zeros, getElem?_replicate_of_lt (by omega)]

theorem MagicSound.mixture (ho : MagicSound old) (hn : MagicSound new)
    (h : Mixture old new m) : MagicSound m := by
  intro i hi
  rcases h.2 i with h | h
  · rw [h]; exact ho i hi
  · rw [h]; exact hn i hi

variable {bs : List Byte}

section

variable (h : MagicSound bs)

include h

theorem take_ne_of_magicSound (i : ℕ) (hi : i < 16) (h0 : magic[i]? ≠ some 0)
    (hr : magic[i]? ≠ rootMagic[i]?) : bs.take 16 ≠ magic := by
  intro he
  have hb : bs[i]? = magic[i]? := by
    rw [← he, getElem?_take_of_lt hi]
  rcases h i hi with h | h
  · exact h0 (hb ▸ h)
  · exact hr (hb ▸ h)

theorem rejectLegacy_ok : rejectLegacy bs = .ok () := by
  have h1 : bs.take 16 ≠ legacyMagic :=
    take_ne_of_magicSound h 9 (by decide) (by decide) (by decide)
  have h2 (v : Byte) : bs.take 16 ≠ segmentMagic v :=
    take_ne_of_magicSound h 9 (by decide) (by simp [segmentMagic, magicStem])
      (by simp [segmentMagic, rootMagic, magicStem])
  simp [rejectLegacy, h1, h2, pure, Except.pure]

theorem not_retired : bs.take 16 ∉ retiredRootMagics := by
  intro hm
  simp only [retiredRootMagics, mem_map, mem_cons, not_mem_nil, or_false] at hm
  obtain ⟨v, hv, he⟩ := hm
  -- The version digit decides: a sound slot has '5' or zero there.
  apply take_ne_of_magicSound h 15 (by decide) ?_ ?_ he.symm
  · rcases hv with rfl | rfl | rfl | rfl <;> decide
  · rcases hv with rfl | rfl | rfl | rfl <;> decide

/-- A torn image never fails to decode: it is seen as unwritten or invalid. -/
theorem decodeSlot_bad (hb : ChecksumBad bs) :
    decodeSlot bs = .ok (if isZero bs then .unwritten else .invalid) := by
  simp only [decodeSlot, rejectLegacy_ok h, not_retired h, hb, bind, Except.bind, if_true, if_false]
  split <;> rfl

end

theorem slotImage_magic (s : Superblock) : slice 0 16 (slotImage s) = rootMagic := by
  rw [slotImage_flatten]
  exact slice_nth 0 rfl rfl (by decide)

theorem slotImage_get (s : Superblock) (hi : i < 16) : (slotImage s)[i]? = rootMagic[i]? := by
  rw [← slotImage_magic s, slice, getElem?_take_of_lt (by omega)]
  simp

theorem magicSound_image (s : Superblock) : MagicSound (slotImage s) :=
  fun _ hi => .inr (slotImage_get s hi)

theorem not_checksumBad (ht : Typed s) (hg : s.garbage.length ≤ maxGarbage) :
    ¬ ChecksumBad (slotImage s) := by
  have hl := length_slotBody ht hg
  have hb : slice 0 4092 (slotImage s) = slotBody s := by
    have h : slotImage s = [] ++ slotBody s ++ le 4 (crc32c (slotBody s)) := by simp [slotImage]
    rw [h]
    exact slice_middle rfl (by simp [hl, checksumAt])
  have hs : slice 4092 4096 (slotImage s) = le 4 (crc32c (slotBody s)) := by
    have h : slotImage s = slotBody s ++ le 4 (crc32c (slotBody s)) ++ [] := by simp [slotImage]
    rw [h]
    exact slice_middle hl (by simp)
  rintro (h | h)
  · exact h (slotImage_magic s)
  · rw [hb, hs, unle_le (crc32c_fits _)] at h
    exact h rfl

theorem decodeSlot_image (ht : Typed s) (hi : s.invariantViolation = none)
    (hs : SourceCommitted s) : decodeSlot (slotImage s) = .ok (.valid s) := by
  have hz : ¬ isZero (slotImage s) = true := by
    intro hz
    have h0 := slotImage_get s (show 0 < 16 by decide)
    have hl := length_slotImage ht (invariants_of_ok hi).garbage
    rw [isZero_iff.mp hz, hl, zeros, getElem?_replicate_of_lt (by decide)] at h0
    exact absurd h0 (by decide)
  have hc := not_checksumBad ht (invariants_of_ok hi).garbage
  simp only [decodeSlot, rejectLegacy_ok (magicSound_image s), not_retired (magicSound_image s),
    hz, hc, decodeFields_image ht hi hs, bind, Except.bind]
  rfl

end Torn

end RootCodec
