import Kasumi.SegmentPublish

/-! What a power failure leaves of the segment files, and that replay reads it: synchronized
bytes are kept, each later byte is zero, as written or cut off. -/
namespace SegmentSurvive

open ByteFields MediaFormat SegmentRecords SegmentReplay SegmentLayout SegmentTorn List
open SegmentRecover SegmentWriter SegmentStored
open DirectoryPages (maxU64 segmentHeaderBytes recordHeaderBytes)
open RootFormat (ReplayStart)

variable {sha : Sha256} {gid batch : ℕ} {d : Disk} {log : Log} {c : Cursor}

def Left (f : SegFile) (file : List Byte) : Prop :=
  ∃ left, file = f.bytes.take f.kept ++ left ∧ Torn (f.bytes.drop f.kept) left

structure Survives (d : Disk) (image : LogImage) : Prop where
  absent : ∀ id, d.files id = none → image id = none
  present : ∀ id f, d.files id = some f → ∃ file, image id = some file ∧ Left f file

/-! ## Checksums -/

/-- The offsets at which the records of a segment start, as its headers give them. -/
def recordStarts (gid n : ℕ) (bytes : List Byte) : (fuel offset : ℕ) → List ℕ
  | 0, _ => []
  | fuel + 1, offset =>
    if bytes.length - offset < recordHeaderBytes then []
    else match decodeRecordHeader (slice offset (offset + recordHeaderBytes) bytes) gid ⟨n, offset⟩ with
      | .ok (some head) =>
        offset :: recordStarts gid n bytes fuel (offset + recordHeaderBytes + head.bodyLen)
      | _ => []

/-- The checksums tell what was written. In what is left of the newest segment, a checksum-valid
record header behind the synchronized bytes is one that the writer issued there, and a body that
matches it is the issued one; a valid segment header of the outstanding intent is its own. The
header checksum at the interrupted write is that of the pending commit only if that commit was
being written. -/
structure Unforged (sha : Sha256) (gid : ℕ) (d : Disk) (image : LogImage) (start : ReplayStart) :
    Prop where
  header : ∀ f file o, d.files d.root.lastSegmentId = some f →
    image d.root.lastSegmentId = some file → f.kept ≤ o → o + 36 ≤ file.length →
    HeaderValid gid ⟨d.root.lastSegmentId, o⟩ (slice o (o + 36) file) →
    o ∈ recordStarts gid d.root.lastSegmentId f.bytes f.bytes.length segmentHeaderBytes ∧
      slice o (o + 36) file = slice o (o + 36) f.bytes
  body : ∀ f file o head, d.files d.root.lastSegmentId = some f →
    image d.root.lastSegmentId = some file → f.kept ≤ o →
    o ∈ recordStarts gid d.root.lastSegmentId f.bytes f.bytes.length segmentHeaderBytes →
    decodeRecordHeader (slice o (o + 36) f.bytes) gid ⟨d.root.lastSegmentId, o⟩ =
      .ok (some head) →
    o + 36 + head.bodyLen ≤ file.length →
    crc32c (slice (o + 36) (o + 36 + head.bodyLen) file) = head.bodyCrc →
    slice (o + 36) (o + 36 + head.bodyLen) file = slice (o + 36) (o + 36 + head.bodyLen) f.bytes
  intent : ∀ p file, d.root.pendingSegment = some p → image p = some file →
    file.length = segmentHeaderBytes → slice 0 16 file = segmentMagic 52 →
    unle (slice 60 64 file) = crc32c (slice 0 60 file) → file = segmentHeader gid p
  commit : ∀ f file acc r resume offset, d.files d.root.lastSegmentId = some f →
    image d.root.lastSegmentId = some file →
    approach sha gid image start (logBounds d.root) = .ok acc →
    Replay.scanRecords sha gid full file d.root.lastSegmentId file.length
      { acc.1 with segmentAttempt := none } (replayOffset start d.root.lastSegmentId)
      (replayOffset start d.root.lastSegmentId) = .ok (r, resume, some offset) →
    NoCoincidence sha gid r file d.root.lastSegmentId offset (slice offset (offset + 36) f.bytes)

theorem slice_issued (h : bs <+: whole) (hb : b ≤ bs.length) : slice a b bs = slice a b whole := by
  obtain ⟨rest, rfl⟩ := h
  by_cases ha : a ≤ b
  · simp only [slice]
    rw [drop_append_of_le_length (ha.trans hb), take_append_of_le_length]
    simp only [length_drop]
    omega
  · have hz : b - a = 0 := by omega
    simp [slice, hz]

theorem recordStarts_mem (hb : bs <+: pre ++ recsBytes gid n off recs)
    (hp : pre.length = off) (hw : ∀ r ∈ recs, r.head.Written)
    (ho : o ∈ recordStarts gid n bs fuel off) : ∃ r, StartsAt off recs o r ∧
    slice o (o + 36) bs = recordHeader gid ⟨n, o⟩ r.head := by
  induction fuel generalizing off recs pre with
  | zero => cases ho
  | succ fuel ih =>
    rw [recordStarts] at ho
    by_cases hr : bs.length - off < recordHeaderBytes
    · simp only [hr, if_true] at ho
      cases ho
    simp only [hr, if_false] at ho
    rw [recordHeaderBytes] at hr ho
    have hl := hb.length_le
    cases recs with
    | nil =>
      simp only [recsBytes, append_nil] at hl
      omega
    | cons r recs =>
      -- The header is whole in the issued bytes, so the walk decodes it.
      have hsl : slice off (off + 36) bs = recordHeader gid ⟨n, off⟩ r.head := by
        rw [slice_issued hb (by omega), recsBytes, Rec.bytes, append_assoc,
          ← append_assoc]
        exact slice_middle hp (by simp)
      rw [hsl, decodeRecordHeader_header gid _ (hw r mem_cons_self)] at ho
      rcases mem_cons.mp ho with rfl | ho
      · exact ⟨r, .inl ⟨rfl, rfl⟩, hsl⟩
      have hn : off + 36 + r.head.bodyLen = off + r.len := by
        simp [Rec.head, Rec.len, Nat.add_assoc]
      rw [hn] at ho
      have hb' : bs <+: (pre ++ r.bytes gid n off) ++
          recsBytes gid n (off + r.len) recs := by
        rw [append_assoc]
        exact hb
      obtain ⟨q, hq, hs⟩ := ih hb' (by simp [hp])
        (fun q hq => hw q (mem_cons_of_mem _ hq)) ho
      exact ⟨q, .inr hq, hs⟩

theorem startsAt_behind (h : StartsAt off (a ++ b) o r) (ho : off + recsLen a ≤ o) :
    StartsAt (off + recsLen a) b o r := by
  induction a generalizing off with
  | nil => simpa using h
  | cons q a ih =>
    have hp : 0 < q.len := by simp [Rec.len]
    rw [recsLen_cons] at ho ⊢
    rcases h with ⟨rfl, -⟩ | h
    · omega
    · have := ih h (by omega)
      rwa [Nat.add_assoc] at this

theorem slice_startsAt (hb : whole = pre ++ recsBytes gid n off recs) (hp : pre.length = off)
    (h : StartsAt off recs o r) : slice o (o + r.len) whole = r.bytes gid n o := by
  induction recs generalizing off pre with
  | nil => cases h
  | cons q recs ih =>
    rcases h with ⟨rfl, rfl⟩ | h
    · rw [hb, recsBytes, ← append_assoc]
      exact slice_middle hp (by simp)
    have hb' : whole = (pre ++ q.bytes gid n off) ++ recsBytes gid n (off + q.len) recs := by
      rw [hb, recsBytes, append_assoc]
    exact ih hb' (by simp [hp]) h

/-! ## What is left of a stored log -/

section

variable (h : Stored sha gid d log c batch)

include h

theorem Stored.left (hs : Survives d img) : ∃ bs left, d.files log.last = some ⟨bs,
    segmentHeaderBytes + recsLen log.newest⟩ ∧ bs <+: segmentImage gid log.last (log.newest ++
    log.tail) ∧ img log.last = some (segmentImage gid log.last log.newest ++ left) ∧ Torn
    (recsBytes gid c.segmentId c.offset log.tail) left ∧ (segmentImage gid log.last log.newest ++
    left).length ≤ bs.length := by
  obtain ⟨bs, hf, hlo, hh⟩ := h.newest
  obtain ⟨file, hi, left, rfl, ht⟩ := hs.present _ _ hf
  obtain ⟨rest, rfl⟩ := hlo
  have hl : (segmentImage gid log.last log.newest).length =
      segmentHeaderBytes + recsLen log.newest := length_segmentImage _ _ _
  have hta : (segmentImage gid log.last log.newest ++ rest).take
      (segmentHeaderBytes + recsLen log.newest) = segmentImage gid log.last log.newest :=
    take_left' hl
  have hd : (segmentImage gid log.last log.newest ++ rest).drop
      (segmentHeaderBytes + recsLen log.newest) = rest := drop_left' hl
  simp only [hta, hd] at hi ht
  have hr : rest <+: recsBytes gid c.segmentId c.offset log.tail := by
    rw [segmentImage_append, prefix_append_right_inj] at hh
    rw [h.position.1, h.position.2]
    exact hh
  refine ⟨_, left, hf, hh, hi, ht.of_issued hr, ?_⟩
  have := ht.short
  simp only [length_append]
  omega

theorem Stored.holds (hs : Survives d img) {left : List Byte}
    (him : img log.last = some (segmentImage gid log.last log.newest ++ left))
    (hle : left.length ≤ recsLen log.tail) : Holds gid log img left := by
  refine ⟨?_, him, h.small, ?_, ?_⟩
  · intro i recs hi
    obtain ⟨file, hf, left, rfl, ht⟩ := hs.present _ _ (h.sealed i recs hi)
    have hl : (segmentImage gid (i + 1) recs).length = segmentHeaderBytes + recsLen recs :=
      length_segmentImage _ _ _
    have hsh := ht.short
    have hn : left = [] := by
      apply eq_nil_of_length_eq_zero
      simp only [length_drop, hl] at hsh
      omega
    rw [hf, hn, append_nil, ← hl, take_length]
  · have := h.short
    omega
  have hid := h.frontier.ids
  have hne := h.frontier.next
  simp only [Fits, maxU64] at *
  omega

theorem Stored.legible (hu : Unforged sha gid d img start) {left : List Byte}
    (hf : d.files log.last = some ⟨bs, segmentHeaderBytes + recsLen log.newest⟩)
    (hb : bs <+: segmentImage gid log.last (log.newest ++ log.tail))
    (hi : img log.last = some (segmentImage gid log.last log.newest ++ left))
    (ht : Torn (recsBytes gid c.segmentId c.offset log.tail) left)
    (hsh : (segmentImage gid log.last log.newest ++ left).length ≤ bs.length) :
    Legible sha gid log c (logBounds d.root) img start left bs := by
  have hla : d.root.lastSegmentId = log.last := h.frontier.last
  obtain ⟨hse, hof⟩ := h.position
  have hf' : d.files d.root.lastSegmentId =
      some ⟨bs, segmentHeaderBytes + recsLen log.newest⟩ := by
    rw [hla]
    exact hf
  have hi' : img d.root.lastSegmentId =
      some (segmentImage gid log.last log.newest ++ left) := by
    rw [hla]
    exact hi
  have hw : ∀ r ∈ log.newest ++ log.tail, r.head.Written := by
    intro r hr
    rcases mem_append.mp hr with hr | hr
    · exact h.readable.written log.newest (by simp [Log.segments]) r hr
    · exact h.readable.tail.attempt.written r hr
  -- A checksum-valid header behind the synchronized records is that of a record of the tail.
  have hh : ∀ o, c.offset ≤ o →
      o + 36 ≤ (segmentImage gid log.last log.newest ++ left).length →
      HeaderValid gid ⟨c.segmentId, o⟩
        (slice o (o + 36) (segmentImage gid log.last log.newest ++ left)) →
      o ∈ recordStarts gid log.last bs bs.length segmentHeaderBytes ∧
        slice o (o + 36) (segmentImage gid log.last log.newest ++ left) = slice o (o + 36) bs ∧
        ∃ r, StartsAt c.offset log.tail o r ∧
          slice o (o + 36) bs = recordHeader gid ⟨c.segmentId, o⟩ r.head := by
    intro o ho hl hv
    rw [hse] at hv
    have hk : segmentHeaderBytes + recsLen log.newest ≤ o := hof ▸ ho
    have hv' := hu.header _ _ o hf' hi' hk hl (by rw [hla]; exact hv)
    rw [hla] at hv'
    obtain ⟨hm, hsa⟩ := hv'
    have hb' : bs <+: segmentHeader gid log.last ++
        recsBytes gid log.last segmentHeaderBytes (log.newest ++ log.tail) := hb
    obtain ⟨r, hr, hs⟩ := recordStarts_mem hb' (by simp [segmentHeaderBytes]) hw hm
    refine ⟨hm, hsa, r, ?_, by rw [hse]; exact hs⟩
    rw [hof]
    exact startsAt_behind hr hk
  refine ⟨ht, ⟨?_, ?_⟩, hb, hsh, ?_⟩
  · intro o ho hl hv
    obtain ⟨-, hsa, r, hr, hs⟩ := hh o ho hl hv
    exact ⟨r, hr, hsa.trans hs⟩
  · intro o r hr hl hhe hcr
    have hp : 36 ≤ r.len := by simp [Rec.len]
    have hle : o + 36 + r.head.bodyLen = o + r.len := by
      simp [Rec.head, Rec.len, Nat.add_assoc]
    obtain ⟨hm, hsa, -⟩ := hh o hr.le (by omega) (by rw [hhe]; exact header_valid _ _ _)
    have hd : decodeRecordHeader (slice o (o + 36) bs) gid ⟨log.last, o⟩ =
        .ok (some r.head) := by
      rw [← hsa, hhe, hse]
      exact decodeRecordHeader_header gid _ (hw r (mem_append_right _ hr.mem))
    have hk : segmentHeaderBytes + recsLen log.newest ≤ o := hof ▸ hr.le
    have hbo := hu.body _ _ o r.head hf' hi' hk
      (by rw [hla]; exact hm) (by rw [hla]; exact hd) (by rw [hle]; exact hl)
      (by rw [hle]; exact hcr)
    rw [hle] at hbo
    rw [hbo, slice_issued hb (by omega)]
    have hwh : segmentImage gid log.last (log.newest ++ log.tail) =
        segmentImage gid log.last log.newest ++ recsBytes gid log.last c.offset log.tail := by
      rw [segmentImage_append, hof]
    have hre := slice_startsAt hwh (by simp [hof]) hr
    have hsu : slice 36 r.len (slice o (o + r.len) _) = slice (o + 36) (o + r.len)
        (segmentImage gid log.last (log.newest ++ log.tail)) := slice_slice le_rfl
    rw [← hsu, hre, Rec.bytes]
    simp [slice, Rec.len]
  intro acc r resume off ha hsc
  have hc := hu.commit _ _ acc r resume off hf' hi' ha
  rw [hla] at hc
  exact hc hsc

end

/-! ## The file of an outstanding intent -/

theorem torn_left (h : Torn w f.bytes) (hl : Left f file) : Torn w file := by
  obtain ⟨left, rfl, ht⟩ := hl
  have hs := h.short
  have hts := ht.short
  constructor
  · simp only [length_append, length_take, length_drop] at *
    omega
  intro i b hb
  by_cases hi : i < (f.bytes.take f.kept).length
  · rw [getElem?_append_left hi] at hb
    have hik : i < f.kept := by
      simp only [length_take] at hi
      omega
    rw [getElem?_take_of_lt hik] at hb
    exact h.bytes i b hb
  rw [getElem?_append_right (by omega)] at hb
  rcases ht.bytes _ b hb with hz | hw
  · exact .inl hz
  rw [getElem?_drop] at hw
  have hin := (List.getElem?_eq_some_iff.mp hw).1
  have hid : f.kept + (i - (f.bytes.take f.kept).length) = i := by
    simp only [length_take] at *
    omega
  rw [hid] at hw
  exact h.bytes i b hw

theorem torn_magic (h : Torn w file) (hm : magic[i]? = some b)
    (hi : i < 16) (hb : b ≠ 0) (hw : w[i]? ≠ some b) : file.take 16 ≠ magic := by
  intro he
  rw [← he, getElem?_take_of_lt hi] at hm
  rcases h.bytes i b hm with hz | hw'
  · exact hb hz
  · exact hw hw'

theorem header_byte (hi : i < 16) (gid p : ℕ) :
    (segmentHeader gid p)[i]? = (segmentMagic 52)[i]? := by
  rw [← segmentHeader_take gid p, getElem?_take_of_lt hi]

theorem rejectLegacy_torn (h : Torn (segmentHeader gid p) file) : rejectLegacy file = .ok () := by
  apply rejectLegacy_ok
  · apply torn_magic h (i := 9) (b := 45)
    · decide
    · decide
    · decide
    · rw [header_byte (by decide)]
      decide
  intro v hv
  have hn : v ≠ 0 ∧ v ≠ 52 := by
    simp only [mem_cons, not_mem_nil, or_false] at hv
    rcases hv with rfl | rfl | rfl <;> decide
  apply torn_magic h (i := 15) (b := v)
  · rfl
  · decide
  · exact hn.1
  · intro he
    exact hn.2 (Option.some.inj he).symm

theorem checkPending_torn (hi : img p = some file) (h : Torn (segmentHeader gid p) file)
    (hp : Fits 8 p) (hv : file.length = segmentHeaderBytes → slice 0 16 file = segmentMagic 52 →
      unle (slice 60 64 file) = crc32c (slice 0 60 file) → file = segmentHeader gid p) :
    checkPendingSegment gid img p = .ok true := by
  have hl : ¬ file.length > segmentHeaderBytes := by
    have := h.short
    simp only [length_segmentHeader, segmentHeaderBytes] at *
    omega
  have hd : ∃ state, decodeSegmentHeader file gid p = .ok state := by
    by_cases hw : file = segmentHeader gid p
    · rw [hw]
      exact ⟨_, decodeSegmentHeader_header hp⟩
    have hb : file.length < segmentHeaderBytes ∨ slice 0 16 file ≠ segmentMagic 52 ∨
        unle (slice 60 64 file) ≠ crc32c (slice 0 60 file) := by
      by_contra hg
      simp only [not_or, not_not] at hg
      exact hw (hv (by omega) hg.2.1 hg.2.2)
    rw [decodeSegmentHeader, rejectLegacy_torn h, SegmentBatch.ok_bind]
    by_cases hz : isZero file
    · exact ⟨.unwritten, by simp only [hz, if_true]; rfl⟩
    · exact ⟨.torn, by simp only [hz, Bool.false_eq_true, hb, if_false, if_true]; rfl⟩
  obtain ⟨state, hs⟩ := hd
  simp only [checkPendingSegment, hi, hl, if_false, hs, otherThanWritten_torn h]
  rfl

theorem Frontier.intent (h : Frontier gid n d) (hs : Survives d img)
    (hu : Unforged sha gid d img start) (hp : d.root.pendingSegment = some p) :
    p = n + 1 ∧ ∃ present, checkPendingSegment gid img p = .ok present := by
  obtain ⟨rfl, hn⟩ := h.pending_eq hp
  refine ⟨rfl, ?_⟩
  have hid := h.ids
  cases hf : d.files (n + 1) with
  | none =>
    refine ⟨false, ?_⟩
    simp only [checkPendingSegment, hs.absent _ hf]
    rfl
  | some f =>
    obtain ⟨file, hi, hl⟩ := hs.present _ _ hf
    refine ⟨true, checkPending_torn hi (torn_left (h.header f hf).2 hl) ?_ ?_⟩
    · simp only [Fits, maxU64] at *
      omega
    · exact hu.intent _ _ hp hi

theorem Stored.replayed {k : ℕ} (h : Stored sha gid d log c batch) (hs : Survives d img)
    (hu : Unforged sha gid d img (startAfter c.replay.visited k))
    (hk : k ≤ c.replay.visited.length) :
    ∃ left a b e out, img log.last = some (segmentImage gid log.last log.newest ++ left) ∧
      Torn (recsBytes gid c.segmentId c.offset log.tail) left ∧
      Genuine gid c.segmentId c.offset log.tail (segmentImage gid log.last log.newest ++ left) ∧
      log.tail = a ++ b ∧ c.run sha gid full (a.map .record) = some e ∧
      recsBytes gid c.segmentId c.offset a <+: left ∧
      (∀ q more, b = q :: more → ¬ q.bytes gid e.segmentId e.offset <+:
        (segmentImage gid log.last log.newest ++ left).drop e.offset) ∧
      replay sha gid true img (startAfter c.replay.visited k) (logBounds d.root) = .ok out ∧
      Recovered log (logBounds d.root) k (segmentImage gid log.last log.newest ++ left) e batch
        out := by
  obtain ⟨bs, left, hf, hb, hi, ht, hsh⟩ := Stored.left h hs
  have hl := Stored.legible h hu hf hb hi ht hsh
  have hh := Stored.holds h hs hi (by simpa using ht.short)
  obtain ⟨a, b, e, out, hta, hru, hp, hc, hr, hre⟩ :=
    replay_image h.readable h.record hh hl h.frontier.last hk (fun p hp => by
      obtain ⟨hla, ho⟩ := Frontier.intent h.frontier hs hu hp
      exact ⟨hla, h.intent (by rw [show d.root.pendingSegment = some p from hp]; rfl), ho⟩)
      h.seen h.batch
  exact ⟨left, a, b, e, out, hi, ht, hl.genuine, hta, hru, hp, hc, hr, hre⟩

theorem Bare.replayed (h : Bare gid d) (hs : Survives d img) (hu : Unforged sha gid d img
    replayGenesis) : replay sha gid true img replayGenesis (logBounds d.root) = .ok
    ((ReplayEnd.opened replayGenesis (logBounds d.root)).finish (Replay.init replayGenesis), []) :=
    by
  have hl : (logBounds d.root).lastSegmentId = 0 := h.frontier.last
  have hb : checkBounds gid full img replayGenesis (logBounds d.root) = .ok () := by
    apply checkBounds_ok
    intro p hp
    rw [hl]
    exact Frontier.intent h.frontier hs hu hp
  have hf : (⟨maxBatchOperations, true, none⟩ : ReplayPolicy) = full := rfl
  rw [replay, hf, replayWithPolicy, hb]
  simp only [SegmentBatch.ok_bind, replaySegments, hl, if_true, ne_eq, not_true_eq_false,
    if_false, checkPrepared, full]
  rfl

end SegmentSurvive
