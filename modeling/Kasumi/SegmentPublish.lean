import Kasumi.SegmentAppend

/-! The two phases of a batch: its operations are prepared and synchronized, then one commit
record publishes them with their directory root. -/
namespace SegmentPublish

open ByteFields MediaFormat SegmentRecords SegmentReplay SegmentLayout SegmentTorn List
open SegmentRecover SegmentBatch SegmentWriter SegmentDurable SegmentStored
open SegmentAppend
open DirectoryPages (DirectoryRoot maxU64 segmentBytes segmentHeaderBytes recordHeaderBytes)
open RootFormat (Digest commitRecordBytes)
open RootPublication (rejected)

variable {sha : Sha256} {gid : ℕ} {d : Disk} {w : Writer} {r : Replay} {p : PendingBatch}

def fresh (batchSeq : ℕ) : PendingBatch := ⟨batchSeq, none, [], 0, 0, 0, [], none⟩

structure Idle (sha : Sha256) (gid : ℕ) (d : Disk) (w : Writer) (r : Replay) : Prop where
  ahead : Ahead sha gid d w r (fresh w.nextBatchSeq)
  prepared : w.prepared = none
  max : w.nextBatchSeq ≤ maxU64

def Settled (sha : Sha256) (gid : ℕ) (d : Disk) (w : Writer) (r : Replay) : Prop :=
  ∃ log c, log.tail = [] ∧ c.replay = r ∧ Writing sha gid d w log c c w.nextBatchSeq

structure Prepared (sha : Sha256) (gid : ℕ) (d : Disk) (w : Writer) (r : Replay)
    (ops : List Operation) (b : PreparedBatch) : Prop where
  settled : Settled sha gid d w r
  reserved : w.reserved = none
  pending : ∃ message encoded,
    Progress r w.nextBatchSeq (written (fresh w.nextBatchSeq) message ops b.values encoded) ∧
      b.identity.opsSha256 = (sha message).val
  values : b.values.length = ops.length
  nonempty : ops ≠ []
  count : ops.length ≤ maxBatchOperations
  prepared : w.prepared = some b.identity
  batchSeq : b.identity.batchSeq = w.nextBatchSeq
  max : w.nextBatchSeq < maxU64

theorem does_writeOperations (h : Ahead sha gid d w r (fresh w.nextBatchSeq))
    (hma : w.nextBatchSeq < maxU64) (ho : validateBatch ops = .ok ()) :
    Does d w (writeOperations sha ops start) (fun _ d' _ => Safe sha gid r.visited d')
      fun b d' w' => ∃ r', Moved w w' ∧ Unsettled r r' ∧
        ∀ w'', w'' = { w' with prepared := some b.identity } →
          Prepared sha gid d' w'' r' ops b := by
  obtain ⟨hne, hle, hbo, hsu⟩ := validateBatch_ok ho
  apply does_bind (does_writeRecords h hma hbo (by simpa [fresh] using hle)
    (by simpa [fresh] using hsu))
  rintro ⟨msg, values⟩ d1 w1 ⟨r1, encoded, hm, hres, hu, hv, ha⟩
  have hn : w1.nextBatchSeq = w.nextBatchSeq := by rw [hm]
  obtain ⟨b, hp, hs⟩ := ha.place
  have hr := hres (.inr hne)
  rw [← hu.visited]
  cases hp with
  | bare hba hw =>
    -- There is an active segment once a record is written; `expect` would stop here.
    have hno : w1.active = none := hw.active
    apply does_then
    apply does_get
    intro fault
    simp only [hno]
    exact does_throw (.inl ⟨hba, rfl⟩)
  | segment log c e hw hk =>
    have hb : b = w1.nextBatchSeq := hs hr (hn ▸ hma)
    subst hb
    have hpr := Progress.resume ha.progress (.inl rfl) (hw.attempt hk).2
    refine does_then (does_active hw.buffered.active ?_)
    apply does_bind (does_flush_writing hw hk)
    rintro _ d2 w2 ⟨hre, he, hw2⟩
    have hl : w2.nextBatchSeq = w1.nextBatchSeq := by rw [hre]
    apply does_bind (does_sync_writing hw2 he hk)
    rintro _ d3 w3 ⟨rfl, hw3⟩
    apply does_get
    intro fault
    apply does_pure
    refine ⟨e.replay, hm.trans (Restaged.moved hre), hu, ?_⟩
    rintro _ rfl
    rw [← hl] at hw3 hpr
    refine ⟨⟨synced log, e, rfl, rfl, hw3.owner rfl⟩, ?_, ⟨msg, encoded, ?_, rfl⟩, hv,
      hne, hle, rfl, rfl, ?_⟩
    · rw [hre]
      exact hr
    · have hf : fresh w3.nextBatchSeq = fresh w.nextBatchSeq := by rw [hl, hn]
      rw [hf]
      exact hpr
    · rw [hl, hn]
      exact hma

/-- A failed call: refused before any effect, or the writer is fenced on a safe disk. -/
def Failed (sha : Sha256) (gid : ℕ) (d : Disk) (w : Writer) (r : Replay) (d' : Disk)
    (w' : Writer) : Prop :=
  (d' = d ∧ w' = w) ∨ (w'.fenced = true ∧ Safe sha gid r.visited d')

theorem does_prepareBatch (h : Idle sha gid d w r) :
    Does d w (prepareBatch sha ops) (fun _ d' w' => Failed sha gid d w r d' w') fun b d' w' =>
      ∃ r', Unsettled r r' ∧ Prepared sha gid d' w' r' ops b := by
  apply does_get
  intro fault
  by_cases hf : w.fenced ∨ w.prepared.isSome
  · simp only [hf, if_true]
    exact does_throw (.inl ⟨rfl, rfl⟩)
  by_cases hm : w.nextBatchSeq = maxU64
  · simp only [hf, if_false]
    rw [if_pos hm]
    exact does_throw (.inl ⟨rfl, rfl⟩)
  simp only [hf, hm, if_false]
  refine does_then (does_refuse (fun _ _ => .inl ⟨rfl, rfl⟩) fun _ ho => ?_)
  have hl : w.nextBatchSeq < maxU64 := lt_of_le_of_ne h.max hm
  apply does_bind (does_fencing (does_mono (does_writeOperations h.ahead hl ho) ?_
    (fun _ _ _ hq => hq)))
  · rintro b d' w' ⟨r', -, hu, hp⟩
    exact does_then (does_modify (does_pure ⟨r', hu, hp _ rfl⟩))
  · intro _ d' w' he
    exact .inr ⟨rfl, he⟩

/-! ## Publication -/

section Publication

variable {batch : ℕ} {log : Log} {c e : Cursor} {q : Rec}

/-- What one more record behind a synchronized log needs to be appended. -/
structure Appends (sha : Sha256) (gid : ℕ) (d : Disk) (w : Writer) (log : Log) (c e : Cursor)
    (batch : ℕ) (q : Rec) : Prop where
  writing : Writing sha gid d w log c c batch
  settled : log.tail = []
  reserved : w.reserved = none
  tail : Tail sha gid c batch [q]
  step : c.step sha gid full (.record q) = some e
  fits : w.endAt + q.len ≤ segmentBytes

def issuedDisk (d : Disk) (gid : ℕ) (log : Log) (q : Rec) : Disk :=
  d.put log.last ⟨segmentImage gid log.last (log.newest ++ [q]),
    segmentHeaderBytes + recsLen log.newest⟩

def syncedDisk (d : Disk) (gid : ℕ) (log : Log) (q : Rec) : Disk :=
  d.put log.last ⟨segmentImage gid log.last (log.newest ++ [q]),
    segmentHeaderBytes + recsLen (log.newest ++ [q])⟩

theorem sync_issuedDisk (d : Disk) (gid : ℕ) (log : Log) (q : Rec) :
    (issuedDisk d gid log q).put log.last (SegFile.sync
      ⟨segmentImage gid log.last (log.newest ++ [q]), segmentHeaderBytes + recsLen log.newest⟩) =
      syncedDisk d gid log q := by
  rw [issuedDisk, syncedDisk, ← length_segmentImage gid log.last (log.newest ++ [q])]
  exact put_put _ _ _ _

section

variable (h : Appends sha gid d w log c e batch q)

include h

theorem Appends.file : d.files log.last = some ⟨segmentImage gid log.last log.newest,
    segmentHeaderBytes + recsLen log.newest⟩ :=
  h.writing.stored.newest_whole h.settled

theorem Appends.endAt : w.endAt = (segmentImage gid log.last log.newest).length := by
  have he := h.writing.buffered.endAt
  rwa [h.settled, append_nil] at he

theorem Appends.bytes : segmentImage gid log.last log.newest ++ q.bytes gid log.last w.endAt =
    segmentImage gid log.last (log.newest ++ [q]) := by
  rw [h.endAt, segmentImage_append, length_segmentImage]
  simp [recsBytes]

theorem Appends.issued :
    Stored sha gid (issuedDisk d gid log q) { log with tail := [q] } c batch := by
  have hp : d.root.pendingSegment = none := h.writing.reserved.symm.trans h.reserved
  have he := h.endAt
  have hf := h.fits
  have hs := h.writing.stored.issue (by rw [h.settled]; exact List.nil_prefix) h.tail
    hp (by simp only [length_segmentImage, recsLen_cons, recsLen_nil] at *; omega)
  apply hs.extended
  apply put_extended
  · rw [segmentImage_append]
    exact prefix_append _ _
  · exact prefix_rfl

theorem Appends.stored {b : ℕ}
    (ha : e.replay.segmentAttempt = none ∨ e.replay.segmentAttempt = some b) (hb : b < maxU64) :
    Stored sha gid (syncedDisk d gid log q) (synced { log with tail := [q] }) e b := by
  have hr : c.run sha gid full ([q].map .record) = some e := run_cons.mpr ⟨e, h.step, rfl⟩
  rw [← sync_issuedDisk]
  exact h.issued.sync hr ha hb

/-- The write and the synchronization of one record; `wrap` may change the failure that the
caller sees. -/
theorem does_publish {wrap : LogM Unit → LogM Unit}
    (hw : ∀ {d w x Q}, Does d w x E Q → Does d w (wrap x) E Q) (h0 : E (rejected .io) d w)
    (h1 : E (rejected .io) (issuedDisk d gid log q) w)
    (h2 : E (rejected .io) (syncedDisk d gid log q) w)
    (hf : Does (syncedDisk d gid log q) w (f ()) E Q) :
    Does d w (wrap (writeFile log.last w.endAt (q.bytes gid log.last w.endAt)) >>= fun _ =>
      wrap (syncFile log.last) >>= f) E Q := by
  have hp : d.put log.last ⟨segmentImage gid log.last log.newest ++ q.bytes gid log.last w.endAt,
      segmentHeaderBytes + recsLen log.newest⟩ = issuedDisk d gid log q := by
    rw [h.bytes]
    rfl
  have hs := sync_issuedDisk d gid log q
  refine does_then (hw (does_append h.file h.endAt (by simp) h0 (hp ▸ h1) ?_))
  rw [hp]
  exact does_then (hw (does_file (files_put _ _ _) h1 (hs ▸ h2) (hs ▸ hf)))

theorem Appends.stage : w.stage = [] := by
  obtain ⟨bs, hf, -, hb⟩ := h.writing.buffered.file
  rw [h.file] at hf
  cases hf
  rw [h.settled, append_nil] at hb
  exact append_right_eq_self.mp hb

variable {w' : Writer}

theorem Appends.after {b : ℕ}
    (ha : e.replay.segmentAttempt = none ∨ e.replay.segmentAttempt = some b) (hb : b < maxU64)
    (hw : w' = { w with
      endAt := w.endAt + q.len
      stageAt := w.endAt + q.len
      lastBatchSeq := e.replay.batchSeq
      nextBatchSeq := w'.nextBatchSeq
      chain := e.replay.chain
      prepared := w'.prepared }) :
    Writing sha gid (syncedDisk d gid log q) w' (synced { log with tail := [q] }) e e b := by
  have hs := h.stage
  have he := h.endAt
  rw [hw]
  refine ⟨h.stored ha hb, rfl, ?_, h.writing.group, h.writing.capacity, h.writing.reserved, rfl,
    rfl⟩
  have hi : (synced { log with tail := [q] }).newest ++ (synced { log with tail := [q] }).tail =
      log.newest ++ [q] := by simp [synced]
  rw [hi]
  refine ⟨h.writing.buffered.active, ?_, ?_, ⟨_, files_put _ _ _, prefix_rfl, ?_⟩, ?_⟩
  · simp [he, Nat.add_assoc]
  · simp [hs]
  · rw [hs, append_nil]
    rfl
  · simp [synced]

end

/-- The file of the active segment and the writer's place in it, untouched. -/
structure Still (w : Writer) (n : ℕ) (bytes : List Byte) (d' : Disk) (w' : Writer) : Prop where
  active : w'.active = some n
  endAt : w'.endAt = w.endAt
  file : ∃ kept, d'.files n = some ⟨bytes, kept⟩

variable {b : PreparedBatch}

theorem Still.put {id : ℕ} (h : Still w n bs d' w') (hi : id ≠ n) :
    Still w n bs (d'.put id f) w' := by
  obtain ⟨kept, hf⟩ := h.file
  refine ⟨h.active, h.endAt, kept, ?_⟩
  simp only [Disk.put, hi.symm, if_false]
  exact hf

theorem does_next_still {d1 : Disk} (h : Still w n bs d1 w1) (hr : w1.reserved = none)
    : Does d1 w1 nextSegment (fun _ d' w' => Still w n bs d' w') fun id d' w' => id ≠ n ∧
    d'.files id = some ⟨[], 0⟩ ∧ Still w n bs d' w' := by
  obtain ⟨kept, hf⟩ := h.file
  refine does_get fun _ => does_then (does_modify ?_)
  simp only [hr]
  refine does_then (does_get fun _ => does_then (does_refuse ?_ ?_))
  · intro _ _
    exact ⟨h.active, h.endAt, kept, hf⟩
  rintro ⟨next, id⟩ -
  refine does_then (does_call ⟨h.active, h.endAt, kept, hf⟩ ⟨h.active, h.endAt, kept, hf⟩ ?_)
  refine does_pure (does_then (does_get fun _ => ?_))
  by_cases hn : d1.files id = none
  · have hi : id ≠ n := by
      rintro rfl
      rw [hf] at hn
      cases hn
    have hs : Still w n bs { d1 with root := next } { w1 with reserved := none } :=
      ⟨h.active, h.endAt, kept, hf⟩
    simp only [hn, ne_eq, not_true_eq_false, if_false]
    exact does_call hs (hs.put hi) (does_pure ⟨hi, files_put _ _ _, hs.put hi⟩)
  · simp only [hn, ne_eq, not_false_eq_true, if_true]
    exact does_throw ⟨h.active, h.endAt, kept, hf⟩

/-- A roll with nothing staged leaves the old segment and the writer's place in it alone until
the new one is confirmed. -/
theorem does_roll_still {kept : ℕ} (hf : d.files n = some ⟨bs, kept⟩)
    (ha : w.active = some n) (hs : w.stage = []) (hr : w.reserved = none) :
    Does d w rollSegment (fun _ d' w' => Still w n bs d' w') fun _ _ _ => True := by
  have h1 : Still w n bs (d.put n ⟨bs, bs.length⟩) { w with stageAt := w.endAt } :=
    ⟨ha, rfl, _, files_put _ _ _⟩
  refine does_then (does_get fun _ => ?_)
  simp only [hs, if_true]
  refine does_modify (does_then (does_syncActive_some ha ?_))
  refine does_file hf ⟨ha, rfl, kept, hf⟩ h1 ?_
  apply does_bind (does_next_still h1 hr)
  rintro id d2 w2 ⟨hi, hfi, h2⟩
  apply does_get
  intro fault
  refine does_then (does_file hfi h2 (h2.put hi) ?_)
  refine does_then (does_file (files_put _ _ _) (h2.put hi) ((h2.put hi).put hi) ?_)
  have h3 := (h2.put (f := (SegFile.write ⟨[], 0⟩ 0 (segmentHeader w2.groupId id)).sync) hi)
  rw [put_put]
  refine does_then (does_get fun _ => does_then (does_refuse (fun _ _ => h3) fun next _ => ?_))
  obtain ⟨kept', hf'⟩ := h3.file
  exact does_call h3 ⟨h3.active, h3.endAt, kept', hf'⟩ (does_modify trivial)

theorem does_room_still (hf : d.files n = some ⟨bs, kept⟩)
    (ha : w.active = some n) (hs : w.stage = []) (hr : w.reserved = none) :
    Does d w (ensureRoom len) (fun _ d' w' => Still w n bs d' w') fun _ _ _ => True := by
  apply does_get
  intro fault
  split
  · exact does_pure trivial
  split
  · exact does_throw ⟨ha, rfl, kept, hf⟩
  · exact does_roll_still hf ha hs hr

/-- No commit record can be whole where the writer stands. -/
def Clear (d : Disk) (w : Writer) : Prop :=
  ∃ n file, w.active = some n ∧ d.files n = some file ∧
    file.bytes.length < w.endAt + commitRecordBytes

theorem Settled.place (h : Settled sha gid d w r) : At sha gid d w w.nextBatchSeq r := by
  obtain ⟨log, c, ht, rfl, hw⟩ := h
  exact .segment log c c hw (by simp [ht])

theorem Writing.file (h : Writing sha gid d w log c c batch) (ht : log.tail = []) :
    w.stage = [] ∧ w.endAt = (segmentImage gid log.last log.newest).length ∧
      ∃ kept, d.files log.last = some ⟨segmentImage gid log.last log.newest, kept⟩ := by
  have hf := h.stored.newest_whole ht
  obtain ⟨bs, hfi, -, hb⟩ := h.buffered.file
  have he := h.buffered.endAt
  rw [ht, append_nil] at hb he
  rw [hf] at hfi
  cases hfi
  exact ⟨append_right_eq_self.mp hb, he, _, hf⟩

theorem does_settle (h : Settled sha gid d w r) (hr : w.reserved = none)
    (hma : w.nextBatchSeq < maxU64) (len : ℕ) :
    Does d w (ensureRoom len) (fun _ d' w' => Safe sha gid r.visited d' ∧ Clear d' w')
      fun _ d' w' => Moved w w' ∧ ∃ log c, log.tail = [] ∧
        (c.replay = r ∨ c.replay = { r with segmentAttempt := none }) ∧
        Writing sha gid d' w' log c c w.nextBatchSeq ∧ w'.reserved = none ∧
        w'.endAt + len ≤ segmentBytes := by
  have hp := Settled.place h
  obtain ⟨log, c, ht, hc, hw⟩ := h
  obtain ⟨hst, he, kept, hf⟩ := Writing.file hw ht
  refine does_mono (does_and (does_ensureRoom_of (Q := fun _ d' w' => Moved w w' ∧ ∃ log c, log.tail
    = [] ∧ (c.replay = r ∨ c.replay = { r with segmentAttempt := none }) ∧ Writing sha gid d' w' log
    c c w.nextBatchSeq ∧ w'.reserved = none ∧ w'.endAt + len ≤ segmentBytes) hp hma ?_ ?_)
    (does_room_still hf hw.buffered.active hst hr)) ?_ (fun _ _ _ hq => hq.1)
  · intro _ _ hfi
    exact ⟨rfl, log, c, ht, .inl hc, hw, hr, hfi⟩
  · intro d' w' hm ho hfi
    obtain ⟨log, c, ht, hc, hw⟩ := ho.writing
    exact ⟨hm, log, c, ht, .inr hc, hw, ho.reserved, hfi⟩
  rintro _ d' w' ⟨hsa, hs⟩
  obtain ⟨kept', hf'⟩ := hs.file
  refine ⟨hsa, log.last, _, hs.active, hf', ?_⟩
  rw [hs.endAt, ← he]
  simp [commitRecordBytes]

/-- A batch whose operations are written and which replay holds as `p`. -/
structure Pending (r : Replay) (batch : ℕ) (p : PendingBatch) : Prop where
  pending : r.pending = some p
  batchSeq : p.batchSeq = batch
  seq : r.batchSeq < batch
  attempt : r.segmentAttempt = none ∨ r.segmentAttempt = some batch
  count : 0 < p.opCount
  most : p.opCount ≤ maxBatchOperations

theorem Pending.reset {r' : Replay} (h : Pending r batch p)
    (hr : r' = r ∨ r' = { r with segmentAttempt := none }) : Pending r' batch p := by
  rcases hr with rfl | rfl
  · exact h
  · exact ⟨h.pending, h.batchSeq, h.seq, .inl rfl, h.count, h.most⟩

theorem Progress.pending (h : Progress r batch p) (hpo : 0 < p.opCount)
    (hm : p.opCount ≤ maxBatchOperations) : Pending r batch p := by
  cases pendingFor_ok h.pending with
  | fresh => exact absurd hpo (lt_irrefl 0)
  | more _ hp hb => exact ⟨hp, hb, h.seq, h.attempt, hpo, hm⟩

theorem dirRec_tail (h : Pending c.replay batch p) (hp : p.directoryRoot = none)
    (hr : Names root gid batch) (hma : batch < maxU64) :
    Tail sha gid c batch [dirRec root batch c.replay.batchSeq] := by
  have hs : c.step sha gid full _ = _ := directory_read h.pending h.batchSeq h.count.ne' hp h.attempt hr
  have hm : ∀ q' ∈ [dirRec root batch c.replay.batchSeq],
      q' = dirRec root batch c.replay.batchSeq := fun q' hq => mem_singleton.mp hq
  refine ⟨.directory _ rfl, ⟨?_, ?_, ?_, h.attempt⟩, _, run_cons.mpr ⟨_, hs, rfl⟩⟩
  · intro q' hq
    rw [hm q' hq]
    refine ⟨h.seq, ?_, ?_, ?_, crc32c_fits _⟩
    · simp only [dirRec, Rec.head, Fits, maxU64] at *
      omega
    all_goals simp [dirRec, Rec.head, RecordKind.bodyBounds]
  · intro q' hq
    rw [hm q' hq]
    rfl
  intro q' hq
  rw [hm q' hq]
  rfl

theorem does_writeDirectory (h : Settled sha gid d w r) (hres : w.reserved = none)
    (hma : w.nextBatchSeq < maxU64) (hp : Pending r w.nextBatchSeq p)
    (hn : p.directoryRoot = none) (hr : Names root gid w.nextBatchSeq) :
    Does d w (writeDirectory w.nextBatchSeq (encodeDirectoryRoot root))
      (fun _ d' w' => Safe sha gid r.visited d' ∧ Clear d' w') fun _ d' w' => ∃ r', Moved w w' ∧
        w'.reserved = none ∧ Unsettled r r' ∧ Settled sha gid d' w' r' ∧
        Pending r' w.nextBatchSeq { p with directoryRoot := some root } := by
  apply does_bind (does_settle h hres hma directoryRecordBytes)
  rintro _ d1 w1 ⟨hm, log, c, ht, hc, hw, hre, hf⟩
  have hp1 := hp.reset hc
  have hl : (dirRec root w.nextBatchSeq c.replay.batchSeq).len = directoryRecordBytes := by
    simp [Rec.len, dirRec, directoryRecordBytes, recordHeaderBytes]
  have ha : Appends sha gid d1 w1 log c _ w.nextBatchSeq
      (dirRec root w.nextBatchSeq c.replay.batchSeq) :=
    ⟨hw, ht, hre, dirRec_tail hp1 hn hr hma,
      directory_read hp1.pending hp1.batchSeq hp1.count.ne' hn hp1.attempt hr, hl ▸ hf⟩
  have hv : r.visited = c.replay.visited := by
    rcases hc with hc | hc <;> rw [hc]
  have hb : recordHeader w1.groupId ⟨log.last, w1.endAt⟩ ⟨.directory, w.nextBatchSeq,
      w1.lastBatchSeq, directoryRootBytes, crc32c (encodeDirectoryRoot root)⟩ ++
        encodeDirectoryRoot root =
      (dirRec root w.nextBatchSeq c.replay.batchSeq).bytes gid log.last w1.endAt := by
    rw [hw.group, hw.base, ← length_encodeDirectoryRoot root]
    rfl
  refine does_then (does_active hw.buffered.active (does_get fun _ => ?_))
  simp only [hb]
  have hk : ∀ q ∈ [dirRec root w.nextBatchSeq c.replay.batchSeq], q.kind ≠ .commit := by
    simp [dirRec]
  have hcl : segmentHeaderBytes + recsLen (log.newest ++
      [dirRec root w.nextBatchSeq c.replay.batchSeq]) < w1.endAt + commitRecordBytes := by
    rw [ha.endAt, length_segmentImage, recsLen_append, recsLen_cons, hl, recsLen_nil]
    simp only [directoryRecordBytes, commitRecordBytes, recordHeaderBytes, directoryRootBytes]
    omega
  refine does_publish ha (fun hx => hx) ?_ ?_ ?_ ?_
  · rw [hv]
    refine ⟨Stored.safe hw.stored (by simp [ht]), log.last, _, hw.buffered.active, ha.file, ?_⟩
    rw [ha.endAt]
    simp [commitRecordBytes]
  · rw [hv]
    refine ⟨Stored.safe ha.issued hk, log.last, _, hw.buffered.active, files_put _ _ _, ?_⟩
    rw [length_segmentImage]
    exact hcl
  · rw [hv]
    refine ⟨.inr ⟨_, _, _, ha.stored (.inr rfl) hma, rfl, fun _ hq => absurd hq not_mem_nil⟩,
      log.last, _, hw.buffered.active, files_put _ _ _, ?_⟩
    rw [length_segmentImage]
    exact hcl
  apply does_modify
  have hne : w1.nextBatchSeq = w.nextBatchSeq := by rw [hm]
  refine ⟨_, hm.trans rfl, hre, ?_, ⟨_, _, rfl, rfl, ha.after (.inr ?_) (hne ▸ hma) ?_⟩, rfl,
    hp1.batchSeq, hp1.seq, .inr rfl, hp1.count, hp1.most⟩
  · rcases hc with hc | hc <;> simp only [Cursor.pend, hc] <;> exact ⟨rfl, rfl, rfl⟩
  · exact congrArg some hne.symm
  · rw [hl, Cursor.pend, ← hw.base, ← hw.chain]

theorem commitRec_tail (h : Pending c.replay batch p) (hp : p.directoryRoot = some root)
    (hv : root.validate = .ok ()) (hma : batch < maxU64) : Tail sha gid c batch
      [commitRec (committing sha gid c.replay p root) p.batchSeq c.replay.batchSeq] := by
  have hs : c.step sha gid full _ = _ := commit_read h.pending hp hv h.count h.most
  have hb := h.batchSeq
  have hl : (committing sha gid c.replay p root).bytes.length = commitBodyBytes :=
    length_commitBytes (by simp [committing])
  have hm : ∀ q' ∈ [commitRec (committing sha gid c.replay p root) p.batchSeq c.replay.batchSeq],
      q' = commitRec (committing sha gid c.replay p root) p.batchSeq c.replay.batchSeq :=
    fun q' hq => mem_singleton.mp hq
  refine ⟨.commit _ rfl (pendingCommit_eq h.pending hp hv _ _), ⟨?_, ?_, ?_, h.attempt⟩, _,
    run_cons.mpr ⟨_, hs, rfl⟩⟩
  · intro q' hq
    rw [hm q' hq]
    refine ⟨hb.symm ▸ h.seq, ?_, ?_, ?_, crc32c_fits _⟩
    · simp only [commitRec, Rec.head, Fits, maxU64, hb] at *
      omega
    all_goals simp [commitRec, Rec.head, RecordKind.bodyBounds, hl]
  · intro q' hq
    rw [hm q' hq]
    rfl
  intro q' hq
  rw [hm q' hq]
  exact hb

def batchOf (ops : List Operation) (committed : CommittedBatch) : ReplayedBatch :=
  ⟨committed.endAt, committed.batchSeq, committed.chain, committed.directoryRoot,
    List.zipWith located ops committed.values⟩

def outcome (sha : Sha256) (w : Writer) (b : PreparedBatch) (root : DirectoryRoot Digest)
    (n : ℕ) : CommittedBatch :=
  ⟨b.identity.batchSeq, (commitBody sha w b (encodeDirectoryRoot root)).chainSha256, root,
    b.values, ⟨n, w.endAt + commitRecordBytes⟩⟩

def commitAt (sha : Sha256) (w : Writer) (b : PreparedBatch) (root : DirectoryRoot Digest)
    (n : ℕ) : List Byte :=
  commitRecord w.groupId ⟨n, w.endAt⟩ b.identity.batchSeq w.lastBatchSeq
    (commitBody sha w b (encodeDirectoryRoot root))

/-- The commit of a batch has been issued and may be synchronized. -/
structure InFlight (sha : Sha256) (gid : ℕ) (d : Disk) (w : Writer) (visited : List ReplayedBatch)
    (ops : List Operation) (b : PreparedBatch) (root : DirectoryRoot Digest) (d' : Disk)
    (log : Log) (c e : Cursor) (q : Rec) : Prop where
  appends : Appends sha gid d w log c e w.nextBatchSeq q
  disk : d' = issuedDisk d gid log q ∨ d' = syncedDisk d gid log q
  kind : q.kind = .commit
  bytes : q.bytes gid log.last w.endAt = commitAt sha w b root log.last
  before : c.replay.visited = visited
  after : e.replay.visited = visited ++ [batchOf ops (outcome sha w b root log.last)]
  settled : e.replay.segmentAttempt = none

theorem fresh_progress (hp : ∀ p, r.pending = some p → p.batchSeq < batch) (hb : r.batchSeq < batch) :
    Progress { r with segmentAttempt := none } batch (fresh batch) := by
  have hb' : ¬ batch ≤ r.batchSeq := Nat.not_le.mpr hb
  refine ⟨?_, hb, .inl rfl, rfl, .inl rfl, le_rfl⟩
  cases hpe : r.pending with
  | none =>
    simp only [Replay.pendingFor, hb', if_false]
    rfl
  | some p =>
    have hl := hp p hpe
    have hne : ¬ p.batchSeq = batch := by omega
    have hn : ¬ p.batchSeq > batch := by omega
    simp only [Replay.pendingFor, hne, hn, hb', if_false]
    rfl

theorem Appends.idle (h : Appends sha gid d w log c e batch q) (ha : e.replay.segmentAttempt = none)
    (hp : e.replay.pending = none) (hb : e.replay.batchSeq = batch) (hm : batch < maxU64)
    (hw : w' = { w with
      endAt := w.endAt + q.len
      stageAt := w.endAt + q.len
      lastBatchSeq := e.replay.batchSeq
      nextBatchSeq := batch + 1
      chain := e.replay.chain
      prepared := none }) : Idle sha gid (syncedDisk d gid log q) w' e.replay := by
  have hn : w'.nextBatchSeq = batch + 1 := by rw [hw]
  have hpl : ∀ {b}, b < maxU64 → At sha gid (syncedDisk d gid log q) w' b e.replay := by
    intro b hb
    refine .segment _ _ _ (h.after (.inl ha) hb ?_) (fun _ hq => nomatch hq)
    rw [hw]
  refine ⟨⟨?_, ?_⟩, by rw [hw], by omega⟩
  · by_cases hl : w'.nextBatchSeq < maxU64
    · exact ⟨_, hpl hl, fun _ _ => rfl⟩
    · exact ⟨0, hpl (by decide), fun _ hlt' => absurd hlt' hl⟩
  apply fresh_progress
  · intro p hs
    rw [hp] at hs
    cases hs
  · omega

/-- Either no commit can be found where the writer stands, or the commit is in flight. -/
def Interrupted (sha : Sha256) (gid : ℕ) (visited : List ReplayedBatch) (ops : List Operation)
    (b : PreparedBatch) (root : DirectoryRoot Digest) (d' : Disk) (w' : Writer) : Prop :=
  (Safe sha gid visited d' ∧ Clear d' w') ∨
    ∃ d log c e q, InFlight sha gid d w' visited ops b root d' log c e q

/-- The commit of `p`, which replay holds with the operations and the root of `b`. -/
theorem does_appendCommit (h : Settled sha gid d w r) (hres : w.reserved = none)
    (hma : w.nextBatchSeq < maxU64) (hp : Pending r w.nextBatchSeq p)
    (hro : p.directoryRoot = some root) (hva : root.validate = .ok ())
    (hb : b.identity.batchSeq = w.nextBatchSeq)
    (hr : p.records = zipWith located ops b.values)
    (hbody : commitBody sha w b (encodeDirectoryRoot root) = committing sha gid r p root) :
    Does d w (appendCommit b root (commitBody sha w b (encodeDirectoryRoot root)))
      (fun _ d' w' => Interrupted sha gid r.visited ops b root d' w')
      fun committed d' w' => ∃ r', r'.visited = r.visited ++ [batchOf ops committed] ∧
        Idle sha gid d' { w' with prepared := none } r' := by
  apply does_bind (does_mono (does_settle h hres hma commitRecordBytes) (fun _ _ _ he => .inl he)
    (fun _ _ _ hq => hq))
  rintro _ d1 w1 ⟨hm, log, c, ht, hc, hw, hre, hfi⟩
  have hp1 := hp.reset hc
  have hn : w1.nextBatchSeq = w.nextBatchSeq := by rw [hm]
  have hv : r.visited = c.replay.visited := by
    rcases hc with hc | hc <;> rw [hc]
  have hs : committing sha gid c.replay p root = committing sha gid r p root := by
    rcases hc with hc | hc
    · rw [hc]
    · rw [hc]
      rfl
  have hbo : commitBody sha w1 b (encodeDirectoryRoot root) =
      committing sha gid c.replay p root := by
    rw [hs, ← hbody, hm]
    rfl
  have hbod : commitBody sha w b (encodeDirectoryRoot root) =
      committing sha gid c.replay p root := hbody.trans hs.symm
  have hl : (commitRec (committing sha gid c.replay p root) p.batchSeq c.replay.batchSeq).len =
      commitRecordBytes := by
    rw [Rec.len, commitRec, length_commitBytes (by simp [committing])]
    rfl
  have ha : Appends sha gid d1 w1 log c _ w1.nextBatchSeq
      (commitRec (committing sha gid c.replay p root) p.batchSeq c.replay.batchSeq) :=
    ⟨hn ▸ hw, ht, hre, hn ▸ commitRec_tail hp1 hro hva hma,
      commit_read hp1.pending hro hva hp1.count hp1.most, hl ▸ hfi⟩
  have hby : (commitRec (committing sha gid c.replay p root) p.batchSeq
      c.replay.batchSeq).bytes gid log.last w1.endAt = commitAt sha w1 b root log.last := by
    rw [bytes_commitRec (by simp [committing]), commitAt, hbo, hw.group, hw.base, hb,
      hp1.batchSeq]
  have hen := hw.end_offset
  have hse := hw.stored.position.1
  have hvi : (Cursor.committed c (commitRec (committing sha gid c.replay p root) p.batchSeq
      c.replay.batchSeq).len p (committing sha gid c.replay p root).chainSha256
      root).replay.visited = r.visited ++ [batchOf ops (outcome sha w1 b root log.last)] := by
    rw [hl]
    simp only [Cursor.committed, hv, batchOf, outcome, hbo, hr, hen, hse, hb, hp1.batchSeq]
  have hf : ∀ d', (d' = issuedDisk d1 gid log _ ∨ d' = syncedDisk d1 gid log _) →
      Interrupted sha gid r.visited ops b root d' w1 := fun d' hd =>
    .inr ⟨d1, log, c, _, _, ha, hd, rfl, hby, hv.symm, hvi, rfl⟩
  refine does_then (does_active hw.buffered.active (does_get fun _ => ?_))
  have hi : commitRecord w1.groupId ⟨log.last, w1.endAt⟩ b.identity.batchSeq w1.lastBatchSeq
      (commitBody sha w b (encodeDirectoryRoot root)) =
      (commitRec (committing sha gid c.replay p root) p.batchSeq
        c.replay.batchSeq).bytes gid log.last w1.endAt := by
    rw [hby, commitAt, hbod, hbo]
  simp only [hi]
  refine does_publish ha (fun hx => does_unknown hx) ?_ ?_ ?_ ?_
  · rw [hv]
    refine .inl ⟨Stored.safe hw.stored (by simp [ht]), log.last, _, hw.buffered.active, ha.file, ?_⟩
    rw [ha.endAt]
    simp [commitRecordBytes]
  · exact hf _ (.inl rfl)
  · exact hf _ (.inr rfl)
  refine does_then (does_modify (does_pure ⟨_, hvi.trans ?_,
    ha.idle rfl rfl (hp1.batchSeq.trans hn.symm) (hn ▸ hma) ?_⟩))
  · simp only [outcome, hbo, hbod]
  · rw [hl]
    simp only [hb, hbod, ← hn, Cursor.committed, hp1.batchSeq]

theorem Settled.interrupted (h : Settled sha gid d w r) :
    Interrupted sha gid r.visited ops b root d w := by
  have hs := At.safe (Settled.place h)
  obtain ⟨log, c, ht, hc, hw⟩ := h
  obtain ⟨-, he, kept, hf⟩ := Writing.file hw ht
  refine .inl ⟨hs, log.last, _, hw.buffered.active, hf, ?_⟩
  rw [he]
  simp [commitRecordBytes]

theorem does_writeCommit (h : Prepared sha gid d w r ops b) (hr : RootTyped root) :
    Does d w (writeCommit sha b root)
      (fun _ d' w' => Interrupted sha gid r.visited ops b root d' w')
      fun committed d' w' => ∃ r', r'.visited = r.visited ++ [batchOf ops committed] ∧
        Idle sha gid d' { w' with prepared := none } r' := by
  obtain ⟨msg, encoded, hp, hsh⟩ := h.pending
  have hgr : w.groupId = gid := by
    obtain ⟨log, c, -, -, hw⟩ := h.settled
    exact hw.group
  have hpo := length_pos_of_ne_nil h.nonempty
  have hpe : Pending r w.nextBatchSeq
      (written (fresh w.nextBatchSeq) msg ops b.values encoded) :=
    Progress.pending hp (by simpa [written, fresh] using hpo)
      (by simpa [written, fresh] using h.count)
  apply does_get
  intro fault
  by_cases hn : root.groupId ≠ w.groupId ∨ root.generation ≠ b.identity.batchSeq
  · simp only [hn, if_true]
    exact does_throw h.settled.interrupted
  simp only [hn, if_false]
  refine does_then (does_refuse (fun _ _ => h.settled.interrupted) fun _ hv => ?_)
  simp only [not_or, not_not] at hn
  have hna : Names root gid w.nextBatchSeq :=
    ⟨hr, hv, hn.1.trans hgr, hn.2.trans h.batchSeq⟩
  rw [h.batchSeq]
  apply does_bind (does_mono (does_writeDirectory h.settled h.reserved h.max hpe rfl hna)
    (fun _ _ _ he => .inl he) (fun _ _ _ hq => hq))
  rintro _ d1 w1 ⟨r1, hm, hre, hu, hs1, hp1⟩
  have hne : w1.nextBatchSeq = w.nextBatchSeq := by rw [hm]
  have hs : commitBody sha w b (encodeDirectoryRoot root) =
      commitBody sha w1 b (encodeDirectoryRoot root) := by
    rw [hm]
    rfl
  obtain ⟨hg, hch⟩ : w1.groupId = gid ∧ w1.chain = r1.chain := by
    obtain ⟨log, c, -, hc, hw⟩ := hs1
    exact ⟨hw.group, hc ▸ hw.chain⟩
  rw [hs, ← hu.visited]
  rw [← hne] at hp1
  apply does_appendCommit hs1 hre (hne ▸ h.max) hp1 rfl hv (h.batchSeq.trans hne.symm)
  · simp [written, fresh]
  · simp [commitBody, committing, written, fresh, h.values, hsh, hg, hch, h.batchSeq, hne]

theorem does_finishBatch (h : Prepared sha gid d w r ops b) (hr : RootTyped root) :
    Does d w (finishBatch sha b root) (fun _ d' w' => (d' = d ∧ w' = w) ∨
        (w'.fenced = true ∧ Interrupted sha gid r.visited ops b root d' w'))
      fun committed d' w' => ∃ r', r'.visited = r.visited ++ [batchOf ops committed] ∧
        Idle sha gid d' w' r' := by
  apply does_get
  intro fault
  by_cases ho : w.fenced ∨ w.prepared ≠ some b.identity
  · simp only [ho, if_true]
    exact does_throw (.inl ⟨rfl, rfl⟩)
  simp only [ho, if_false]
  apply does_bind (does_fencing (does_mono (does_writeCommit h hr) ?_ (fun _ _ _ hq => hq)))
  · rintro committed d' w' ⟨r', hv, hi⟩
    exact does_then (does_modify (does_pure ⟨r', hv, hi⟩))
  rintro _ d' w' (⟨hs, n, file, hac, hf, hl⟩ | ⟨d0, log, c, e, q, hfl⟩)
  · exact .inr ⟨rfl, .inl ⟨hs, n, file, hac, hf, hl⟩⟩
  refine .inr ⟨rfl, .inr ⟨d0, log, c, e, q, ?_, hfl.disk, hfl.kind, hfl.bytes, hfl.before,
    hfl.after, hfl.settled⟩⟩
  have ha := hfl.appends
  exact ⟨ha.writing.owner rfl, ha.settled, ha.reserved, ha.tail, ha.step, ha.fits⟩

end Publication

end SegmentPublish
