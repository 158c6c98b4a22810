import Kasumi.SegmentBatch
import Kasumi.SegmentStored

/-! Appending to the log: the roll into a new segment and the operation records of a batch, each
with the disk it leaves when the power fails inside it. -/
namespace SegmentAppend

open ByteFields MediaFormat SegmentRecords SegmentReplay SegmentLayout SegmentTorn List
open SegmentTrace SegmentRecover SegmentBatch SegmentWriter SegmentDurable SegmentStored
open DirectoryPages (ValueLocation maxU64 segmentBytes segmentHeaderBytes recordHeaderBytes)
open RootFormat (SealedSegment)
open FallibleSteps (bind_ok)
open RootPublication (Failure rejected)

variable {sha : Sha256} {gid n endAt batch : ℕ} {d : Disk} {w w' : Writer} {r : Replay}

/-- A disk on which replay finds the batches `visited`, no commit of another being under way. -/
def Safe (sha : Sha256) (gid : ℕ) (visited : List ReplayedBatch) (d : Disk) : Prop :=
  (Bare gid d ∧ visited = []) ∨ ∃ log c batch, Stored sha gid d log c batch ∧
    c.replay.visited = visited ∧ ∀ r ∈ log.tail, r.kind ≠ .commit

theorem Quiet.safe (h : Quiet sha gid n endAt r d) : Safe sha gid r.visited d := by
  rcases h.holds with ⟨rfl, rfl, hse⟩ | ⟨log, c, batch, -, ht, rfl, -, hs⟩
  · exact .inl ⟨⟨h.frontier, hse⟩, rfl⟩
  refine .inr ⟨log, c, batch, hs, rfl, ?_⟩
  rw [ht]
  intro q hq
  cases hq

def Moved (w w' : Writer) : Prop :=
  w' = { w with
    active := w'.active
    endAt := w'.endAt
    stage := w'.stage
    stageAt := w'.stageAt
    reserved := w'.reserved }

theorem Restaged.moved (h : Restaged w w') : Moved w w' := by
  rw [Moved, h]

theorem Moved.trans (h : Moved w w') (h' : Moved w' w'') : Moved w w'' := by
  unfold Moved at *
  rw [h', h]

/-! ## The roll -/

section Roll

variable {Q : ℕ → Disk → Writer → Prop} {recs : List Rec}

theorem put_put (d : Disk) (n : ℕ) (f g : SegFile) : (d.put n f).put n g = d.put n g := by
  simp only [Disk.put]
  congr 1
  funext id
  by_cases hi : id = n <;> simp [hi]

@[simp] theorem files_put (d : Disk) (n : ℕ) (f : SegFile) : (d.put n f).files n = some f := by
  simp [Disk.put]

theorem torn_nil (bs : List Byte) : Torn bs [] :=
  ⟨Nat.zero_le _, fun _ _ h => nomatch h⟩

theorem checkPending_present (h : checkPendingSegment gid img
    n = .ok present) : present = (img n).isSome := by
  unfold checkPendingSegment at h
  cases hi : img n with
  | none =>
    rw [hi] at h
    cases h
    rfl
  | some file =>
    rw [hi] at h
    obtain ⟨-, h⟩ := guard_ok h
    obtain ⟨_, _, h⟩ := bind_ok h
    obtain ⟨-, h⟩ := guard_ok h
    cases h
    rfl

theorem does_takeOver (h : Quiet sha gid n endAt r d) (hn : d.root.nextSegmentId = n + 2) :
    Does d w (takeOverIntent (n + 1)) (fun _ d' _ => Safe sha gid r.visited d') fun _ d' w' =>
      d' = d.put (n + 1) ⟨[], 0⟩ ∧ w' = w := by
  have hpu : Safe sha gid r.visited (d.put (n + 1) ⟨[], 0⟩) :=
    Quiet.safe (h.put hn (torn_nil _))
  apply does_get
  intro fault
  refine does_then (does_refuse (fun _ _ => Quiet.safe h) ?_)
  intro present hp
  have hpr := checkPending_present hp
  cases hf : d.files (n + 1) with
  | none =>
    have hfa : present = false := by rw [hpr]; simp [Disk.image, hf]
    subst hfa
    apply does_get
    intro fault
    simp only [hf, ne_eq, not_true_eq_false, if_false]
    exact does_call (Quiet.safe h) hpu ⟨rfl, rfl⟩
  | some file =>
    have ht : present = true := by rw [hpr]; simp [Disk.image, hf]
    subst ht
    have hl : file.setLen 0 = ⟨[], 0⟩ := by simp [SegFile.setLen, zeros]
    refine does_then (does_call (Quiet.safe h) (Quiet.safe h) ?_)
    exact does_file hf (Quiet.safe h) (hl ▸ hpu) ⟨by rw [hl]; rfl, rfl⟩

/-- The writer has nothing staged, and stands in segment `n` if it is not zero. -/
structure Resting (d : Disk) (w : Writer) (gid n : ℕ) (r : Replay) : Prop where
  active : w.active = if n = 0 then none else some n
  group : w.groupId = gid
  capacity : w.capacity = segmentBytes
  stage : w.stage = []
  reserved : w.reserved = d.root.pendingSegment
  base : w.lastBatchSeq = r.batchSeq
  chain : w.chain = r.chain

theorem Resting.sealing (h : Resting d w gid n r) :
    w.active.map (fun id => (⟨id, w.endAt, w.lastBatchSeq⟩ : SealedSegment)) =
      SegmentStored.sealing n w.endAt r.batchSeq := by
  rw [h.active, h.base, SegmentStored.sealing]
  by_cases hn : n = 0 <;> simp [hn]

theorem does_nextSegment (h : Quiet sha gid n w.endAt r d) (hw : Resting d w gid n r) :
    Does d w nextSegment (fun _ d' _ => Safe sha gid r.visited d') fun id d' w' =>
      id = n + 1 ∧ d'.root.nextSegmentId = n + 2 ∧ d'.files (n + 1) = some ⟨[], 0⟩ ∧
        Quiet sha gid n w.endAt r d' ∧ w' = { w with reserved := none } := by
  apply does_get
  intro fault
  refine does_then (does_modify ?_)
  cases hre : w.reserved with
  | some id =>
    -- The root holds the intent of an interrupted roll.
    obtain ⟨rfl, hn⟩ := h.frontier.pending_eq (hw.reserved.symm.trans hre)
    apply does_bind (does_takeOver h hn)
    rintro _ d' w' ⟨rfl, rfl⟩
    exact does_pure ⟨rfl, hn, files_put _ _ _, h.put hn (torn_nil _), rfl⟩
  | none =>
    simp only [hw.sealing]
    apply does_bind (P := fun id d' w' => id = n + 1 ∧ d'.root.nextSegmentId = n + 2 ∧
      Quiet sha gid n w.endAt r d' ∧ w' = { w with reserved := none })
    · apply does_get
      intro fault
      refine does_then (does_refuse (fun _ _ => Quiet.safe h) ?_)
      rintro ⟨next, id⟩ hr
      obtain ⟨rfl, hn, hq⟩ := h.reserve hr
      exact does_then (does_call (Quiet.safe h) (Quiet.safe hq) (does_pure ⟨rfl, hn, hq, rfl⟩))
    rintro _ d' _ ⟨rfl, hn, hq, rfl⟩
    have hp := hq.put (f := ⟨[], 0⟩) hn (torn_nil _)
    apply does_then
    apply does_get
    intro fault
    by_cases hf : d'.files (n + 1) = none
    · simp only [hf, ne_eq, not_true_eq_false, if_false]
      exact does_call (Quiet.safe hq) (Quiet.safe hp)
        (does_pure ⟨rfl, hn, files_put _ _ _, hp, rfl⟩)
    · simp only [hf, ne_eq, not_false_eq_true, if_true]
      exact does_throw (Quiet.safe hq)

/-- The writer and the disk agree on the log: its tail is what was issued and not synchronized,
in the file or staged; `e` is the cursor behind it. -/
structure Writing (sha : Sha256) (gid : ℕ) (d : Disk) (w : Writer) (log : Log) (c e : Cursor)
    (batch : ℕ) : Prop where
  stored : Stored sha gid d log c batch
  ends : c.run sha gid full (log.tail.map .record) = some e
  buffered : Buffered d w log.last (segmentHeaderBytes + recsLen log.newest)
    (segmentImage gid log.last log.newest) (segmentImage gid log.last (log.newest ++ log.tail))
  group : w.groupId = gid
  capacity : w.capacity = segmentBytes
  reserved : w.reserved = d.root.pendingSegment
  base : w.lastBatchSeq = e.replay.batchSeq
  chain : w.chain = e.replay.chain

structure Opened (sha : Sha256) (gid : ℕ) (d : Disk) (w : Writer) (r : Replay) (batch : ℕ) :
    Prop where
  reserved : w.reserved = none
  endAt : w.endAt = segmentHeaderBytes
  writing : ∃ log c, log.tail = [] ∧ c.replay = { r with segmentAttempt := none } ∧
    Writing sha gid d w log c c batch

theorem does_open (h : Quiet sha gid n w.endAt r d) (hw : Resting d w gid n r)
    (hb : batch < maxU64) :
    Does d w (nextSegment >>= fun sid => do
      let s ← get
      writeFile sid 0 (segmentHeader s.writer.groupId sid)
      syncFile sid
      confirm sid
      modifyWriter fun w => { w with
        active := some sid, endAt := segmentHeaderBytes, stageAt := segmentHeaderBytes })
      (fun _ d' _ => Safe sha gid r.visited d')
      fun _ d' w' => Moved w w' ∧ Opened sha gid d' w' r batch := by
  apply does_bind (does_nextSegment h hw)
  rintro _ d1 _ ⟨rfl, hn, hf, hq, rfl⟩
  obtain rfl : gid = w.groupId := hw.group.symm
  have hto : Torn (segmentHeader w.groupId (n + 1)) (segmentHeader w.groupId (n + 1)) := Torn.refl _
  have hq1 := hq.put (f := ⟨segmentHeader w.groupId (n + 1), 0⟩) hn hto
  have hq2 := hq.put (f := ⟨segmentHeader w.groupId (n + 1), segmentHeaderBytes⟩) hn hto
  have hsy : SegFile.sync ⟨segmentHeader w.groupId (n + 1), 0⟩ =
      ⟨segmentHeader w.groupId (n + 1), segmentHeaderBytes⟩ := by
    simp [SegFile.sync, segmentHeaderBytes]
  apply does_get
  intro fault
  refine does_then (does_append hf rfl le_rfl (Quiet.safe hq) (Quiet.safe hq1) ?_)
  refine does_then (does_file (files_put _ _ _) (Quiet.safe hq1) ?_ ?_)
  · rw [nil_append, put_put, hsy]
    exact Quiet.safe hq2
  rw [nil_append, put_put, hsy]
  apply does_then
  apply does_get
  intro fault
  refine does_then (does_refuse (fun _ _ => Quiet.safe hq2) ?_)
  intro next hc
  obtain ⟨log, hl, hne, ht, hp, hs⟩ := hq2.confirm (files_put _ _ _) hc hb
  apply does_call (Quiet.safe hq2)
  · exact .inr ⟨log, _, batch, hs, rfl, by simp [ht]⟩
  apply does_modify
  refine ⟨rfl, rfl, rfl, log, _, ht, rfl, hs, ?_, ?_, rfl, hw.capacity, hp.symm, hw.base, hw.chain⟩
  · rw [ht]
    rfl
  have hi : segmentImage w.groupId (n + 1) [] = segmentHeader w.groupId (n + 1) := by
    simp [segmentImage, recsBytes]
  rw [hl, hne, ht, append_nil, hi]
  refine ⟨rfl, by simp [segmentHeaderBytes], ?_, ⟨_, files_put _ _ _, prefix_rfl, ?_⟩,
    by simp [segmentHeaderBytes]⟩
  · simp [hw.stage]
  · simp [hw.stage]

/-- Where the writer appends next: no segment yet, or behind the records of a log. -/
inductive At (sha : Sha256) (gid : ℕ) (d : Disk) (w : Writer) (batch : ℕ) : Replay → Prop where
  | bare (h : Bare gid d) (hw : Resting d w gid 0 genesis.replay) :
    At sha gid d w batch genesis.replay
  | segment (log : Log) (c e : Cursor) (h : Writing sha gid d w log c e batch)
      (hk : ∀ q ∈ log.tail, q.kind.isOperation = true) : At sha gid d w batch e.replay

theorem no_commit (hk : ∀ q ∈ recs, q.kind.isOperation = true) :
    ∀ q ∈ recs, q.kind ≠ .commit := fun q hq => (RecordKind.of_operation (hk q hq)).1

theorem pending_run {c : Cursor} (hk : ∀ q ∈ recs, q.kind ≠ .commit)
    (hs : ∀ q ∈ recs, q.batchSeq = batch) (h : c.run sha gid full (recs.map .record) = some e) :
    e.replay.visited = c.replay.visited ∧ e.replay.batchSeq = c.replay.batchSeq ∧
    (e.replay.segmentAttempt = c.replay.segmentAttempt ∨ e.replay.segmentAttempt = some batch) := by
  induction recs generalizing c with
  | nil => cases h; exact ⟨rfl, rfl, .inl rfl⟩
  | cons q recs ih =>
    obtain ⟨d, hd, hr⟩ := run_cons.mp h
    obtain ⟨hv, hb, ha⟩ := ih (fun p hp => hk p (mem_cons_of_mem _ hp))
      (fun p hp => hs p (mem_cons_of_mem _ hp)) hr
    have hq := hs q mem_cons_self
    cases step_effect hd with
    | pend =>
      refine ⟨hv, hb, .inr ?_⟩
      rcases ha with ha | ha
      · rw [ha, hq]
      · exact ha
    | commit _ _ _ hc => exact absurd hc (hk q mem_cons_self)

section Tail

variable {log : Log} {c e : Cursor}

theorem Writing.attempt (h : Writing sha gid d w log c e batch)
    (hk : ∀ q ∈ log.tail, q.kind.isOperation = true) : e.replay.visited = c.replay.visited ∧
      (e.replay.segmentAttempt = none ∨ e.replay.segmentAttempt = some batch) := by
  have ho := h.stored.readable.tail.attempt.open_
  obtain ⟨hv, -, ha⟩ := pending_run (no_commit hk) h.stored.readable.tail.attempt.same h.ends
  refine ⟨hv, ?_⟩
  rcases ha with ha | ha
  · rw [ha]
    exact ho
  · exact .inr ha

theorem Writing.end_offset (h : Writing sha gid d w log c e batch) : w.endAt = e.offset := by
  have hp := h.stored.position.2
  rw [h.buffered.endAt, (run_position h.ends).2, hp]
  simp [Nat.add_assoc]

theorem Stored.safe (h : Stored sha gid d log c batch) (hk : ∀ q ∈ log.tail, q.kind ≠ .commit) :
    Safe sha gid c.replay.visited d := .inr ⟨log, c, batch, h, rfl, hk⟩

end Tail

theorem At.safe (h : At sha gid d w batch r) : Safe sha gid r.visited d := by
  cases h with
  | bare h hw => exact .inl ⟨h, rfl⟩
  | segment log c e h hk =>
    rw [(h.attempt hk).1]
    exact Stored.safe h.stored (no_commit hk)

variable {Q : Unit → Disk → Writer → Prop} {b : ℕ} {E : Failure → Disk → Writer → Prop}

theorem does_syncActive_none (h : w.active = none) (hq : Q () d w) : Does d w syncActive E Q := by
  apply does_get
  intro fault
  simp only [h]
  exact does_pure hq

theorem does_syncActive_some (h : w.active = some n) (hq : Does d w (syncFile n) E Q) :
    Does d w syncActive E Q := by
  apply does_get
  intro fault
  simp only [h]
  exact hq

section Synced

variable {log : Log} {c e : Cursor}

section

variable (h : Writing sha gid d w log c e batch)

include h

theorem does_flush_writing (hk : ∀ q ∈ log.tail, q.kind.isOperation = true) :
    Does d w flush (fun _ d' _ => Safe sha gid e.replay.visited d')
    fun _ d' w' => Restaged w w' ∧ w'.stage = [] ∧ Writing sha gid d' w' log c e batch := by
  refine does_mono (does_flush h.buffered) ?_ ?_
  · intro _ d' _ hex
    rw [(h.attempt hk).1]
    exact Stored.safe (h.stored.extended hex) (no_commit hk)
  rintro _ d' w' ⟨hex, hr, he, hb⟩
  refine ⟨hr, he, h.stored.extended hex, h.ends, hb, ?_, ?_, ?_, ?_, ?_⟩
  all_goals rw [hr]
  · exact h.group
  · exact h.capacity
  · rw [hex.root]
    exact h.reserved
  · exact h.base
  · exact h.chain

theorem does_sync_writing (he : w.stage = []) (hk : ∀ q ∈ log.tail, q.kind.isOperation = true) :
    Does d w (syncFile log.last) (fun _ d' _ => Safe sha gid
    e.replay.visited d') fun _ d' w' => w' = w ∧ Writing sha gid d' w (synced log) e e batch := by
  obtain ⟨hv, ha⟩ := h.attempt hk
  obtain ⟨bs, hf, -, hb⟩ := h.buffered.file
  rw [he, append_nil] at hb
  subst hb
  have hs : Stored sha gid (d.put log.last (SegFile.sync ⟨segmentImage gid log.last (log.newest ++
      log.tail), segmentHeaderBytes + recsLen log.newest⟩)) (synced log) e batch :=
    h.stored.sync h.ends ha h.stored.batch
  apply does_file hf
  · rw [hv]
    exact Stored.safe h.stored (no_commit hk)
  · exact Stored.safe hs (fun _ hq => nomatch hq)
  refine ⟨rfl, hs, rfl, ?_, h.group, h.capacity, h.reserved, h.base, h.chain⟩
  have hi : segmentImage gid (synced log).last ((synced log).newest ++ (synced log).tail) =
      segmentImage gid log.last (log.newest ++ log.tail) := by
    simp [synced, Log.last]
  rw [hi]
  refine ⟨h.buffered.active, h.buffered.endAt, h.buffered.stageAt,
    ⟨_, ?_, prefix_rfl, by rw [he, append_nil]; rfl⟩, by simp⟩
  simp [Disk.put, SegFile.sync, synced, Log.last]

theorem Writing.owner {w' : Writer} (hw : w' = { w with
      nextBatchSeq := w'.nextBatchSeq
      fenced := w'.fenced
      prepared := w'.prepared }) : Writing sha gid d w' log c e batch := by
  rw [hw]
  exact ⟨h.stored, h.ends, ⟨h.buffered.active, h.buffered.endAt, h.buffered.stageAt,
    h.buffered.file, h.buffered.kept⟩, h.group, h.capacity, h.reserved, h.base, h.chain⟩

end

theorem Writing.quiet (h : Writing sha gid d w log c c batch) (ht : log.tail = []) :
    Quiet sha gid log.last w.endAt c.replay d := by
  rw [h.end_offset]
  exact h.stored.quiet ht

theorem Writing.resting (h : Writing sha gid d w log c e batch) (he : w.stage = []) :
    Resting d w gid log.last e.replay := by
  have hn : log.last ≠ 0 := Nat.succ_ne_zero _
  refine ⟨?_, h.group, h.capacity, he, h.reserved, h.base, h.chain⟩
  rw [if_neg hn]
  exact h.buffered.active

end Synced

theorem does_seal
    (h : At sha gid d w batch r) (hf : ∀ n d' w', Restaged w w' → Quiet sha gid n w'.endAt r d' →
    Resting d' w' gid n r → Does d' w' (f ()) (fun _ d' _ => Safe sha gid r.visited d') Q) :
    Does d w (flush >>= fun _ => syncActive >>= f) (fun _ d' _ => Safe sha gid r.visited d') Q := by
  cases h with
  | bare h hw =>
    refine does_then (does_get fun _ => ?_)
    simp only [hw.stage, if_true]
    apply does_modify
    refine does_then (does_syncActive_none hw.active ?_)
    exact hf 0 d { w with stageAt := w.endAt } rfl h.quiet
      ⟨hw.active, hw.group, hw.capacity, hw.stage, hw.reserved, hw.base, hw.chain⟩
  | segment log c e h hk =>
    apply does_bind (does_flush_writing h hk)
    rintro _ d1 w1 ⟨hr, he, h1⟩
    apply does_bind (does_syncActive_some h1.buffered.active (does_sync_writing h1 he hk))
    rintro _ d2 w2 ⟨rfl, h2⟩
    exact hf _ d2 w2 hr (Writing.quiet h2 rfl) (h2.resting he)

theorem does_roll (h : At sha gid d w b r) (hb : batch < maxU64) : Does d w rollSegment (fun _ d' _
    => Safe sha gid r.visited d') fun _ d' w' => Moved w w' ∧ Opened sha gid d' w' r batch := by
  refine does_seal h fun n d' w' hr hq hw => ?_
  refine does_mono (does_open hq hw hb) (fun _ _ _ he => he) ?_
  rintro _ d2 w2 ⟨hm, ho⟩
  exact ⟨Moved.trans (Restaged.moved hr) hm, ho⟩

structure Room (sha : Sha256) (gid : ℕ) (d : Disk) (w : Writer) (r : Replay) (batch len : ℕ)
    (log : Log) (c e : Cursor) : Prop where
  writing : Writing sha gid d w log c e batch
  tail : ∀ q ∈ log.tail, q.kind.isOperation = true
  reserved : w.reserved = none
  fits : w.endAt + len ≤ segmentBytes
  replay : e.replay = r ∨ e.replay = { r with segmentAttempt := none }

theorem does_ensureRoom_of (h : At sha gid d w b r) (hb : batch < maxU64)
    (hs : w.active.isSome → w.reserved = none → w.endAt + len ≤ segmentBytes → Q () d w)
    (hro : ∀ d' w', Moved w w' → Opened sha gid d' w' r batch → w'.endAt + len ≤ segmentBytes →
    Q () d' w') : Does d w (ensureRoom len) (fun _ d' _ => Safe sha gid r.visited d') Q := by
  have hc : w.capacity = segmentBytes := by
    cases h with
    | bare _ hw => exact hw.capacity
    | segment _ _ _ h _ => exact h.capacity
  apply does_get
  intro fault
  by_cases hr : w.active.isSome ∧ w.reserved = none ∧ w.endAt + len ≤ w.capacity
  · simp only [hr, and_self, if_true]
    obtain ⟨ha, hre, hf⟩ := hr
    exact does_pure (hs ha hre (hc ▸ hf))
  simp only [hr, if_false]
  by_cases hl : len > w.capacity - segmentHeaderBytes
  · simp only [hl, if_true]
    exact does_throw (At.safe h)
  simp only [hl, if_false]
  refine does_mono (does_roll h hb) (fun _ _ _ he => he) ?_
  rintro _ d' w' ⟨hm, ho⟩
  apply hro d' w' hm ho
  rw [ho.endAt]
  rw [hc] at hl
  simp only [segmentHeaderBytes, segmentBytes] at hl ⊢
  omega

theorem does_ensureRoom (h : At sha gid d w b r) (hb : batch < maxU64)
    (hs : w.reserved = none → b = batch) (len : ℕ) :
    Does d w (ensureRoom len) (fun _ d' _ => Safe sha gid r.visited d') fun _ d' w' =>
      Moved w w' ∧ ∃ log c e, Room sha gid d' w' r batch len log c e := by
  apply does_ensureRoom_of h hb
  · intro ha hr hf
    cases h with
    | bare _ hw =>
      have hn : w.active = none := hw.active
      rw [hn] at ha
      cases ha
    | segment log c e h hk =>
      rw [hs hr] at h
      exact ⟨rfl, log, c, e, h, hk, hr, hf, .inl rfl⟩
  intro d' w' hm ho hf
  obtain ⟨log, c, ht, hc, hw⟩ := ho.writing
  exact ⟨hm, log, c, c, hw, by simp [ht], ho.reserved, hf, .inr hc⟩

end Roll

/-! ## Operation records -/

section Operations

variable {p : PendingBatch} {op : Operation} {log : Log} {c e : Cursor}

/-- What replay visits for an operation whose value the writer has located. -/
def located : Operation → Option ValueLocation → ReplayedRecord
  | .createTable table, _ => .createTable table
  | .put table key _, value => .put table key (value.getD ⟨0, 0, 0, 0⟩)
  | .delete table key, _ => .delete table key

/-- A step inside one attempt: nothing that a commit settles has changed. -/
structure Unsettled (r r' : Replay) : Prop where
  visited : r'.visited = r.visited
  batchSeq : r'.batchSeq = r.batchSeq
  chain : r'.chain = r.chain

theorem Unsettled.trans (h : Unsettled r r') (h' : Unsettled r' r'') : Unsettled r r'' :=
  ⟨h'.visited.trans h.visited, h'.batchSeq.trans h.batchSeq, h'.chain.trans h.chain⟩

theorem Progress.reset (h : Progress r batch p) :
    Progress { r with segmentAttempt := none } batch p :=
  ⟨h.pending, h.seq, .inl rfl, h.root, h.kind, h.encoded⟩

theorem Progress.resume (h : Progress { r with segmentAttempt := none } batch p)
    (hr : r' = r ∨ r' = { r with segmentAttempt := none })
    (ha : r'.segmentAttempt = none ∨ r'.segmentAttempt = some batch) : Progress r' batch p := by
  rcases hr with rfl | rfl
  · exact ⟨h.pending, h.seq, ha, h.root, h.kind, h.encoded⟩
  · exact h

theorem opRec_written (hb : op.Bounded) (hs : base < batch) (hm : batch < maxU64) :
    (opRec op batch base).head.Written := by
  have hd := encodeOp_decodes base hb
  rw [head_opRec]
  refine ⟨hs, ?_, hd.low, hd.high, crc32c_fits _⟩
  simp only [EncodedOp.head, Fits, maxU64] at *
  omega

theorem Room.issue {len : ℕ} (h : Room sha gid d w r batch len log c e)
    (hp : Progress e.replay batch p) (ho : op.Bounded) (hm : batch < maxU64)
    (hc : p.opCount < maxBatchOperations) (hb : p.bytes + opBytes op ≤ maxBatchBytes)
    (hl : (encodeOp op).len ≤ len) :
    Stored sha gid d { log with tail := log.tail ++ [opRec op batch e.replay.batchSeq] } c batch ∧
      c.run sha gid full ((log.tail ++ [opRec op batch e.replay.batchSeq]).map .record) =
        some (Cursor.pend e batch (encodeOp op).len
          (added gid e p op (opRec op batch e.replay.batchSeq))) := by
  have hs := h.writing.stored
  have ha := hs.readable.tail.attempt
  obtain ⟨-, hba, -⟩ := pending_run (no_commit h.tail) ha.same h.writing.ends
  have hr : c.run sha gid full ((log.tail ++ [opRec op batch e.replay.batchSeq]).map .record) =
      some (Cursor.pend e batch (encodeOp op).len
        (added gid e p op (opRec op batch e.replay.batchSeq))) := by
    rw [map_append]
    refine run_append.mpr ⟨e, h.writing.ends, ?_⟩
    exact run_cons.mpr ⟨_, operation_read hp ho hc hb, rfl⟩
  have hsp : ∀ q ∈ log.tail ++ [opRec op batch e.replay.batchSeq],
      q ∈ log.tail ∨ q = opRec op batch e.replay.batchSeq := by
    intro q hq
    rcases mem_append.mp hq with hq | hq
    · exact .inl hq
    · exact .inr (mem_singleton.mp hq)
  refine ⟨hs.issue (prefix_append _ _) ⟨.operations _ ?_, ⟨?_, ?_, ?_, ha.open_⟩, _, hr⟩ ?_ ?_, hr⟩
  · intro q hq
    rcases hsp q hq with hq | rfl
    · exact h.tail q hq
    · exact (encodeOp_decodes e.replay.batchSeq ho).operation
  · intro q hq
    rcases hsp q hq with hq | rfl
    · exact ha.written q hq
    · exact opRec_written ho hp.seq hm
  · intro q hq
    rcases hsp q hq with hq | rfl
    · exact ha.base q hq
    · exact hba
  · intro q hq
    rcases hsp q hq with hq | rfl
    · exact ha.same q hq
    · rfl
  · rw [← h.writing.reserved, h.reserved]
  have he := h.writing.buffered.endAt
  have hf := h.fits
  rw [length_segmentImage, recsLen_append] at he
  rw [recsLen_append, recsLen_cons, recsLen_nil, len_opRec]
  omega

def written (p : PendingBatch) (message : List Byte) (ops : List Operation)
    (values : List (Option ValueLocation)) (encoded : ℕ) : PendingBatch :=
  { p with
    records := p.records ++ List.zipWith located ops values
    opCount := p.opCount + ops.length
    bytes := p.bytes + (ops.map opBytes).sum
    encodedBytes := encoded
    ops := p.ops ++ message
    kind := if ops = [] then p.kind else some .user }

/-- The writer inside an attempt, of which replay would hold `p`. An outstanding intent makes
it roll first, so only then may the segment belong to an older attempt. -/
structure Ahead (sha : Sha256) (gid : ℕ) (d : Disk) (w : Writer) (r : Replay)
    (p : PendingBatch) : Prop where
  place : ∃ b, At sha gid d w b r ∧
    (w.reserved = none → w.nextBatchSeq < maxU64 → b = w.nextBatchSeq)
  progress : Progress { r with segmentAttempt := none } w.nextBatchSeq p

theorem located_replayed (op : Operation) (sid bodyAt : ℕ) : op.replayed sid bodyAt =
    located op (valueLocation op sid (bodyAt + (encodeOp op).inline.length)) := by
  cases op <;> rfl

theorem does_stage_then
    (h : Buffered d w n kept low issued) (he : ∀ d' w', Extended d n kept low (issued ++ more) d' →
    E (rejected .io) d' w') (hE : ∀ e e' d w, E e d w → E e' d w)
    (hf : ∀ d' w', Extended d n kept low (issued ++ more) d' → Restaged w w' →
    Buffered d' w' n kept low (issued ++ more) → Does d' w' (f ()) E Q) :
    Does d w (stage more >>= f) E Q := by
  apply does_bind (does_mono (does_stage h more) (fun _ d' w' hx => hE _ _ d' w' (he d' w' hx))
    (fun _ _ _ hq => hq))
  rintro _ d' w' ⟨hex, hr, hb⟩
  exact hf d' w' hex hr hb

theorem does_stage_record {v : ℕ → Option ValueLocation} {header inline value : List Byte} {n : ℕ}
    {visited : List ReplayedBatch} (h : Buffered d w n kept low issued)
    (hs : ∀ d', Extended d n kept low (issued ++ (header ++ inline ++ value)) d' →
      Safe sha gid visited d') :
    Does d w (do
      stage header
      stage inline
      let s ← get
      stage value
      pure (header ++ inline ++ value, v s.writer.endAt))
      (fun _ d' _ => Safe sha gid visited d') fun x d' w' =>
        Extended d n kept low (issued ++ (header ++ inline ++ value)) d' ∧ Restaged w w' ∧
          Buffered d' w' n kept low (issued ++ (header ++ inline ++ value)) ∧
          x = (header ++ inline ++ value, v (w.endAt + header.length + inline.length)) := by
  have hp1 : issued ++ header <+: issued ++ (header ++ inline ++ value) := by
    simp [append_assoc]
  have hp2 : issued ++ header ++ inline <+: issued ++ (header ++ inline ++ value) := by
    simp [append_assoc]
  have hp : issued ++ header ++ inline ++ value = issued ++ (header ++ inline ++ value) := by
    simp [append_assoc]
  refine does_stage_then h (fun d' _ hx => hs d' (hx.mono hp1)) (fun _ _ _ _ hx => hx) ?_
  intro d1 w1 hx1 hr hb1
  refine does_stage_then hb1 (fun d' _ hx => hs d' (hx1.trans (hx.mono hp2)))
    (fun _ _ _ _ hx => hx) ?_
  intro d2 w2 hx2 hr2 hb
  apply does_get
  intro fault
  refine does_stage_then hb (fun d' _ hx => hs d' (hx1.trans (hx2.trans (hp ▸ hx))))
    (fun _ _ _ _ hx => hx) ?_
  intro d3 w3 hx3 hr3 hb3
  rw [hp] at hx3 hb3
  apply does_pure
  refine ⟨hx1.trans (hx2.trans hx3), hr.trans (hr2.trans hr3), hb3, ?_⟩
  have he : w2.endAt = w.endAt + header.length + inline.length := by
    rw [hb.endAt, h.endAt]
    simp [Nat.add_assoc]
  rw [he]

theorem does_writeRecord (h : Ahead sha gid d w r p) (hma : w.nextBatchSeq < maxU64) (hop : op.Bounded) (hc : p.opCount < maxBatchOperations)
    (hb : p.bytes + opBytes op ≤ maxBatchBytes) :
    Does d w (writeRecord op) (fun _ d' _ => Safe sha gid r.visited d') fun x d' w' =>
      ∃ r' encoded, Moved w w' ∧ w'.reserved = none ∧ Unsettled r r' ∧
        Ahead sha gid d' w' r' (written p x.1 [op] [x.2] encoded) := by
  obtain ⟨b, hp, hsa⟩ := h.place
  apply does_bind (does_ensureRoom hp hma (fun hres => hsa hres hma) (encodeOp op).len)
  rintro _ d1 w1 ⟨hm, log, c, e, hro⟩
  have hp' := Progress.resume h.progress hro.replay (hro.writing.attempt hro.tail).2
  have hne : w1.nextBatchSeq = w.nextBatchSeq := by rw [hm]
  obtain ⟨hs, hru⟩ := Room.issue hro hp' hop hma hc hb le_rfl
  have hv : c.replay.visited = r.visited := by
    rw [← (hro.writing.attempt hro.tail).1]
    rcases hro.replay with hr | hr <;> rw [hr]
  have hops : ∀ q ∈ log.tail ++ [opRec op w.nextBatchSeq e.replay.batchSeq],
      q.kind.isOperation = true := by
    intro q hq
    rcases mem_append.mp hq with hq | hq
    · exact hro.tail q hq
    · rw [mem_singleton.mp hq]
      exact (encodeOp_decodes e.replay.batchSeq hop).operation
  have hse : e.segmentId = log.last := by
    rw [(run_position hro.writing.ends).1, hro.writing.stored.position.1]
  have ho := hro.writing.end_offset
  have hq : (opRec op w.nextBatchSeq e.replay.batchSeq).bytes gid log.last e.offset =
      recordHeader w1.groupId ⟨log.last, w1.endAt⟩
        ((encodeOp op).head w1.nextBatchSeq w1.lastBatchSeq) ++ (encodeOp op).inline ++
          (encodeOp op).value := by
    rw [Rec.bytes, head_opRec, hro.writing.group, ho, hne, hro.writing.base, append_assoc]
    rfl
  have hw : segmentImage gid log.last
      (log.newest ++ (log.tail ++ [opRec op w.nextBatchSeq e.replay.batchSeq])) =
      segmentImage gid log.last (log.newest ++ log.tail) ++
        (recordHeader w1.groupId ⟨log.last, w1.endAt⟩
          ((encodeOp op).head w1.nextBatchSeq w1.lastBatchSeq) ++ (encodeOp op).inline ++
            (encodeOp op).value) := by
    have hl := hro.writing.buffered.endAt
    rw [length_segmentImage, ho] at hl
    rw [← append_assoc, segmentImage_append, ← hq, hl]
    simp [recsBytes]
  apply does_get
  intro fault
  refine does_then (does_active hro.writing.buffered.active ?_)
  refine does_mono (does_stage_record
    (v := valueLocation op log.last) hro.writing.buffered ?_) (fun _ _ _ he => he) ?_
  · intro d' hx
    rw [← hw] at hx
    rw [← hv]
    exact Stored.safe (hs.extended hx) (no_commit hops)
  rintro x d2 w2 ⟨hx, hre, hbu, rfl⟩
  rw [← hw] at hx hbu
  have hwr : Writing sha gid d2 w2
      { log with tail := log.tail ++ [opRec op w.nextBatchSeq e.replay.batchSeq] } c
      (Cursor.pend e w.nextBatchSeq (encodeOp op).len
        (added gid e p op (opRec op w.nextBatchSeq e.replay.batchSeq))) w.nextBatchSeq := by
    refine ⟨hs.extended hx, hru, hbu, ?_, ?_, ?_, ?_, ?_⟩
    all_goals rw [hre]
    · exact hro.writing.group
    · exact hro.writing.capacity
    · rw [hx.root]
      exact hro.writing.reserved
    · exact hro.writing.base
    · exact hro.writing.chain
  have ha : added gid e p op (opRec op w.nextBatchSeq e.replay.batchSeq) =
      written p (recordHeader w1.groupId ⟨log.last, w1.endAt⟩
        ((encodeOp op).head w1.nextBatchSeq w1.lastBatchSeq) ++ (encodeOp op).inline ++
          (encodeOp op).value) [op] [valueLocation op log.last (w1.endAt + recordHeaderBytes +
            (encodeOp op).inline.length)] (p.encodedBytes + (encodeOp op).len) := by
    simp [added, written, hse, hq, ho, located_replayed]
  have hn : w2.nextBatchSeq = w.nextBatchSeq := by
    rw [hre]
    exact hne
  refine ⟨_, p.encodedBytes + (encodeOp op).len, hm.trans (Restaged.moved hre), ?_, ?_,
    ⟨_, .segment _ _ _ hwr hops, fun _ _ => hn.symm⟩, ?_⟩
  · rw [hre]
    exact hro.reserved
  · rcases hro.replay with hr | hr <;> simp only [Cursor.pend, hr] <;> exact ⟨rfl, rfl, rfl⟩
  simp only [length_recordHeader]
  rw [recordHeaderBytes] at ha
  rw [← ha, hn]
  exact Progress.reset (hp'.added _ _)

theorem written_cons (p : PendingBatch) (m m' : List Byte) (op : Operation)
    (ops : List Operation) (v : Option ValueLocation) (vs : List (Option ValueLocation))
    (e e' : ℕ) :
    written (written p m [op] [v] e) m' ops vs e' = written p (m ++ m') (op :: ops) (v :: vs) e' := by
  simp [written, Nat.add_assoc, Nat.add_comm 1]

theorem does_writeRecords (h : Ahead sha gid d w r p) (hma : w.nextBatchSeq < maxU64)
    (hop : ∀ op ∈ ops, op.Bounded) (hc : p.opCount + ops.length ≤ maxBatchOperations)
    (hb : p.bytes + (ops.map opBytes).sum ≤ maxBatchBytes) : Does d w (writeRecords ops)
    (fun _ d' _ => Safe sha gid r.visited d') fun x d' w' => ∃ r' encoded, Moved w w' ∧
    (w.reserved = none ∨ ops ≠ [] → w'.reserved = none) ∧ Unsettled r r' ∧ x.2.length = ops.length ∧
    Ahead sha gid d' w' r' (written p x.1 ops x.2 encoded) := by
  induction ops generalizing d w r p with
  | nil =>
    apply does_pure
    refine ⟨r, p.encodedBytes, rfl, fun hn => ?_, ⟨rfl, rfl, rfl⟩, rfl, ?_⟩
    · exact hn.resolve_right fun hn => hn rfl
    have hp : written p [] [] [] p.encodedBytes = p := by simp [written]
    rw [hp]
    exact h
  | cons op ops ih =>
    simp only [length_cons, map_cons, sum_cons] at hc hb
    apply does_bind (does_writeRecord h hma (hop op mem_cons_self) (by omega) (by omega))
    rintro ⟨m, v⟩ d1 w1 ⟨r1, enc, hm, hres, hu, hah⟩
    have hnex : w1.nextBatchSeq = w.nextBatchSeq := by rw [hm]
    have hr := ih hah (hnex ▸ hma) (fun o ho => hop o (mem_cons_of_mem _ ho))
      (by simp only [written, length_singleton]; omega)
      (by simp only [written, map_cons, map_nil, sum_cons, sum_nil]; omega)
    rw [hu.visited] at hr
    apply does_bind hr
    rintro ⟨m', vs⟩ d2 w2 ⟨r2, enc', hm', hre, hu', hl, ha⟩
    apply does_pure
    refine ⟨r2, enc', hm.trans hm', fun _ => hre (.inl hres), hu.trans hu', by simp [hl], ?_⟩
    rw [← written_cons p m m' op ops v vs enc enc']
    exact ha

theorem validateOperations_ok (h : validateOperations bs ops = .ok ()) :
    (∀ op ∈ ops, op.Bounded) ∧ (ops = [] ∨ bs + (ops.map opBytes).sum ≤ maxBatchBytes) := by
  induction ops generalizing bs with
  | nil => exact ⟨fun _ hop => (nomatch hop), .inl rfl⟩
  | cons op ops ih =>
    obtain ⟨ht, h⟩ := guard_ok h
    obtain ⟨hsi, h⟩ := guard_ok h
    obtain ⟨hto, h⟩ := guard_ok h
    obtain ⟨hops, hs⟩ := ih h
    refine ⟨?_, .inr ?_⟩
    · intro o ho
      rcases mem_cons.mp ho with rfl | ho
      · refine ⟨?_, by omega, by omega, by omega⟩
        intro hn
        exact ht (.inl (by rw [hn]; rfl))
      · exact hops o ho
    simp only [map_cons, sum_cons, opBytes] at *
    rcases hs with rfl | hs
    · simp only [map_nil, sum_nil]
      omega
    · omega

theorem validateBatch_ok (h : validateBatch ops = .ok ()) : ops ≠ [] ∧ ops.length ≤
    maxBatchOperations ∧ (∀ op ∈ ops, op.Bounded) ∧ (ops.map opBytes).sum ≤ maxBatchBytes := by
  obtain ⟨hl, h⟩ := guard_ok h
  obtain ⟨ho, hs⟩ := validateOperations_ok h
  have hn : ops ≠ [] := fun hni => hl (.inl hni)
  refine ⟨hn, by omega, ho, ?_⟩
  have := hs.resolve_left hn
  omega

end Operations

end SegmentAppend
