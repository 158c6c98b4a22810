import Kasumi.SegmentSurvive

/-! Reopening a log: the tail behind the append position is discarded, and the writer that
resumes there keeps every batch replay has visited. -/
namespace SegmentReopen

open ByteFields SegmentRecords SegmentReplay SegmentLayout SegmentTorn SegmentTrace List
open SegmentRecover SegmentWriter SegmentDurable SegmentStored SegmentAppend SegmentPublish
open SegmentSurvive
open DirectoryPages (maxU64 segmentBytes segmentHeaderBytes recordHeaderBytes)
open RootFormat (Superblock)
open FallibleSteps (bind_ok then_ok)

variable {c e : Cursor} {recs : List Rec}

/-! ## The append position of a read -/

/-- Where a read of the log up to segment `n` leaves the append position: behind the last commit
if it is in this segment, else behind the header. -/
def resumeOffset (n : ℕ) (visited : List ReplayedBatch) : ℕ :=
  match visited.getLast? with
  | some b => if b.endAt.segmentId = n then b.endAt.offset else segmentHeaderBytes
  | none => segmentHeaderBytes

theorem visited_segment (h : genesis.run sha gid full items = some c) :
    ∀ b ∈ c.replay.visited, b.endAt.segmentId ≤ c.segmentId := by
  refine run_induction (P := fun c => ∀ b ∈ c.replay.visited, b.endAt.segmentId ≤ c.segmentId)
    ?_ ?_ (fun _ hb => absurd hb not_mem_nil) h
  · intro c r c' hc hs
    cases step_effect hs with
    | pend => exact hc
    | commit =>
      intro b hb
      rcases mem_append.mp hb with hb | hb
      · exact hc b hb
      · rw [mem_singleton.mp hb]
  · intro c hc b hb
    exact (hc b hb).trans (Nat.le_succ _)

theorem segment_start (h : genesis.run sha gid full (itemsOf (a ++ [[]])) = some m) :
    m.resume = m.offset ∧ m.replay.segmentAttempt = none ∧ m.offset = segmentHeaderBytes ∧
      ∀ b ∈ m.replay.visited, b.endAt.segmentId < m.segmentId := by
  by_cases ha : a = []
  · subst ha
    cases h
    exact ⟨rfl, rfl, rfl, fun _ hb => absurd hb not_mem_nil⟩
  rw [itemsOf_roll ha] at h
  obtain ⟨c, hc, hr⟩ := run_append.mp h
  cases hr
  refine ⟨rfl, rfl, rfl, ?_⟩
  intro b hb
  exact Nat.lt_succ_of_le (visited_segment hc b hb)

/-- The read of the newest segment, split at its append position. -/
structure Resumes (sha : Sha256) (gid : ℕ) (a : List (List Rec)) (recs : List Rec) (e : Cursor)
    (r1 r2 : List Rec) (m : Cursor) : Prop where
  split : recs = r1 ++ r2
  run : genesis.run sha gid full (itemsOf (a ++ [r1])) = some m
  rest : m.run sha gid full (r2.map .record) = some e
  pending : ∀ q ∈ r2, q.kind ≠ .commit
  resume : e.resume = m.offset
  attempt : m.replay.segmentAttempt = none
  place : e.resume = resumeOffset e.segmentId e.replay.visited

theorem resumes (h : genesis.run sha gid full (itemsOf (a ++ [recs])) = some e) :
    ∃ r1 r2 m, Resumes sha gid a recs e r1 r2 m := by
  induction recs using reverseRecOn generalizing e with
  | nil =>
    obtain ⟨hre, ha, ho, hlo⟩ := segment_start h
    refine ⟨[], [], e, rfl, h, rfl, fun _ hq => (nomatch hq), hre, ha, ?_⟩
    rw [hre, ho, resumeOffset]
    cases hl : e.replay.visited.getLast? with
    | none => rfl
    | some b =>
      have hlt := hlo b (mem_of_getLast? hl)
      simp only [Nat.ne_of_lt hlt, if_false]
  | append_singleton recs q ih =>
    rw [itemsOf_extend] at h
    obtain ⟨c, hc, hq⟩ := run_append.mp h
    obtain ⟨e', hs, hn⟩ := run_cons.mp hq
    cases hn
    cases hco : decide (q.kind = .commit) with
    | true =>
      -- A commit moves the append position behind itself.
      have hk := of_decide_eq_true hco
      have hru : genesis.run sha gid full (itemsOf (a ++ [recs ++ [q]])) = some e := by
        rw [itemsOf_extend]
        exact h
      cases step_effect hs with
      | pend _ hne => exact absurd hk hne
      | commit =>
        refine ⟨recs ++ [q], [], _, by simp, hru, rfl, fun _ hq => (nomatch hq), rfl, rfl, ?_⟩
        simp [resumeOffset]
    | false =>
      have hk := of_decide_eq_false hco
      obtain ⟨r1, r2, m, hr⟩ := ih hc
      cases step_effect hs with
      | commit _ _ _ hk' => exact absurd hk' hk
      | pend =>
        refine ⟨r1, r2 ++ [q], m, by simp [hr.split], hr.run, ?_, ?_, hr.resume, hr.attempt,
          hr.place⟩
        · rw [map_append]
          exact run_append.mpr ⟨c, hr.rest, hq⟩
        intro p hp
        rcases mem_append.mp hp with hp | hp
        · exact hr.pending p hp
        · rw [mem_singleton.mp hp]
          exact hk

theorem settled_run (hk : ∀ q ∈ recs, q.kind ≠ .commit)
    (h : c.run sha gid full (recs.map .record) = some e) : Unsettled c.replay e.replay := by
  induction recs generalizing c with
  | nil => cases h; exact ⟨rfl, rfl, rfl⟩
  | cons q recs ih =>
    obtain ⟨c', hc, hr⟩ := run_cons.mp h
    have hu := ih (fun p hp => hk p (mem_cons_of_mem _ hp)) hr
    cases step_effect hc with
    | pend => exact ⟨hu.visited, hu.batchSeq, hu.chain⟩
    | commit _ _ _ hc' => exact absurd hc' (hk q mem_cons_self)

/-! ## The reopened disk and the resumed writer -/

def reopened (image : LogImage) (root : Superblock) : Disk :=
  ⟨fun id => (image id).map fun bytes => ⟨bytes, bytes.length⟩, root⟩

theorem Stored.rebatch (h : Stored sha gid d log c batch) (ht : log.tail = [])
    (ha : c.replay.segmentAttempt = none) (hb : b < maxU64) : Stored sha gid d log c b := by
  refine ⟨⟨h.readable.run, h.readable.written, ?_⟩, h.record, h.frontier, h.intent, h.sealed,
    h.newest, h.small, h.short, h.seen, hb⟩
  rw [ht]
  exact tail_nil ha

theorem Stored.consistent (h : Stored sha gid d log c batch) : Consistent replayGenesis c.replay :=
  run_consistent genesis_consistent h.readable.run

/-- A writer behind a synchronized log that is above every sequence of it. -/
structure Behind (d : Disk) (gid : ℕ) (log : Log) (c : Cursor) (w : Writer) : Prop where
  active : w.active = some log.last
  endAt : w.endAt = c.offset
  stage : w.stage = []
  stageAt : w.stageAt = w.endAt
  group : w.groupId = gid
  capacity : w.capacity = segmentBytes
  reserved : w.reserved = d.root.pendingSegment
  base : w.lastBatchSeq = c.replay.batchSeq
  chain : w.chain = c.replay.chain
  prepared : w.prepared = none
  next : c.replay.maxSeen < w.nextBatchSeq
  max : w.nextBatchSeq ≤ maxU64

theorem Behind.writing (h : Stored sha gid d log c batch) (ht : log.tail = [])
    (hw : Behind d gid log c w) : Writing sha gid d w log c c batch := by
  refine ⟨h, by rw [ht]; rfl, ?_, hw.group, hw.capacity, hw.reserved, hw.base, hw.chain⟩
  rw [ht, append_nil]
  refine ⟨hw.active, ?_, by simp [hw.stage, hw.stageAt],
    ⟨_, h.newest_whole ht, prefix_rfl, by simp [hw.stage]⟩, by simp⟩
  rw [hw.endAt, h.position.2, length_segmentImage]

theorem Behind.idle (h : Stored sha gid d log c batch) (ht : log.tail = [])
    (hw : Behind d gid log c w) (ha : w.reserved = none → c.replay.segmentAttempt = none) :
    Idle sha gid d w c.replay := by
  have hc := Stored.consistent h
  have hk : ∀ q ∈ log.tail, q.kind.isOperation = true := by simp [ht]
  refine ⟨⟨?_, ?_⟩, hw.prepared, hw.max⟩
  · by_cases hr : w.reserved = none ∧ w.nextBatchSeq < maxU64
    · have hs := Stored.rebatch h ht (ha hr.1) hr.2
      exact ⟨_, .segment log c c (Behind.writing hs ht hw) hk, fun _ _ => rfl⟩
    refine ⟨batch, .segment log c c (Behind.writing h ht hw) hk, ?_⟩
    intro h1 h2
    exact absurd ⟨h1, h2⟩ hr
  apply fresh_progress
  · intro p hp
    rw [← (hc.pending p hp).1]
    exact hw.next
  · exact hc.batchSeq_le.trans_lt hw.next

theorem Frontier.reopened (h : Frontier gid n d) (hs : Survives d img) :
    Frontier gid n (reopened img d.root) := by
  refine ⟨h.last, h.next, h.ids, ?_, ?_⟩
  · intro f hf
    obtain ⟨bs, hb, rfl⟩ := Option.map_eq_some_iff.mp hf
    cases hd : d.files (n + 1) with
    | none =>
      rw [hs.absent _ hd] at hb
      cases hb
    | some f =>
      obtain ⟨file, hi, hl⟩ := hs.present _ _ hd
      rw [hi] at hb
      cases hb
      obtain ⟨hn, ht⟩ := h.header f hd
      exact ⟨hn, torn_left ht hl⟩
  intro id hid
  have hno := hs.absent _ (h.beyond id hid)
  simp [SegmentReopen.reopened, hno]

theorem discardTail_ok (hi : img n = some file)
    (hr : stop.resume = some ⟨n, x⟩) (hl : stop.finalLen = file.length)
    (ht : stop.tailHead = slice x (x + recordHeaderBytes) file ++
      zeros (recordHeaderBytes - (slice x (x + recordHeaderBytes) file).length))
    (hx : x ≤ file.length) : ∃ d', discardTail stop (reopened img root) = .ok d' ∧
      Extended (reopened img root) n x (file.take x) (file.take x) d' := by
  have hf : (reopened img root).files n = some ⟨file, file.length⟩ := by
    simp [reopened, hi]
  by_cases hs : stop.finalLen = x
  · refine ⟨_, by simp only [discardTail, hr, hs, if_true]; rfl, rfl, fun _ _ => rfl, file, ?_⟩
    rw [hl] at hs
    subst hs
    rw [take_length]
    exact ⟨hf, prefix_rfl, prefix_rfl⟩
  have hn : ¬ file.length = x := by
    rw [← hl]
    exact hs
  have hh : ¬ (file.length ≠ stop.finalLen ∨ slice x (x + recordHeaderBytes) file ++
      zeros (recordHeaderBytes - (slice x (x + recordHeaderBytes) file).length) ≠
        stop.tailHead) := by
    simp [hl, ht]
  refine ⟨(reopened img root).put n ((SegFile.mk file file.length).setLen x).sync, ?_, ?_⟩
  · simp only [discardTail, hr, hs, hf, hn, hh, if_false]
    rfl
  have hse : ((SegFile.mk file file.length).setLen x).sync = ⟨file.take x, x⟩ := by
    have hz : x - file.length = 0 := by omega
    simp [SegFile.setLen, SegFile.sync, hz, zeros, hx]
  rw [hse]
  exact put_extended prefix_rfl prefix_rfl

theorem Stored.cut (h : Stored sha gid d log c batch)
    (hs : Survives d img) (hh : Holds gid log img left)
    (hp : d.root.pendingSegment = none ∨ r1 = log.newest)
    (hru : genesis.run sha gid full (itemsOf (log.sealed ++ [r1])) = some m)
    (hw : ∀ r ∈ r1, r.head.Written) (hb : b < maxU64)
    (ha : m.replay.segmentAttempt = none ∨ m.replay.segmentAttempt = some b)
    (hl : segmentHeaderBytes + recsLen r1 ≤ segmentBytes) (hse : m.replay.maxSeen < maxU64)
    (hd : Extended (reopened img d.root) log.last (segmentHeaderBytes + recsLen r1)
      (segmentImage gid log.last r1) (segmentImage gid log.last r1) d') :
    Stored sha gid d' ⟨log.sealed, r1, []⟩ m b := by
  have hfr := (Frontier.reopened h.frontier hs).extended le_rfl hd
  refine ⟨⟨hru, ?_, tail_open ha⟩, ?_, hfr, fun _ => rfl, ?_, ?_, h.small, hl, hse, hb⟩
  · intro recs hre r hr
    rcases mem_append.mp hre with hre | hre
    · exact h.readable.written recs (mem_append_left _ hre) r hr
    · rw [mem_singleton.mp hre] at hr
      exact hw r hr
  · intro s hso
    rw [hd.root] at hso ⊢
    obtain ⟨a, recs, cur, hc, hcu, hrec⟩ := h.record s hso
    refine ⟨a, recs, cur, ?_, hcu, hrec⟩
    rcases hp with hp | rfl
    · have hno : (logBounds d.root).pendingSegment = none := hp
      have hn : (logBounds (SegmentReopen.reopened img d.root).root).pendingSegment = none :=
        hp
      rw [hno] at hc
      rw [hn]
      exact hc
    · exact hc
  · intro i recs hi
    have hlt := sealed_index log hi
    rw [hd.others _ (by omega)]
    simp [SegmentReopen.reopened, hh.sealed i recs hi]
  · obtain ⟨bs, hf, hlo, hhi⟩ := hd.file
    exact ⟨bs, hf, hlo, by rw [append_nil]; exact hhi⟩

theorem replay_next
    (h : replay sha gid true img start bds = .ok out) : out.1.nextBatchSeq ≤ maxU64 := by
  replace h := then_ok h
  obtain ⟨⟨r, e⟩, -, h⟩ := bind_ok h
  replace h := then_ok h
  obtain ⟨hm, h⟩ := guard_ok h
  cases h
  exact Nat.not_lt.mp hm

theorem resume_writer (hr : stop.resume = some ⟨n, x⟩) :
    Writer.resume gid stop = { Writer.new gid with
      active := some n
      endAt := x
      stageAt := x
      reserved := stop.pendingSegment
      lastBatchSeq := stop.batchSeq
      nextBatchSeq := stop.nextBatchSeq
      chain := stop.chain } := by
  simp only [Writer.resume, hr]

theorem behind_resume (hr : stop.resume = some ⟨log.last, x⟩) (hx : x = m.offset)
    (hp : stop.pendingSegment = d.root.pendingSegment) (hb : stop.batchSeq = m.replay.batchSeq)
    (hc : stop.chain = m.replay.chain) (hs : m.replay.maxSeen < stop.nextBatchSeq)
    (hn : stop.nextBatchSeq ≤ maxU64) : Behind d gid log m (Writer.resume gid stop) := by
  rw [resume_writer hr]
  exact ⟨rfl, hx, rfl, rfl, rfl, rfl, hp, hb, hc, rfl, hs, hn⟩

theorem visited_whole (h : a <+: b) (hk : k ≤ a.length) : a.take k ++ b.drop k = b := by
  obtain ⟨rest, rfl⟩ := h
  rw [← take_append_of_le_length hk, take_append_drop]

/-- A writer resumed after replay of what is left of a stored log has lost nothing. -/
theorem Stored.reopens (h : Stored sha gid d log c batch) (hs : Survives d img)
    (hu : Unforged sha gid d img (startAfter c.replay.visited k)) (hk : k ≤ c.replay.visited.length)
    (hrepl : replay sha gid true img (startAfter c.replay.visited k) (logBounds d.root) = .ok out)
    (hdi : discardTail out.1 (reopened img d.root) = .ok d') : ∃ r,
    Idle sha gid d' (Writer.resume gid out.1) r ∧ r.visited = c.replay.visited.take k ++ out.2 := by
  obtain ⟨left, a, b, e, out', hi, ht, -, hta, hru, hle, -, hrep, hrec⟩ :=
    Stored.replayed h hs hu hk
  rw [hrepl] at hrep
  cases hrep
  have hn := replay_next hrepl
  have hh := Stored.holds h hs hi (by simpa using ht.short)
  have hv : c.replay.visited.take k ++ out.2 = e.replay.visited := by
    rw [hrec.visited]
    exact visited_whole (run_visited hru) hk
  rw [hv]
  cases hp : d.root.pendingSegment with
  | some p =>
    -- The newest segment is sealed: nothing was in flight, and nothing is discarded.
    have hni : log.tail = [] := h.intent (by rw [hp]; rfl)
    rw [hni] at hta ht
    obtain ⟨rfl, rfl⟩ := nil_eq_append_iff.mp hta
    cases hru
    have hl : left = [] := eq_nil_of_length_eq_zero (Nat.le_zero.mp ht.short)
    subst hl
    rw [append_nil] at hi hrec
    have hsom : (logBounds d.root).pendingSegment.isSome = true := by
      rw [show (logBounds d.root).pendingSegment = some p from hp]
      rfl
    have hre := hrec.resume
    rw [if_pos hsom] at hre
    obtain ⟨d'', hd, he⟩ := discardTail_ok hi hre hrec.finalLen
      (hrec.tailHead _ hre) le_rfl
    rw [hdi] at hd
    cases hd
    rw [take_length, length_segmentImage] at he
    have hs' := Stored.cut h hs hh (.inr rfl) h.readable.run
      (h.readable.written log.newest (by simp [Log.segments])) h.batch
      h.readable.tail.attempt.open_ ((Nat.le_add_right _ _).trans h.short) h.seen he
    refine ⟨_, Behind.idle hs' rfl (behind_resume hre ?_ ?_ hrec.batchSeq hrec.chain hrec.seen
      hn) ?_, rfl⟩
    · rw [length_segmentImage, h.position.2]
    · rw [he.root]
      exact hrec.pendingSegment
    intro hno
    rw [resume_writer hre] at hno
    have hso := hrec.pendingSegment.trans hp
    exact absurd (hso.symm.trans hno) (by simp)
  | none =>
    obtain ⟨hla, hof⟩ := h.position
    have hrea : genesis.run sha gid full (itemsOf (log.sealed ++ [log.newest ++ a])) = some e := by
      rw [itemsOf_extend]
      exact run_append.mpr ⟨c, h.readable.run, hru⟩
    obtain ⟨r1, r2, m, hm⟩ := resumes hrea
    have hu' := settled_run hm.pending hm.rest
    have ho : m.offset = segmentHeaderBytes + recsLen r1 := (run_segments hm.run).2
    have hre := hrec.resume
    rw [if_neg (by rw [show (logBounds d.root).pendingSegment = none from hp]; simp),
      hm.resume, ho] at hre
    have hw : segmentImage gid log.last r1 <+: segmentImage gid log.last log.newest ++ left := by
      have ha : segmentImage gid log.last r1 <+: segmentImage gid log.last (log.newest ++ a) := by
        rw [hm.split, segmentImage_append]
        exact prefix_append _ _
      refine ha.trans ?_
      rw [segmentImage_append, ← hof, ← hla]
      exact (prefix_append_right_inj _).mpr hle
    have htak : (segmentImage gid log.last log.newest ++ left).take
        (segmentHeaderBytes + recsLen r1) = segmentImage gid log.last r1 := by
      rw [← length_segmentImage gid log.last r1]
      exact (prefix_iff_eq_take.mp hw).symm
    obtain ⟨d'', hd, he⟩ := discardTail_ok hi hre hrec.finalLen
      (hrec.tailHead _ hre) (by simpa using hw.length_le)
    rw [hdi] at hd
    cases hd
    rw [htak] at he
    have hlen : recsLen r1 ≤ recsLen log.newest + recsLen log.tail := by
      have := congrArg recsLen hm.split
      rw [recsLen_append, recsLen_append] at this
      rw [hta, recsLen_append]
      omega
    have hse : m.replay.maxSeen ≤ e.replay.maxSeen :=
      (run_seen (run_consistent genesis_consistent hm.run) hm.rest).1
    have hs' := Stored.cut h hs hh (.inl hp) hm.run ?_ (b := 0) (by decide) (.inl hm.attempt)
      (by have := h.short; omega) (hse.trans_lt (hrec.seen.trans_le hn)) he
    · refine ⟨_, Behind.idle hs' rfl (behind_resume hre ho.symm ?_
        (hrec.batchSeq.trans hu'.batchSeq) (hrec.chain.trans hu'.chain)
        (hse.trans_lt hrec.seen) hn) (fun _ => hm.attempt), hu'.visited.symm⟩
      rw [he.root]
      exact hrec.pendingSegment
    intro r hr
    have hme : r ∈ log.newest ++ a := by
      rw [hm.split]
      exact mem_append_left _ hr
    rcases mem_append.mp hme with hme | hme
    · exact h.readable.written log.newest (by simp [Log.segments]) r hme
    · exact h.readable.tail.attempt.written r (hta ▸ mem_append_left _ hme)

theorem Bare.reopens (h : Bare gid d) (hs : Survives d img)
    (hu : Unforged sha gid d img replayGenesis)
    (hr : replay sha gid true img replayGenesis (logBounds d.root) = .ok out)
    (hd : discardTail out.1 (reopened img d.root) = .ok d') :
    ∃ r, Idle sha gid d' (Writer.resume gid out.1) r ∧ r.visited = out.2 := by
  rw [Bare.replayed h hs hu] at hr
  cases hr
  cases hd
  refine ⟨genesis.replay, ⟨⟨⟨_, .bare ⟨Frontier.reopened h.frontier hs, h.sealed⟩ ?_, fun _ _ => rfl⟩, ?_⟩, rfl, ?_⟩, rfl⟩
  · exact ⟨rfl, rfl, rfl, rfl, rfl, rfl, rfl⟩
  · exact fresh_progress (fun _ hp => (nomatch hp)) Nat.zero_lt_one
  · exact (by decide : 1 ≤ maxU64)

end SegmentReopen
