import Kasumi.SegmentDurable

/-! The disk under a log: what the files and the root hold between two backend calls, and that
every call of the writer keeps it. -/
namespace SegmentStored

open ByteFields SegmentRecords SegmentReplay SegmentLayout SegmentTorn List
open SegmentRecover SegmentWriter SegmentDurable
open DirectoryPages (maxU64 segmentBytes segmentHeaderBytes)
open RootFormat (SealedSegment Superblock)
open FallibleSteps (bind_ok)

variable {sha : Sha256} {gid n batch endAt sid : ℕ} {d : Disk} {log : Log} {c : Cursor} {r : Replay}
  {s next : Superblock} {kept i last : ℕ} {recs : List Rec} {f : SegFile}

/-- Beyond the newest confirmed segment `n` there is at most the file of an outstanding intent,
with no more than its header. -/
structure Frontier (gid n : ℕ) (d : Disk) : Prop where
  last : d.root.lastSegmentId = n
  next : d.root.nextSegmentId = n + 1 ∨ d.root.nextSegmentId = n + 2
  ids : d.root.nextSegmentId < maxU64
  header : ∀ f, d.files (n + 1) = some f →
    d.root.nextSegmentId = n + 2 ∧ Torn (segmentHeader gid (n + 1)) f.bytes
  beyond : ∀ id, n + 1 < id → d.files id = none

/-- The disk of a log: sealed segments whole and kept, the newest one kept up to its last
synchronization and followed by some of the bytes of the tail. -/
structure Stored (sha : Sha256) (gid : ℕ) (d : Disk) (log : Log) (c : Cursor) (batch : ℕ) :
    Prop where
  readable : Readable sha gid log c batch
  record : SealedRecord sha gid log (logBounds d.root)
  frontier : Frontier gid log.last d
  intent : d.root.pendingSegment.isSome = true → log.tail = []
  sealed : ∀ i recs, log.sealed[i]? = some recs →
    d.files (i + 1) = some ⟨segmentImage gid (i + 1) recs, segmentHeaderBytes + recsLen recs⟩
  newest : ∃ bytes, d.files log.last = some ⟨bytes, segmentHeaderBytes + recsLen log.newest⟩ ∧
    segmentImage gid log.last log.newest <+: bytes ∧
    bytes <+: segmentImage gid log.last (log.newest ++ log.tail)
  small : ∀ recs ∈ log.sealed, segmentHeaderBytes + recsLen recs ≤ segmentBytes
  short : segmentHeaderBytes + recsLen log.newest + recsLen log.tail ≤ segmentBytes
  seen : c.replay.maxSeen < maxU64
  batch : batch < maxU64

structure Bare (gid : ℕ) (d : Disk) : Prop where
  frontier : Frontier gid 0 d
  sealed : d.root.sealed = none

theorem Frontier.pending (h : Frontier gid n d) :
    d.root.pendingSegment = if d.root.nextSegmentId = n + 2 then some (n + 1) else none := by
  have hl := h.last
  rcases h.next with hn | hn <;> simp [Superblock.pendingSegment, Superblock.pendingId, hl, hn]

theorem Frontier.pending_eq (h : Frontier gid n d) (hp : d.root.pendingSegment = some p) :
    p = n + 1 ∧ d.root.nextSegmentId = n + 2 := by
  rw [h.pending] at hp
  split at hp
  · cases hp
    exact ⟨rfl, ‹_›⟩
  · cases hp

theorem Stored.position (h : Stored sha gid d log c batch) :
    c.segmentId = log.last ∧ c.offset = segmentHeaderBytes + recsLen log.newest :=
  run_segments h.readable.run

theorem Frontier.extended (h : Frontier gid n d) (hm : m ≤ n)
    (hd : Extended d m kept low high d') : Frontier gid n d' := by
  have hr := hd.root
  refine ⟨hr ▸ h.last, hr ▸ h.next, hr ▸ h.ids, ?_, ?_⟩
  · intro f hf
    rw [hd.others (n + 1) (by omega)] at hf
    rw [hr]
    exact h.header f hf
  intro id hi
  rw [hd.others id (by omega)]
  exact h.beyond id hi

theorem sealed_index (log : Log) (h : log.sealed[i]? = some recs) : i + 1 < log.last := by
  obtain ⟨hi, -⟩ := List.getElem?_eq_some_iff.mp h
  simp only [Log.last]
  omega

theorem Stored.extended (h : Stored sha gid d log c batch)
    (hd : Extended d log.last (segmentHeaderBytes + recsLen log.newest)
      (segmentImage gid log.last log.newest)
      (segmentImage gid log.last (log.newest ++ log.tail)) d') : Stored sha gid d' log c batch := by
  refine ⟨h.readable, hd.root ▸ h.record, h.frontier.extended le_rfl hd, hd.root ▸ h.intent, ?_,
    hd.file, h.small, h.short, h.seen, h.batch⟩
  intro i recs hi
  have := sealed_index log hi
  rw [hd.others _ (by omega)]
  exact h.sealed i recs hi

theorem Stored.issue (h : Stored sha gid d log c batch) {tail : List Rec} (hp : log.tail <+: tail)
    (ht : Tail sha gid c batch tail) (hpe : d.root.pendingSegment = none)
    (hs : segmentHeaderBytes + recsLen log.newest + recsLen tail ≤ segmentBytes) :
    Stored sha gid d { log with tail := tail } c batch := by
  obtain ⟨bs, hf, hl, hb⟩ := h.newest
  obtain ⟨more, rfl⟩ := hp
  refine ⟨⟨h.readable.run, h.readable.written, ht⟩, h.record, h.frontier, ?_, h.sealed,
    ⟨bs, hf, hl, hb.trans ?_⟩, h.small, hs, h.seen, h.batch⟩
  · intro hso
    rw [hpe] at hso
    cases hso
  · rw [← append_assoc, segmentImage_append _ _ (log.newest ++ log.tail)]
    exact prefix_append _ _

theorem tail_open (h : c.replay.segmentAttempt = none ∨ c.replay.segmentAttempt = some batch) :
    Tail sha gid c batch [] :=
  ⟨.operations _ (fun _ hr => nomatch hr),
    ⟨fun _ hr => (nomatch hr), fun _ hr => (nomatch hr), fun _ hr => (nomatch hr), h⟩, c, rfl⟩

theorem tail_nil (h : c.replay.segmentAttempt = none) : Tail sha gid c batch [] :=
  tail_open (.inl h)

def synced (log : Log) : Log := ⟨log.sealed, log.newest ++ log.tail, []⟩

theorem Readable.synced (h : Readable sha gid log c batch)
    (he : c.run sha gid full (log.tail.map .record) = some e)
    (ha : e.replay.segmentAttempt = none ∨ e.replay.segmentAttempt = some last) :
    Readable sha gid (synced log) e last := by
  refine ⟨?_, ?_, tail_open ha⟩
  · have hru := run_append.mpr ⟨c, h.run, he⟩
    rw [Log.segments, ← itemsOf_extend] at hru
    exact hru
  intro recs hre r hr
  rcases mem_append.mp hre with hre | hre
  · exact h.written recs (mem_append_left _ hre) r hr
  rw [mem_singleton.mp hre] at hr
  rcases mem_append.mp hr with hr | hr
  · exact h.written log.newest (by simp [Log.segments]) r hr
  · exact h.tail.attempt.written r hr

theorem SealedRecord.synced (h : SealedRecord sha gid log bds)
    (hi : bds.pendingSegment.isSome = true → log.tail = []) :
    SealedRecord sha gid (synced log) bds := by
  intro s hs
  obtain ⟨a, recs, d, hc, hd, hr⟩ := h s hs
  refine ⟨a, recs, d, ?_, hd, hr⟩
  rw [← hc]
  by_cases hp : bds.pendingSegment.isSome = true
  · simp [hp, SegmentStored.synced, Log.segments, hi hp]
  · simp only [hp, Bool.false_eq_true, if_false]
    rfl

theorem Stored.sync (h : Stored sha gid d log c batch)
    (he : c.run sha gid full (log.tail.map .record) = some e)
    (ha : e.replay.segmentAttempt = none ∨ e.replay.segmentAttempt = some last)
    (hla : last < maxU64) : Stored sha gid (d.put log.last
      (SegFile.sync ⟨segmentImage gid log.last (log.newest ++ log.tail), kept⟩)) (synced log) e
      last := by
  have hs : SegFile.sync ⟨segmentImage gid log.last (log.newest ++ log.tail), kept⟩ =
      ⟨segmentImage gid log.last (log.newest ++ log.tail),
        segmentHeaderBytes + recsLen (synced log).newest⟩ := by
    simp [SegFile.sync, synced]
  have hex : Extended d log.last (segmentHeaderBytes + recsLen (synced log).newest)
      (segmentImage gid log.last (log.newest ++ log.tail))
      (segmentImage gid log.last (log.newest ++ log.tail))
      (d.put log.last (SegFile.sync
        ⟨segmentImage gid log.last (log.newest ++ log.tail), kept⟩)) := by
    rw [hs]
    exact put_extended prefix_rfl prefix_rfl
  refine ⟨Readable.synced h.readable he ha, SealedRecord.synced h.record h.intent,
    h.frontier.extended le_rfl hex, fun _ => rfl, ?_, ?_, h.small, ?_, ?_, hla⟩
  · intro i recs hi
    have := sealed_index log hi
    rw [hex.others _ (by omega)]
    exact h.sealed i recs hi
  · obtain ⟨bs, hb, hl, hh⟩ := hex.file
    refine ⟨bs, hb, hl, ?_⟩
    rw [synced, append_nil]
    exact hh
  · have := h.short
    simp only [synced, recsLen_append, recsLen_nil]
    omega
  have hse := tail_seen h.readable.tail.attempt.same he
  have := h.seen
  have := h.batch
  omega

/-! ## The next segment -/

/-- A disk with no issued bytes that are not synchronized: its newest segment `n` ends at
`endAt`, and the read of it in `r`. -/
structure Quiet (sha : Sha256) (gid n endAt : ℕ) (r : Replay) (d : Disk) : Prop where
  frontier : Frontier gid n d
  holds : (n = 0 ∧ r = genesis.replay ∧ d.root.sealed = none) ∨
    ∃ log c batch, log.last = n ∧ log.tail = [] ∧ c.replay = r ∧ c.offset = endAt ∧
      Stored sha gid d log c batch

theorem Stored.quiet (h : Stored sha gid d log c batch) (ht : log.tail = []) :
    Quiet sha gid log.last c.offset c.replay d :=
  ⟨h.frontier, .inr ⟨log, c, batch, rfl, ht, rfl, rfl, h⟩⟩

theorem Bare.quiet (h : Bare gid d) : Quiet sha gid 0 endAt genesis.replay d :=
  ⟨h.frontier, .inl ⟨rfl, rfl, h.sealed⟩⟩

theorem Frontier.put (h : Frontier gid n d) (hn : d.root.nextSegmentId = n + 2)
    (hf : Torn (segmentHeader gid (n + 1)) f.bytes) : Frontier gid n (d.put (n + 1) f) := by
  refine ⟨h.last, h.next, h.ids, ?_, ?_⟩
  · intro f' hf'
    simp only [Disk.put, if_true] at hf'
    cases hf'
    exact ⟨hn, hf⟩
  intro id hi
  have hne : id ≠ n + 1 := by omega
  simp only [Disk.put, hne, if_false]
  exact h.beyond id hi

theorem Quiet.put (h : Quiet sha gid n endAt r d) (hn : d.root.nextSegmentId = n + 2)
    (hf : Torn (segmentHeader gid (n + 1)) f.bytes) :
    Quiet sha gid n endAt r (d.put (n + 1) f) := by
  refine ⟨h.frontier.put hn hf, ?_⟩
  rcases h.holds with hb | ⟨log, c, batch, rfl, ht, hc, ho, hs⟩
  · exact .inl hb
  refine .inr ⟨log, c, batch, rfl, ht, hc, ho, hs.readable, hs.record, h.frontier.put hn hf, hs.intent,
    ?_, ?_, hs.small, hs.short, hs.seen, hs.batch⟩
  · intro i recs hi
    have := sealed_index log hi
    have hne : i + 1 ≠ log.last + 1 := by omega
    simp only [Disk.put, hne, if_false]
    exact hs.sealed i recs hi
  have hne : log.last ≠ log.last + 1 := by omega
  simp only [Disk.put, hne, if_false]
  exact hs.newest

theorem successor_ok (h : s.successor = .ok t) : t = { s with generation := s.generation + 1 } := by
  obtain ⟨-, h⟩ := guard_ok h
  cases h
  rfl

theorem reserve_ok {sealed : Option SealedSegment}
    (h : s.reserveSegment sealed = .ok (next, sid)) :
    s.pendingSegment = none ∧ sid = s.nextSegmentId ∧ s.nextSegmentId + 1 < maxU64 ∧
      sealed.map (·.segmentId) = (if s.lastSegmentId ≠ 0 then some s.lastSegmentId else none) ∧
      next = { s with
        generation := s.generation + 1
        nextSegmentId := s.nextSegmentId + 1
        sealed := sealed } := by
  obtain ⟨hp, h⟩ := guard_ok h
  obtain ⟨hn, h⟩ := guard_ok h
  obtain ⟨t, ht, h⟩ := bind_ok h
  obtain ⟨hm, h⟩ := guard_ok h
  rw [successor_ok ht] at h
  cases h
  refine ⟨by simpa using hp, rfl, by omega, ?_, rfl⟩
  simp only [not_or, not_not] at hn
  exact hn.1

theorem confirm_ok (h : s.confirmSegment sid = .ok next) : s.pendingSegment = some sid ∧
      next = { s with generation := s.generation + 1, lastSegmentId := sid } := by
  obtain ⟨hp, h⟩ := guard_ok h
  obtain ⟨t, ht, h⟩ := bind_ok h
  rw [successor_ok ht] at h
  cases h
  exact ⟨by simpa using hp, rfl⟩

def sealing (n endAt batchSeq : ℕ) : Option SealedSegment :=
  if n = 0 then none else some ⟨n, endAt, batchSeq⟩

theorem Quiet.reserve (h : Quiet sha gid n endAt r d)
    (hr : d.root.reserveSegment (sealing n endAt r.batchSeq) = .ok (next, sid)) :
    sid = n + 1 ∧ next.nextSegmentId = n + 2 ∧
      Quiet sha gid n endAt r { d with root := next } := by
  obtain ⟨hp, rfl, hm, -, rfl⟩ := reserve_ok hr
  have hne : d.root.nextSegmentId = n + 1 := by
    rcases h.frontier.next with hn | hn
    · exact hn
    · rw [h.frontier.pending, if_pos hn] at hp
      cases hp
  have hfr : Frontier gid n { d with root := { d.root with
      generation := d.root.generation + 1
      nextSegmentId := d.root.nextSegmentId + 1
      sealed := sealing n endAt r.batchSeq } } := by
    refine ⟨h.frontier.last, .inr (by simp [hne]), hm, ?_, h.frontier.beyond⟩
    intro f hf
    have := (h.frontier.header f hf).1
    omega
  refine ⟨hne, by simp [hne], hfr, ?_⟩
  rcases h.holds with ⟨rfl, hr, -⟩ | ⟨log, c, batch, rfl, ht, hc, ho, hs⟩
  · exact .inl ⟨rfl, hr, rfl⟩
  refine .inr ⟨log, c, batch, rfl, ht, hc, ho, hs.readable, ?_, hfr, fun _ => ht, hs.sealed,
    hs.newest, hs.small, hs.short, hs.seen, hs.batch⟩
  intro s hsom
  -- The intent is outstanding now, so the record is of the newest segment.
  have hl : log.last ≠ 0 := Nat.succ_ne_zero _
  have hs' : s = ⟨log.last, endAt, r.batchSeq⟩ := by
    cases hsom
    rfl
  have hso := hfr.pending
  simp only [hne, if_true] at hso
  refine ⟨log.sealed, log.newest, c, ?_, hs.readable.run, ?_⟩
  · simp [logBounds, hne, hso, Log.segments]
  · rw [hs', ← ho, ← hc, hs.position.2]
    rfl

theorem Stored.whole (h : Stored sha gid d log c batch) (ht : log.tail = [])
    (hi : log.segments[i]? = some recs) :
    d.files (i + 1) = some ⟨segmentImage gid (i + 1) recs, segmentHeaderBytes + recsLen recs⟩ := by
  by_cases hlt : i < log.sealed.length
  · rw [Log.segments, getElem?_append_left hlt] at hi
    exact h.sealed i recs hi
  have hle := (List.getElem?_eq_some_iff.mp hi).1
  have hii : i = log.sealed.length := by
    simp only [Log.segments, length_append, length_singleton] at hle
    omega
  subst hii
  simp only [Log.segments, getElem?_concat_length, Option.some.injEq] at hi
  subst hi
  obtain ⟨bs, hb, hl, hh⟩ := h.newest
  rw [ht, append_nil] at hh
  rw [← hl.eq_of_length_le hh.length_le] at hb
  exact hb

theorem Stored.newest_whole (h : Stored sha gid d log c batch) (ht : log.tail = []) :
    d.files log.last = some ⟨segmentImage gid log.last log.newest,
      segmentHeaderBytes + recsLen log.newest⟩ :=
  h.whole ht (by simp [Log.segments])

theorem Readable.roll (h : Readable sha gid log c batch) :
    Readable sha gid ⟨log.segments, [], []⟩ c.next b := by
  have hn : log.segments ≠ [] := by simp [Log.segments]
  refine ⟨?_, ?_, tail_nil rfl⟩
  · have hro : (⟨log.segments, [], []⟩ : Log).segments = log.segments ++ [[]] := rfl
    rw [hro, itemsOf_roll hn]
    exact run_append.mpr ⟨c, h.run, rfl⟩
  intro recs hre r hr
  rcases mem_append.mp hre with hre | hre
  · exact h.written recs hre r hr
  · rw [mem_singleton.mp hre] at hr
    cases hr

theorem Frontier.confirm (h : Frontier gid n d) (hc : d.root.confirmSegment (n + 1) = .ok next) :
    next.pendingSegment = none ∧ Frontier gid (n + 1) { d with root := next } := by
  obtain ⟨hp, rfl⟩ := confirm_ok hc
  obtain ⟨-, hn⟩ := h.pending_eq hp
  have hfr : Frontier gid (n + 1) { d with root := { d.root with
      generation := d.root.generation + 1
      lastSegmentId := n + 1 } } := by
    refine ⟨rfl, .inl hn, h.ids, ?_, ?_⟩
    · intro f hf
      have hno : d.files (n + 1 + 1) = none := h.beyond _ (by omega)
      rw [hno] at hf
      cases hf
    · intro id hi
      exact h.beyond id (by omega)
  refine ⟨?_, hfr⟩
  have hpe := hfr.pending
  simpa [hn] using hpe

theorem Quiet.confirm (h : Quiet sha gid n endAt r d)
    (hf : d.files (n + 1) = some ⟨segmentHeader gid (n + 1), segmentHeaderBytes⟩)
    (hc : d.root.confirmSegment (n + 1) = .ok next) (hb : batch < maxU64) :
    ∃ log, log.last = n + 1 ∧ log.newest = [] ∧ log.tail = [] ∧
      next.pendingSegment = none ∧
      Stored sha gid { d with root := next } log
        ⟨n + 1, segmentHeaderBytes, segmentHeaderBytes, { r with segmentAttempt := none }⟩
        batch := by
  obtain ⟨hpe, hfr⟩ := h.frontier.confirm hc
  obtain ⟨hp, rfl⟩ := confirm_ok hc
  have hfi : ∃ bs, d.files (n + 1) = some ⟨bs, segmentHeaderBytes + recsLen []⟩ ∧
      segmentImage gid (n + 1) [] <+: bs ∧ bs <+: segmentImage gid (n + 1) ([] ++ []) := by
    refine ⟨_, hf, ?_, ?_⟩ <;> simp [segmentImage, recsBytes]
  have hsm : segmentHeaderBytes + recsLen [] + recsLen [] ≤ segmentBytes := by decide
  rcases h.holds with ⟨rfl, rfl, hse⟩ | ⟨log, c, b, rfl, ht, rfl, ho, hs⟩
  · refine ⟨⟨[], [], []⟩, rfl, rfl, rfl, hpe, ⟨rfl, by simp [Log.segments], tail_nil rfl⟩, ?_,
      hfr, fun _ => rfl, by simp, hfi, by simp, hsm, by decide, hb⟩
    intro s hso
    simp only [logBounds, hse] at hso
    cases hso
  have hl : (⟨log.segments, [], []⟩ : Log).last = log.last + 1 := by
    simp [Log.last, Log.segments]
  have hn : c.next = ⟨log.last + 1, segmentHeaderBytes, segmentHeaderBytes,
      { c.replay with segmentAttempt := none }⟩ := by
    rw [Cursor.next, hs.position.1]
  refine ⟨⟨log.segments, [], []⟩, hl, rfl, rfl, hpe, hn ▸ Readable.roll hs.readable, ?_, hl ▸ hfr,
    fun _ => rfl, fun i recs => hs.whole ht, hl ▸ hfi, ?_, hsm, hs.seen, hb⟩
  · intro s hso
    obtain ⟨a, recs, cur, hcu, hcur, hre⟩ := hs.record s hso
    refine ⟨a, recs, cur, ?_, hcur, hre⟩
    rw [← hcu]
    simp [logBounds, hpe, hp]
  intro recs hr
  rcases mem_append.mp hr with hr | hr
  · exact hs.small recs hr
  · rw [mem_singleton.mp hr]
    exact (Nat.le_add_right _ _).trans hs.short

end SegmentStored
