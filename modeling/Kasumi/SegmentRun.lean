import Kasumi.SegmentReopen

/-! Runs of the segment writer: batches are prepared and finished, the power may fail in any
backend call, and the log is reopened from what the failure left. -/
namespace SegmentRun

open ByteFields MediaFormat SegmentRecords SegmentReplay SegmentLayout SegmentTorn SegmentTrace List
open SegmentRecover SegmentWriter SegmentStored SegmentAppend SegmentPublish
open SegmentSurvive SegmentReopen
open DirectoryPages (DirectoryRoot maxU64 maxValueBytes segmentBytes segmentHeaderBytes
  recordHeaderBytes)
open RootFormat (Digest LogPosition Superblock commitRecordBytes)
open RootPublication (Failure)

variable {sha : Sha256} {gid k : ℕ} {d : Disk} {w : Writer} {hist : List ReplayedBatch}
  {root : DirectoryRoot Digest} {resume : ℕ}

/-! ## Sequences that are still readable -/

/-- The sequences of the whole records of a segment before the first that is not whole; records
behind such a one are not found by a scan. -/
def readableSeqs (gid n : ℕ) (file : List Byte) : (fuel offset : ℕ) → List ℕ
  | 0, _ => []
  | fuel + 1, offset =>
    if file.length - offset < recordHeaderBytes then []
    else match decodeRecordHeader (slice offset (offset + recordHeaderBytes) file) gid ⟨n, offset⟩ with
      | .ok (some head) =>
        let bodyAt := offset + recordHeaderBytes
        if bodyAt + head.bodyLen ≤ file.length ∧
            crc32c (slice bodyAt (bodyAt + head.bodyLen) file) = head.bodyCrc then
          head.batchSeq :: readableSeqs gid n file fuel (bodyAt + head.bodyLen)
        else []
      | _ => []

/-- A record of this sequence is whole, with no damage before it, in one of the first segments. -/
def Shows (gid : ℕ) (image : LogImage) (last batchSeq : ℕ) : Prop :=
  ∃ id file, 0 < id ∧ id ≤ last ∧ image id = some file ∧
    batchSeq ∈ readableSeqs gid id file file.length segmentHeaderBytes

theorem readableSeqs_recs (hf : file = pre ++ recsBytes gid n off recs ++ rest)
    (hp : pre.length = off) (hw : ∀ r ∈ recs, r.head.Written)
    (hs : s ∈ readableSeqs gid n file fuel off) : (∃ r ∈ recs, r.batchSeq = s) ∨ ∃ fuel',
    s ∈ readableSeqs gid n file fuel' (off + recsLen recs) := by
  induction recs generalizing fuel off pre with
  | nil => exact .inr ⟨fuel, hs⟩
  | cons r recs ih =>
    cases fuel with
    | zero => cases hs
    | succ fuel =>
      have hsl : slice off (off + 36) file = recordHeader gid ⟨n, off⟩ r.head := by
        rw [hf, recsBytes, Rec.bytes, append_assoc, append_assoc, append_assoc, ← append_assoc]
        exact slice_middle hp (by simp)
      rw [readableSeqs] at hs
      by_cases hr : file.length - off < recordHeaderBytes
      · simp only [hr, if_true] at hs
        cases hs
      simp only [hr, if_false] at hs
      rw [recordHeaderBytes, hsl, decodeRecordHeader_header gid _ (hw r mem_cons_self)] at hs
      have hn : off + 36 + r.head.bodyLen = off + r.len := by
        simp [Rec.head, Rec.len, Nat.add_assoc]
      simp only [hn] at hs
      split at hs
      · rcases mem_cons.mp hs with rfl | hs
        · exact .inl ⟨r, mem_cons_self, rfl⟩
        have hf' : file = (pre ++ r.bytes gid n off) ++
            recsBytes gid n (off + r.len) recs ++ rest := by
          rw [hf, recsBytes]
          simp only [append_assoc]
        rcases ih hf' (by simp [hp]) (fun q hq => hw q (mem_cons_of_mem _ hq)) hs with
          ⟨q, hq, hse⟩ | ⟨fuel', hm⟩
        · exact .inl ⟨q, mem_cons_of_mem _ hq, hse⟩
        · rw [recsLen_cons, ← Nat.add_assoc]
          exact .inr ⟨fuel', hm⟩
      · cases hs

theorem readableSeqs_end : readableSeqs gid n file fuel file.length = [] := by
  cases fuel with
  | zero => rfl
  | succ fuel => simp [readableSeqs, recordHeaderBytes]

theorem readableSeqs_cut (hg : Genuine gid n off recs file) (hw : ∀ r ∈ recs, r.head.Written)
    (hc : ∀ q more, recs = q :: more → ¬ q.bytes gid n off <+: file.drop off) :
    readableSeqs gid n file fuel off = [] := by
  cases fuel with
  | zero => rfl
  | succ fuel =>
    rw [readableSeqs]
    by_cases hro : file.length - off < recordHeaderBytes
    · simp only [hro, if_true]
    simp only [hro, if_false]
    rw [recordHeaderBytes] at hro ⊢
    by_cases hv : HeaderValid gid ⟨n, off⟩ (slice off (off + 36) file)
    · obtain ⟨r, hr, hs⟩ := hg.header off le_rfl (by omega) hv
      cases recs with
      | nil => cases hr
      | cons q more =>
        obtain rfl : r = q := hr.head
        rw [hs, decodeRecordHeader_header gid _ (hw r mem_cons_self)]
        have hn : off + 36 + r.head.bodyLen = off + r.len := by
          simp [Rec.head, Rec.len, Nat.add_assoc]
        simp only [hn]
        split
        · rename_i hwh
          have hb := hg.body off r (.inl ⟨rfl, rfl⟩) hwh.1 hs hwh.2
          refine absurd ?_ (hc r more rfl)
          have hl : r.len = 36 + r.body.length := rfl
          rw [Rec.bytes, ← hs, ← hb, slice_append _ (by omega) (by omega), slice]
          exact List.take_prefix _ _
        · rfl
    · rw [decodeRecordHeader_invalid hv]

/-! ## What a replay returns -/

/-- The append position of a log that has committed `batches`: behind the last commit of the
newest segment, or behind its header. An outstanding intent keeps all of the newest segment. -/
def appendPosition (image : LogImage) (root : Superblock) (batches : List ReplayedBatch) :
    Option LogPosition :=
  if root.lastSegmentId = 0 then none
  else (image root.lastSegmentId).map fun file => ⟨root.lastSegmentId,
    if root.pendingSegment.isSome then file.length
    else resumeOffset root.lastSegmentId batches⟩

/-- Replay from behind the first `k` of `batches` has found exactly these batches. -/
structure Exact (gid : ℕ) (d : Disk) (image : LogImage) (batches : List ReplayedBatch) (k : ℕ)
    (out : ReplayEnd × List ReplayedBatch) : Prop where
  visited : out.2 = batches.drop k
  batchSeq : out.1.batchSeq = (batches.getLast?.map (·.batchSeq)).getD 0
  chain : out.1.chain = (batches.getLast?.map (·.chain)).getD 0
  directoryRoot : out.1.directoryRoot = (batches.drop k).getLast?.map (·.directoryRoot)
  directoryEnd : out.1.directoryEnd = (batches.drop k).getLast?.map (·.endAt)
  resume : out.1.resume = appendPosition image d.root batches
  next : ∀ s, Shows gid image d.root.lastSegmentId s → s < out.1.nextBatchSeq

theorem getLast?_drop {l : List α} (h : l.drop k ≠ []) : (l.drop k).getLast? = l.getLast? := by
  have hl : k < l.length := Nat.not_le.mp (fun hle => h (drop_eq_nil_of_le hle))
  rw [List.getLast?_drop, if_neg (Nat.not_le.mpr hl)]

theorem record_mem_itemsOf (h : recs ∈ segs) (hr : r ∈ recs) : Item.record r ∈ itemsOf segs := by
  obtain ⟨a, b, rfl⟩ := append_of_mem h
  cases a with
  | nil => simp [itemsOf, hr]
  | cons first a =>
    simp only [cons_append, itemsOf, mem_append, mem_flatMap]
    exact .inr ⟨recs, by simp, mem_cons_of_mem _ (mem_map_of_mem hr)⟩

/-- Every sequence that is readable in what is left belongs to a record that replay has read. -/
theorem Stored.shows {left : List Byte} (h : Stored sha gid d log c batch)
    (hh : Holds gid log img left)
    (hg : Genuine gid c.segmentId c.offset log.tail (segmentImage gid log.last log.newest ++ left))
    (ht : log.tail = a ++ b) (hru : c.run sha gid full (a.map .record) = some e)
    (hle : recsBytes gid c.segmentId c.offset a <+: left)
    (hc : ∀ q more, b = q :: more → ¬ q.bytes gid e.segmentId e.offset <+:
      (segmentImage gid log.last log.newest ++ left).drop e.offset)
    (hs : Shows gid img log.last s) : s ≤ e.replay.maxSeen := by
  obtain ⟨hse, ho⟩ := h.position
  obtain ⟨hes, he⟩ := run_position hru
  have hrea : genesis.run sha gid full (itemsOf (log.sealed ++ [log.newest ++ a])) = some e := by
    rw [itemsOf_extend]
    exact run_append.mpr ⟨c, h.readable.run, hru⟩
  have hsee : ∀ recs ∈ log.sealed ++ [log.newest ++ a], ∀ r ∈ recs,
      r.batchSeq ≤ e.replay.maxSeen := fun recs hre r hr =>
    (run_seen genesis_consistent hrea).2 r (record_mem_itemsOf hre hr)
  obtain ⟨id, file, hp, hi, hfi, hme⟩ := hs
  by_cases hl : id = log.last
  · subst hl
    rw [hh.newest] at hfi
    obtain rfl := Option.some.inj hfi
    obtain ⟨rest, hres⟩ := hle
    rw [hse, ho] at hres
    have hf : segmentImage gid log.last log.newest ++ left = segmentHeader gid log.last ++
        recsBytes gid log.last segmentHeaderBytes (log.newest ++ a) ++ rest := by
      rw [← hres, ← segmentImage.eq_1, segmentImage_append, append_assoc]
    have hw : ∀ r ∈ log.newest ++ a, r.head.Written := by
      intro r hr
      rcases mem_append.mp hr with hr | hr
      · exact h.readable.written log.newest (by simp [Log.segments]) r hr
      · exact h.readable.tail.attempt.written r (ht ▸ mem_append_left _ hr)
    rcases readableSeqs_recs hf (by simp [segmentHeaderBytes]) hw hme with
      ⟨r, hr, rfl⟩ | ⟨fuel, hm⟩
    · exact hsee _ (by simp) r hr
    -- What follows the last record read is not whole.
    have hx : segmentHeaderBytes + recsLen (log.newest ++ a) = e.offset := by
      rw [he, ho, recsLen_append, Nat.add_assoc]
    rw [ht] at hg
    have hg' := Genuine.drop hg
    rw [← he, hse] at hg'
    rw [hes, hse] at hc
    rw [hx, readableSeqs_cut hg' (fun r hr => h.readable.tail.attempt.written r
      (ht ▸ mem_append_right _ hr)) hc] at hm
    cases hm
  have hlt : id - 1 < log.sealed.length := by
    rw [Log.last] at hi hl
    omega
  obtain ⟨i, rfl⟩ := Nat.exists_eq_add_of_lt hp
  simp only [Nat.zero_add, Nat.add_sub_cancel] at hlt hfi hme
  have hge := getElem?_eq_getElem hlt
  rw [hh.sealed i _ hge] at hfi
  obtain rfl := Option.some.inj hfi
  have hre : log.sealed[i] ∈ log.segments :=
    mem_append_left _ (getElem_mem hlt)
  rcases readableSeqs_recs (by rw [append_nil]; rfl)
    (by simp [segmentHeaderBytes]) (h.readable.written _ hre) hme with
    ⟨r, hr, rfl⟩ | ⟨fuel, hm⟩
  · exact hsee _ (mem_append_left _ (getElem_mem hlt)) r hr
  · rw [← length_segmentImage gid (i + 1), readableSeqs_end] at hm
    cases hm

theorem Stored.exact (h : Stored sha gid d log c batch) (hs : Survives d img)
    (hu : Unforged sha gid d img (startAfter c.replay.visited k))
    (hk : k ≤ c.replay.visited.length) :
    ∃ left a b e out, img log.last = some (segmentImage gid log.last log.newest ++ left) ∧
      log.tail = a ++ b ∧ c.run sha gid full (a.map .record) = some e ∧
      recsBytes gid c.segmentId c.offset a <+: left ∧
      (∀ q more, b = q :: more → ¬ q.bytes gid e.segmentId e.offset <+:
        (segmentImage gid log.last log.newest ++ left).drop e.offset) ∧
      replay sha gid true img (startAfter c.replay.visited k) (logBounds d.root) = .ok out ∧
      Exact gid d img e.replay.visited k out := by
  obtain ⟨left, a, b, e, out, hi, ht, hg, hta, hru, hl, hcu, hr, hre⟩ :=
    Stored.replayed h hs hu hk
  have hrea : genesis.run sha gid full (itemsOf (log.sealed ++ [log.newest ++ a])) = some e := by
    rw [itemsOf_extend]
    exact run_append.mpr ⟨c, h.readable.run, hru⟩
  have hc := run_consistent genesis_consistent hrea
  have hla : d.root.lastSegmentId = log.last := h.frontier.last
  have hh := Stored.holds h hs hi (by simpa using ht.short)
  refine ⟨left, a, b, e, out, hi, hta, hru, hl, hcu, hr, hre.visited, ?_, ?_, ?_, ?_, ?_, ?_⟩
  · rw [hre.batchSeq, hc.batchSeq]
    rfl
  · rw [hre.chain, hc.chain]
    rfl
  · rw [hre.directoryRoot, since]
    by_cases hn : e.replay.visited.drop k = []
    · simp [hn]
    · simp only [hn, if_false]
      rw [getLast?_drop hn, hc.directoryRoot]
  · rw [hre.directoryEnd, since]
    by_cases hn : e.replay.visited.drop k = []
    · simp [hn]
    · simp only [hn, if_false]
      rw [getLast?_drop hn, hc.directoryEnd]
  · obtain ⟨r1, r2, m, hm⟩ := resumes hrea
    have hse : e.segmentId = log.last := by
      rw [(run_segments hrea).1]
      simp [Log.last]
    have hp : log.last ≠ 0 := by simp [Log.last]
    rw [hre.resume, appendPosition, hla, if_neg hp, hi, hm.place, hse]
    rfl
  intro s hso
  rw [hla] at hso
  exact (Stored.shows h hh hg hta hru hl hcu hso).trans_lt hre.seen

/-! ## Runs -/

inductive Stage where
  | idle
  | prepared (ops : List Operation) (b : PreparedBatch)
  | unprepared
  | finishing (ops : List Operation) (b : PreparedBatch) (root : DirectoryRoot Digest)

/-- The states of a group that starts empty, and the batches that its log must keep: those
whose `finish_batch` succeeded and those that an earlier reopen has visited. `fault` is any
choice of the backend call in which the power fails. -/
inductive Reach (sha : Sha256) (gid : ℕ) : Disk → Writer → List ReplayedBatch → Stage → Prop where
  | start : Reach sha gid ⟨fun _ => none, Superblock.genesis gid⟩ (Writer.new gid) [] .idle
  | prepare {d w hist ops fault b t} (h : Reach sha gid d w hist .idle)
      (hrun : prepareBatch sha ops ⟨d, w, fault⟩ = (.ok b, t)) :
      Reach sha gid t.disk t.writer hist (.prepared ops b)
  | unprepared {d w hist ops fault e t} (h : Reach sha gid d w hist .idle)
      (hrun : prepareBatch sha ops ⟨d, w, fault⟩ = (.error e, t)) :
      Reach sha gid t.disk t.writer hist .unprepared
  | finish {d w hist ops fault b root committed t} (h : Reach sha gid d w hist (.prepared ops b))
      (hroot : RootTyped root)
      (hrun : finishBatch sha b root ⟨d, w, fault⟩ = (.ok committed, t)) :
      Reach sha gid t.disk t.writer (hist ++ [batchOf ops committed]) .idle
  | unfinished {d w hist ops fault b root e t} (h : Reach sha gid d w hist (.prepared ops b))
      (hroot : RootTyped root)
      (hrun : finishBatch sha b root ⟨d, w, fault⟩ = (.error e, t)) :
      Reach sha gid t.disk t.writer hist (.finishing ops b root)
  | reopen {d w hist stage image k out d'} (h : Reach sha gid d w hist stage)
      (hs : Survives d image) (hu : Unforged sha gid d image (startAfter hist k))
      (hk : k ≤ hist.length)
      (hreplay : replay sha gid true image (startAfter hist k) (logBounds d.root) = .ok out)
      (hdiscard : discardTail out.1 (reopened image d.root) = .ok d') :
      Reach sha gid d' (Writer.resume gid out.1) (hist.take k ++ out.2) .idle

/-- The interrupted batch, if all of its commit record is left. -/
def survivor (sha : Sha256) (w : Writer) (image : LogImage) : Stage → List ReplayedBatch
  | .finishing ops b root =>
    match w.active with
    | none => []
    | some n => match image n with
      | none => []
      | some file =>
        if commitAt sha w b root n <+: file.drop w.endAt then
          [batchOf ops (outcome sha w b root n)]
        else []
  | _ => []

def Keeps (sha : Sha256) (gid : ℕ) (d : Disk) (w : Writer) (hist : List ReplayedBatch) :
    Stage → Prop
  | .idle => ∃ r, Idle sha gid d w r ∧ r.visited = hist
  | .prepared ops b => ∃ r, Prepared sha gid d w r ops b ∧ r.visited = hist
  | .unprepared => Safe sha gid hist d
  | .finishing ops b root => Interrupted sha gid hist ops b root d w

theorem startAfter_prefix (h : a <+: b) (hk : k ≤ a.length) : startAfter b k = startAfter a k := by
  obtain ⟨rest, rfl⟩ := h
  rw [startAfter, startAfter, take_append_of_le_length hk]

theorem Keeps.held (h : Keeps sha gid d w hist st) : (Bare gid d ∧ hist = []) ∨ ∃ log c batch,
    Stored sha gid d log c batch ∧ hist <+: c.replay.visited := by
  have hsa : ∀ visited, Safe sha gid visited d → visited = hist →
      (Bare gid d ∧ hist = []) ∨
        ∃ log c batch, Stored sha gid d log c batch ∧ hist <+: c.replay.visited := by
    rintro visited hsa rfl
    rcases hsa with hb | ⟨log, c, batch, hs, hv, -⟩
    · exact .inl hb
    · exact .inr ⟨log, c, batch, hs, hv ▸ prefix_rfl⟩
  cases st with
  | idle =>
    obtain ⟨r, hi, rfl⟩ := h
    obtain ⟨b, ha, -⟩ := hi.ahead.place
    exact hsa _ (At.safe ha) rfl
  | prepared ops b =>
    obtain ⟨r, hp, rfl⟩ := h
    exact hsa _ (At.safe (Settled.place hp.settled)) rfl
  | unprepared => exact hsa _ h rfl
  | finishing ops b root =>
    rcases h with ⟨hs, -⟩ | ⟨d0, log, c, e, q, hf⟩
    · exact hsa _ hs rfl
    rcases hf.disk with rfl | rfl
    · exact .inr ⟨_, c, _, hf.appends.issued, hf.before ▸ prefix_rfl⟩
    refine .inr ⟨_, e, 0, hf.appends.stored (.inl hf.settled) (by decide), ?_⟩
    rw [hf.after]
    exact prefix_append _ _

theorem Keeps.reopen (h : Keeps sha gid d w hist st) (hs : Survives d img)
    (hu : Unforged sha gid d img (startAfter hist k)) (hk : k ≤ hist.length)
    (hr : replay sha gid true img (startAfter hist k) (logBounds d.root) = .ok out)
    (hd : discardTail out.1 (reopened img d.root) = .ok d') :
    Keeps sha gid d' (Writer.resume gid out.1) (hist.take k ++ out.2) .idle := by
  rcases h.held with ⟨hb, rfl⟩ | ⟨log, c, batch, hst, hp⟩
  · obtain rfl : k = 0 := Nat.le_zero.mp hk
    exact Bare.reopens hb hs hu hr hd
  have hk' := hk.trans hp.length_le
  rw [← startAfter_prefix hp hk] at hu hr
  have ht : c.replay.visited.take k = hist.take k := by
    obtain ⟨rest, hre⟩ := hp
    rw [← hre, take_append_of_le_length hk]
  rw [← ht]
  exact Stored.reopens hst hs hu hk' hr hd

theorem start_keeps (sha : Sha256) (gid : ℕ) :
    Keeps sha gid ⟨fun _ => none, Superblock.genesis gid⟩ (Writer.new gid) [] .idle := by
  have hb : Bare gid ⟨fun _ => none, Superblock.genesis gid⟩ :=
    ⟨⟨rfl, .inl rfl, (by decide : 1 < maxU64), fun _ h => (nomatch h), fun _ _ => rfl⟩, rfl⟩
  refine ⟨genesis.replay, ⟨⟨⟨_, .bare hb ⟨rfl, rfl, rfl, rfl, rfl, rfl, rfl⟩, fun _ _ => rfl⟩,
    ?_⟩, rfl, ?_⟩, rfl⟩
  · exact fresh_progress (fun _ hp => (nomatch hp)) Nat.zero_lt_one
  · exact (by decide : 1 ≤ maxU64)

theorem reach_keeps (h : Reach sha gid d w hist st) : Keeps sha gid d w hist st := by
  induction h with
  | start => exact start_keeps sha gid
  | prepare h hru ih =>
    obtain ⟨r, hid, rfl⟩ := ih
    obtain ⟨r', hu, hp⟩ := (does_prepareBatch hid).ok hru
    exact ⟨r', hp, hu.visited⟩
  | unprepared h hru ih =>
    obtain ⟨r, hid, rfl⟩ := ih
    rcases (does_prepareBatch hid).error hru with ⟨hd, -⟩ | ⟨-, hsa⟩
    · obtain ⟨b, ha, -⟩ := hid.ahead.place
      rw [hd]
      exact At.safe ha
    · exact hsa
  | finish h hro hru ih =>
    obtain ⟨r, hp, rfl⟩ := ih
    obtain ⟨r', hv, hid⟩ := (does_finishBatch hp hro).ok hru
    exact ⟨r', hid, hv⟩
  | unfinished h hro hru ih =>
    obtain ⟨r, hp, rfl⟩ := ih
    rcases (does_finishBatch hp hro).error hru with ⟨hd, hw⟩ | ⟨-, hi⟩
    · rw [hd, hw]
      exact Settled.interrupted hp.settled
    · exact hi
  | reopen h hs hu hk hr hdi ih => exact ih.reopen hs hu hk hr hdi

/-! ## Recovery -/

theorem Safe.exact (h : Safe sha gid hist d) (hs : Survives d img)
    (hu : Unforged sha gid d img (startAfter hist k)) (hk : k ≤ hist.length) :
    ∃ out, replay sha gid true img (startAfter hist k) (logBounds d.root) = .ok out ∧
      Exact gid d img hist k out := by
  rcases h with ⟨hb, rfl⟩ | ⟨log, c, batch, hst, rfl, hk'⟩
  · obtain rfl : k = 0 := Nat.le_zero.mp hk
    have hl : d.root.lastSegmentId = 0 := hb.frontier.last
    refine ⟨_, Bare.replayed hb hs hu, rfl, rfl, rfl, rfl, rfl, ?_, ?_⟩
    · rw [appendPosition, if_pos hl]
      rfl
    · rintro s ⟨id, file, hp, hle, -⟩
      omega
  obtain ⟨left, a, b, e, out, -, ht, hru, -, -, hr, he⟩ :=
    Stored.exact hst hs hu hk
  have hsa := settled_run (fun q hq => hk' q (ht ▸ mem_append_left _ hq)) hru
  exact ⟨out, hr, hsa.visited ▸ he⟩

theorem survivor_eq (hw : w.active = some n) (hf : img n = some file) :
    survivor sha w img (.finishing ops b root) =
      if commitAt sha w b root n <+: file.drop w.endAt then
        [batchOf ops (outcome sha w b root n)] else [] := by
  simp only [survivor, hw, hf]

theorem length_commitAt (sha : Sha256) (w : Writer) (b : PreparedBatch) (root : DirectoryRoot
    Digest) (n : ℕ) : (commitAt sha w b root n).length = commitRecordBytes := by
  rw [commitAt, commitRecord, length_append, length_recordHeader,
    length_commitBytes (length_encodeDirectoryRoot root)]
  rfl

theorem Clear.survivor (h : Clear d w) (hs : Survives d img) :
    survivor sha w img (.finishing ops b root) = [] := by
  obtain ⟨n, f, hw, hf, hlen⟩ := h
  obtain ⟨file, hi, left, rfl, ht⟩ := hs.present n f hf
  rw [survivor_eq hw hi, if_neg]
  intro hp
  have hsh := ht.short
  have hl := hp.length_le
  rw [length_commitAt, length_drop, length_append, length_take] at hl
  rw [length_drop] at hsh
  have hpo : 0 < commitRecordBytes := by decide
  omega

theorem InFlight.exact {d0 : Disk} (h : InFlight sha gid d0 w hist ops b root d log c e q)
    (hs : Survives d img) (hu : Unforged sha gid d img (startAfter hist k)) (hk : k ≤ hist.length) :
    ∃ out, replay sha gid true img (startAfter hist k) (logBounds d.root) = .ok out ∧
    Exact gid d img (hist ++ survivor sha w img (.finishing ops b root)) k out := by
  have ha := h.appends.writing.buffered.active
  have hen := h.appends.endAt
  obtain ⟨hse, hof⟩ := h.appends.writing.stored.position
  have ho : c.offset = w.endAt := by rw [hen, hof, length_segmentImage]
  rcases h.disk with rfl | rfl
  · have hu' := hu
    rw [← h.before] at hu' hk
    obtain ⟨left, a, more, e', out, him, ht, hru, hl, hc, hr, he⟩ :=
      Stored.exact h.appends.issued hs hu' hk
    have hi : img log.last = some (segmentImage gid log.last log.newest ++ left) := him
    rw [h.before] at hr
    refine ⟨out, hr, ?_⟩
    have hd : (segmentImage gid log.last log.newest ++ left).drop w.endAt = left := by
      rw [hen, drop_left]
    rw [survivor_eq ha hi, hd, ← h.bytes]
    cases a with
    | nil =>
      -- The commit is not whole.
      cases hru
      have hno : ¬ q.bytes gid c.segmentId c.offset <+:
          (segmentImage gid log.last log.newest ++ left).drop c.offset := hc q [] ht.symm
      rw [hse, ho, hd] at hno
      rw [if_neg hno, append_nil, ← h.before]
      exact he
    | cons q' a =>
      obtain ⟨rfl, hn⟩ : q = q' ∧ [] = a ++ more := by simpa using ht
      obtain ⟨rfl, rfl⟩ := nil_eq_append_iff.mp hn
      obtain ⟨e'', hste, hn⟩ := run_cons.mp hru
      cases hn
      rw [h.appends.step] at hste
      cases hste
      simp only [recsBytes, append_nil, hse, ho] at hl
      rw [if_pos hl, ← h.after]
      exact he
  have hst := h.appends.stored (.inl h.settled) (b := 0) (by decide)
  have hp : hist <+: e.replay.visited := by
    rw [h.after]
    exact prefix_append _ _
  have hk' := hk.trans hp.length_le
  rw [← startAfter_prefix hp hk] at hu ⊢
  obtain ⟨left, a, more, e', out, him, ht, hru, -, -, hr, he⟩ :=
    Stored.exact hst hs hu hk'
  have hi : img log.last =
      some (segmentImage gid log.last (log.newest ++ [q]) ++ left) := him
  refine ⟨out, hr, ?_⟩
  obtain ⟨rfl, rfl⟩ := nil_eq_append_iff.mp ht
  cases hru
  have hw : commitAt sha w b root log.last <+:
      (segmentImage gid log.last (log.newest ++ [q]) ++ left).drop w.endAt := by
    rw [← h.appends.bytes, ← h.bytes, append_assoc, hen, drop_left]
    exact prefix_append _ _
  rw [survivor_eq ha hi, if_pos hw, ← h.after]
  exact he

section Sample

def sampleSha : Sha256 := fun bytes => ⟨unle bytes % 256 ^ 32, Nat.mod_lt _ (by decide)⟩

def firstOps : List Operation := [.createTable ⟨[97], by decide⟩]

def secondOps : List Operation :=
  [.put ⟨[97], by decide⟩ [1] [2, 3], .put ⟨[97], by decide⟩ [4] [5]]

def rootAt (generation : ℕ) : DirectoryRoot Digest := ⟨0, generation, none, 0, 0⟩

def done {α : Type} : Except Failure α × LogState → Option (α × LogState)
  | (.ok a, t) => some (a, t)
  | _ => none

def failed {α : Type} : Except Failure α × LogState → Option (Failure × LogState)
  | (.error e, t) => some (e, t)
  | _ => none

theorem done_some (h : done x = some (a, t)) : x = (.ok a, t) := by
  unfold done at h
  split at h
  · cases h
    rfl
  · cases h

theorem failed_some (h : failed x = some (e, t)) : x = (.error e, t) := by
  unfold failed at h
  split at h
  · cases h
    rfl
  · cases h

/-- One batch is committed; the power fails in the synchronization of the next commit. -/
def tornRun (sha : Sha256) (first second : List Operation) :
    Option (CommittedBatch × PreparedBatch × LogState) := do
  let (b, s) ← done (prepareBatch sha first
    ⟨⟨fun _ => none, Superblock.genesis 0⟩, Writer.new 0, none⟩)
  let (committed, s) ← done (finishBatch sha b (rootAt 1) s)
  let (b, s) ← done (prepareBatch sha second s)
  let (_, s) ← failed (finishBatch sha b (rootAt 2) ⟨s.disk, s.writer, some (3, false)⟩)
  some (committed, b, s)

theorem rootAt_typed (h : Fits 8 n) : RootTyped (rootAt n) :=
  ⟨fits_zero 16, h, fits_zero 1, fits_zero 8, nofun⟩

theorem tornRun_reach (h : tornRun sha first second = some (committed, b, s)) :
    Reach sha 0 s.disk s.writer [batchOf first committed] (.finishing second b (rootAt 2)) := by
  obtain ⟨⟨b₁, s₁⟩, h₁, h⟩ := Option.bind_eq_some_iff.mp h
  obtain ⟨⟨_, s₂⟩, h₂, h⟩ := Option.bind_eq_some_iff.mp h
  obtain ⟨⟨b₃, s₃⟩, h₃, h⟩ := Option.bind_eq_some_iff.mp h
  obtain ⟨⟨e, s₄⟩, h₄, h⟩ := Option.bind_eq_some_iff.mp h
  cases h
  have hr := Reach.finish (.prepare .start (done_some h₁)) (rootAt_typed (by decide)) (done_some h₂)
  exact .unfinished (hr.prepare (done_some h₃)) (rootAt_typed (by decide)) (failed_some h₄)

def rolledReplay (sha : Sha256) (ops : List Operation) :
    Option (ReplayEnd × List ReplayedBatch) := do
  let (b, s) ← done (prepareBatch sha ops
    ⟨⟨fun _ => none, Superblock.genesis 0⟩, Writer.new 0, none⟩)
  let (committed, s) ← done (finishBatch sha b (rootAt 1) s)
  let f ← s.disk.files 1
  (replay sha 0 true (fun id => if id = 2 then some (segmentHeader 0 2) else s.disk.image id)
    replayGenesis ⟨2, none, some ⟨1, f.bytes.length, committed.batchSeq⟩⟩).toOption

/-- The append position need not be the end of the last batch. -/
example : (rolledReplay sampleSha firstOps).map
    (fun out => (out.1.resume, out.2.map (·.endAt.segmentId))) =
      some (some ⟨2, segmentHeaderBytes⟩, [1]) := by
  decide +kernel

/-- All that no synchronization covers is cut off. -/
def keptImage (d : Disk) : LogImage := fun id => (d.files id).map fun f => f.bytes.take f.kept

theorem survives_kept (d : Disk) : Survives d (keptImage d) := by
  refine ⟨fun id hid => by rw [keptImage, hid]; rfl, fun id f hf => ?_⟩
  refine ⟨f.bytes.take f.kept, by rw [keptImage, hf]; rfl, [], by simp, Nat.zero_le _, ?_⟩
  exact fun i byte hi => nomatch hi

/-- The file without the first record header behind its synchronized bytes. -/
def headless (f : SegFile) : List Byte :=
  f.bytes.take f.kept ++
    (f.bytes.drop f.kept).mapIdx fun i byte => if i < recordHeaderBytes then 0 else byte

def headlessImage (d : Disk) : LogImage := fun id => (d.files id).map headless

theorem survives_headless (d : Disk) : Survives d (headlessImage d) := by
  refine ⟨fun id hid => by rw [headlessImage, hid]; rfl, fun id f hf => ?_⟩
  refine ⟨headless f, by rw [headlessImage, hf]; rfl, _, rfl, by simp, fun i byte hi => ?_⟩
  rw [getElem?_mapIdx] at hi
  obtain ⟨b, hb, rfl⟩ := Option.map_eq_some_iff.mp hi
  split
  · exact .inl rfl
  · exact .inr hb

/-- The scan of the newest segment from genesis does not stop where a commit is due. -/
def noCommitDue (sha : Sha256) (d : Disk) (image : LogImage) (file : List Byte) : Bool :=
  let n := d.root.lastSegmentId
  let offset := replayOffset replayGenesis n
  match approach sha 0 image replayGenesis (logBounds d.root) with
  | .error _ => true
  | .ok acc =>
    match Replay.scanRecords sha 0 full file n file.length { acc.1 with segmentAttempt := none }
        offset offset with
    | .ok (r, _, some torn) => (r.pendingCommit sha 0 ⟨n, torn⟩).isNone
    | _ => true

/-- The valid headers and their bodies are those that were written. -/
def genuineFile (n : ℕ) (f : SegFile) (file : List Byte) : Bool :=
  let starts := recordStarts 0 n f.bytes f.bytes.length segmentHeaderBytes
  decide ((∀ o < file.length, f.kept ≤ o ∧ o + 36 ≤ file.length →
      HeaderValid 0 ⟨n, o⟩ (slice o (o + 36) file) →
      o ∈ starts ∧ slice o (o + 36) file = slice o (o + 36) f.bytes) ∧
    ∀ o ∈ starts, f.kept ≤ o → o + 36 ≤ file.length →
      file.drop (o + 36) = f.bytes.drop (o + 36))

/-- A decidable form of `Unforged` for a log without an outstanding intent, read from genesis. -/
def genuineImage (sha : Sha256) (d : Disk) (image : LogImage) : Bool :=
  let n := d.root.lastSegmentId
  d.root.pendingSegment.isNone && (d.files n).all fun f => (image n).all fun file =>
    genuineFile n f file && noCommitDue sha d image file

theorem genuineImage_unforged (h : genuineImage sha d image = true) :
    Unforged sha 0 d image replayGenesis := by
  obtain ⟨hp, h⟩ := Bool.and_eq_true_iff.mp h
  have hc : ∀ {f file}, d.files d.root.lastSegmentId = some f →
      image d.root.lastSegmentId = some file →
      genuineFile d.root.lastSegmentId f file = true ∧ noCommitDue sha d image file = true := by
    intro f file hf hi
    rw [hf, Option.all_some, hi, Option.all_some] at h
    exact Bool.and_eq_true_iff.mp h
  constructor
  · intro f file o hf hi hk hle hv
    exact (of_decide_eq_true (hc hf hi).1).1 o (by omega) ⟨hk, hle⟩ hv
  · intro f file o head hf hi hk ho _ hle _
    rw [slice, slice, (of_decide_eq_true (hc hf hi).1).2 o ho hk (by omega)]
  · intro p file hpe
    rw [hpe] at hp
    cases hp
  · intro f file acc r resume torn hf hi ha hs w hw
    have h := (hc hf hi).2
    simp only [noCommitDue, ha, hs, hw] at h
    cases h

/-- Only the commit record is not covered by a synchronization. -/
def commitAtRisk (b : PreparedBatch) (s : LogState) : Bool :=
  genuineImage sampleSha s.disk (keptImage s.disk) &&
    (survivor sampleSha s.writer (keptImage s.disk) (.finishing secondOps b (rootAt 2))).isEmpty &&
    (s.disk.files 1).any fun f => f.kept + commitRecordBytes = f.bytes.length

/-- The header of the first record is lost, the second is whole, and its sequence is given again. -/
def headerLost (d : Disk) : Bool :=
  genuineImage sampleSha d (headlessImage d) && (d.files d.root.lastSegmentId).any fun f =>
    1 ∈ readableSeqs 0 d.root.lastSegmentId (headless f) 1 120 ∧
    ∀ out ∈ (replay sampleSha 0 true (headlessImage d) replayGenesis (logBounds d.root)).toOption,
      out.1.nextBatchSeq ≤ 1

end Sample

end SegmentRun
