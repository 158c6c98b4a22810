import Kasumi.SegmentTrace

/-! Replay of a whole image: sealed segments read back record by record, and the newest one up
to what an interrupted append left of its tail. -/
namespace SegmentRecover

open ByteFields SegmentRecords SegmentReplay SegmentLayout SegmentTorn SegmentTrace List
open DirectoryPages (CoreError maxU64 segmentBytes segmentHeaderBytes recordHeaderBytes)
open RootFormat (ReplayStart)

variable {sha : Sha256} {gid : ℕ} {a : List (List Rec)}

def full : ReplayPolicy := ⟨maxBatchOperations, true, none⟩

theorem readSegmentHeader_image {sid : ℕ}
    (hf : file = segmentHeader gid sid ++ rest) (hs : Fits 8 sid)
    (hl : file.length ≤ segmentBytes) : readSegmentHeader file gid sid = .ok .valid := by
  have ht : file.take segmentHeaderBytes = segmentHeader gid sid := by
    rw [hf]
    exact take_left' (length_segmentHeader _ _)
  simp only [readSegmentHeader, Nat.not_lt.mpr hl, if_false, ht]
  exact decodeSegmentHeader_header hs

section Segments

variable {d e : Cursor} {recs : List Rec}

/-- What replay needs of a segment before it scans it, `c` being the cursor at its start. -/
structure Entered (gid : ℕ) (image : LogImage) (start : ReplayStart) (acc : Replay × ReplayEnd)
    (c : Cursor) (file : List Byte) : Prop where
  present : image c.segmentId = some file
  valid : readSegmentHeader file gid c.segmentId = .ok .valid
  offset : replayOffset start c.segmentId = c.offset
  inside : c.offset ≤ file.length
  resume : c.resume = c.offset
  replay : { acc.1 with segmentAttempt := none } = c.replay

theorem replaySegment_eq (h : Entered gid img start acc c file)
    (hx : Replay.scanRecords sha gid full file c.segmentId file.length c.replay c.offset c.resume =
      .ok x) (hd : settleDamage sha gid full x.1 file c.segmentId
      (!(decide (c.segmentId = bds.lastSegmentId)) || bds.pendingSegment.isSome) x.2.2 =
        .ok ()) (hse : ∀ s, bds.sealed = some s → s.segmentId = c.segmentId →
      s = ⟨c.segmentId, file.length, x.1.batchSeq⟩) :
    replaySegment sha gid full img start bds acc c.segmentId =
      .ok (if c.segmentId = bds.lastSegmentId then
        (x.1, ({ acc.2 with tornAt := x.2.2.or acc.2.tornAt }).close file c.segmentId
          (if bds.pendingSegment.isSome then file.length else x.2.1))
      else (x.1, { acc.2 with tornAt := x.2.2.or acc.2.tornAt })) := by
  have hp : full.prepared = none := rfl
  have ho : ¬ c.offset > file.length := Nat.not_lt.mpr h.inside
  have hr : ¬ (bds.sealed.any (·.segmentId = c.segmentId) = true ∧
      bds.sealed ≠ some ⟨c.segmentId, file.length, x.1.batchSeq⟩) := by
    rintro ⟨ha, hne⟩
    cases hs : bds.sealed with
    | none => rw [hs] at ha; cases ha
    | some s =>
      rw [hs, Option.any_some, decide_eq_true_eq] at ha
      exact hne (by rw [hs, hse s hs ha])
  rw [h.resume] at hx
  simp only [replaySegment, h.present, h.valid, h.offset, hp, Option.any_none, Bool.false_eq_true,
    and_false, if_false, ne_eq, not_true_eq_false, ho, bind, Except.bind, h.replay, hx, hd, hr]
  by_cases hn : c.segmentId = bds.lastSegmentId
  · simp only [hn, if_true, decide_true, Bool.not_true, Bool.false_or]
    rfl
  · simp only [hn, if_false, decide_false, Bool.false_eq_true]
    rfl

/-- A segment that is not the newest holds its records and nothing else. -/
theorem replaySegment_sealed (h : Entered gid img start acc c file)
    (hn : c.segmentId ≠ bds.lastSegmentId)
    (hf : file = pre ++ recsBytes gid c.segmentId c.offset recs) (hp : pre.length = c.offset)
    (hw : ∀ r ∈ recs, r.head.Written) (hr : c.run sha gid full (recs.map .record) = some d)
    (hs : ∀ s, bds.sealed = some s → s.segmentId = c.segmentId →
      s = ⟨c.segmentId, file.length, d.replay.batchSeq⟩) :
    replaySegment sha gid full img start bds acc c.segmentId = .ok (d.replay, acc.2) := by
  obtain ⟨hds, hdo⟩ := run_position hr
  have hf' : file = pre ++ recsBytes gid c.segmentId c.offset recs ++ [] := by simp [hf]
  obtain ⟨fuel, -, hsc⟩ := scanRecords_intact hr hw hf' hp (Nat.le_add_left file.length c.offset)
  have he : file.length ≤ d.offset := by simp [hf, hp, hdo]
  have hd : Replay.scanRecords sha gid full file d.segmentId fuel d.replay d.offset d.resume =
      .ok (d.replay, d.resume, none) := by
    cases fuel with
    | zero => rfl
    | succ fuel => simp only [Replay.scanRecords, he, if_true]; rfl
  rw [hd] at hsc
  rw [replaySegment_eq h hsc rfl hs, if_neg hn]
  rfl

/-- What replay has at the end of the newest segment: the cursor `d` after the records read,
unless the header of a record cut short was counted. -/
structure Agrees (d : Replay) (batch : ℕ) (r : Replay) : Prop where
  batchSeq : r.batchSeq = d.batchSeq
  chain : r.chain = d.chain
  directoryRoot : r.directoryRoot = d.directoryRoot
  directoryEnd : r.directoryEnd = d.directoryEnd
  visited : r.visited = d.visited
  seen : d.maxSeen ≤ r.maxSeen
  bound : r.maxSeen ≤ max d.maxSeen batch

theorem Damaged.agrees {d : Replay} (h : Damaged d q r) : Agrees d q.batchSeq r := by
  refine ⟨h.batchSeq, h.chain, h.directoryRoot, h.directoryEnd, h.visited, ?_, ?_⟩
  · rcases h.seen with hs | hs <;> rw [hs]
    exact le_max_left _ _
  · rcases h.seen with hs | hs <;> rw [hs]
    exact le_max_left _ _

theorem Agrees.refl (d : Replay) (batch : ℕ) : Agrees d batch d :=
  ⟨rfl, rfl, rfl, rfl, rfl, le_rfl, le_max_left _ _⟩

/-- Records issued after the cursor `d` and not yet synchronized, all of which replay would
read if they were left whole. -/
structure Tail (sha : Sha256) (gid : ℕ) (d : Cursor) (batch : ℕ) (recs : List Rec) : Prop where
  shape : Shape sha gid d recs
  attempt : Attempt d batch recs
  reads : ∃ last, d.run sha gid full (recs.map .record) = some last

theorem Genuine.drop {a : List Rec} (h : Genuine gid
    sid off (a ++ b) file) : Genuine gid sid (off + recsLen a) b file := by
  induction a generalizing off with
  | nil => exact h
  | cons r a ih =>
    have := ih h.tail
    rwa [recsLen_cons, ← Nat.add_assoc]

theorem operation_step (hk : r.kind.isOperation = true)
    (h : d.step sha gid full (.record r) = some e) :
    e.replay.batchSeq = d.replay.batchSeq ∧ e.replay.segmentAttempt = some r.batchSeq := by
  cases step_effect h with
  | pend => exact ⟨rfl, rfl⟩
  | commit _ _ _ hc => exact absurd hc (RecordKind.of_operation hk).1

theorem Tail.rest {a : List Rec} (h : Tail sha gid d batch (a ++ b)) (hb : b ≠ [])
    (hr : d.run sha gid full (a.map .record) = some e) : Shape sha gid e b ∧ Attempt e batch b := by
  induction a generalizing d with
  | nil => cases hr; exact ⟨h.shape, h.attempt⟩
  | cons r a ih =>
    obtain ⟨d', hd, hre⟩ := run_cons.mp hr
    have ho : ∀ q ∈ r :: a ++ b, q.kind.isOperation = true := by
      intro q hq
      by_contra hn
      have hk : q.kind = .directory ∨ q.kind = .commit := by
        revert hn
        cases q.kind <;> simp [RecordKind.isOperation]
      have hon := congrArg List.length (h.shape.publication hq hk)
      have hp := length_pos_of_ne_nil hb
      simp only [cons_append, length_cons, length_append, length_nil] at hon
      omega
    obtain ⟨hba, ha⟩ := operation_step (ho r (by simp)) hd
    have hm : ∀ q ∈ a ++ b, q ∈ r :: a ++ b := fun q hq => mem_cons_of_mem _ hq
    refine ih ⟨.operations _ fun q hq => ho q (hm q hq), ?_, ?_⟩ hre
    · refine ⟨fun q hq => h.attempt.written q (hm q hq), fun q hq => ?_,
        fun q hq => h.attempt.same q (hm q hq), .inr ?_⟩
      · rw [hba]; exact h.attempt.base q (hm q hq)
      · rw [ha, h.attempt.same r (by simp)]
    obtain ⟨last, hl⟩ := h.reads
    obtain ⟨d'', hd', hl⟩ := run_cons.mp hl
    rw [hd] at hd'
    cases hd'
    exact ⟨last, hl⟩

/-- The newest segment, with a tail of issued records of which `left` was left. -/
theorem replaySegment_newest {tail : List Rec}
    (h : Entered gid img start acc c file) (hn : c.segmentId = bds.lastSegmentId)
    (hf : file = pre ++ recsBytes gid c.segmentId c.offset recs ++ left)
    (hp : pre.length = c.offset) (hw : ∀ r ∈ recs, r.head.Written)
    (hr : c.run sha gid full (recs.map .record) = some d) (hta : Tail sha gid d batch tail)
    (hg : Genuine gid d.segmentId d.offset tail file)
    (ht : Torn (recsBytes gid d.segmentId d.offset tail) left)
    (hi : written <+: pre ++ recsBytes gid c.segmentId c.offset recs ++
      recsBytes gid d.segmentId d.offset tail) (hsho : file.length ≤ written.length)
    (hpe : bds.pendingSegment.isSome = true → tail = [])
    (hc : ∀ r resume off, Replay.scanRecords sha gid full file c.segmentId file.length
        c.replay c.offset c.resume = .ok (r, resume, some off) →
      NoCoincidence sha gid r file c.segmentId off (slice off (off + 36) written))
    (hse : ∀ s, bds.sealed = some s → s.segmentId = c.segmentId →
      tail = [] ∧ s = ⟨c.segmentId, file.length, d.replay.batchSeq⟩) :
    ∃ (a b : List Rec) (e : Cursor) (r : Replay) (tornAt : Option ℕ), tail = a ++ b ∧ d.run sha gid full (a.map .record) = some e ∧
      recsBytes gid d.segmentId d.offset a <+: left ∧ Agrees e.replay batch r ∧
      (∀ q more, b = q :: more → ¬ q.bytes gid e.segmentId e.offset <+: file.drop e.offset) ∧
      replaySegment sha gid full img start bds acc c.segmentId =
        .ok (r, ({ acc.2 with tornAt := tornAt.or acc.2.tornAt }).close file c.segmentId
          (if bds.pendingSegment.isSome then file.length else e.resume)) := by
  obtain ⟨hds, hdo⟩ := run_position hr
  obtain ⟨last, hla⟩ := hta.reads
  obtain ⟨fuel, hfu, hsc⟩ :=
    scanRecords_intact hr hw hf hp (Nat.le_add_left file.length c.offset)
  have hpr : (pre ++ recsBytes gid c.segmentId c.offset recs).length = d.offset := by
    simp [hp, hdo]
  have hlef : left.length ≤ recsLen tail := by simpa using ht.short
  obtain ⟨a, b, e, x, rfl, hae, hpa, hx, hen⟩ :=
    scan_torn hla hta.attempt.written hg hf hpr hlef hfu
  obtain ⟨he, heo⟩ := run_position hae
  rw [hx] at hsc
  refine ⟨a, b, e, x.1, x.2.2, rfl, hae, hpa, ?_⟩
  cases hen with
  | whole hle =>
    refine ⟨Agrees.refl _ _, ?_, ?_⟩
    · rintro q more rfl hq
      have hz := hq.length_le
      simp [hle, Rec.len] at hz
    rw [replaySegment_eq h hsc rfl, if_pos hn]
    intro s hs hid
    obtain ⟨hni, rfl⟩ := hse s hs hid
    obtain ⟨rfl, -⟩ := append_eq_nil_iff.mp hni
    cases hae
    rfl
  | damage q more r hre hle hd hcu =>
    subst hre
    obtain ⟨hsh, ha⟩ := hta.rest (cons_ne_nil q more) hae
    have hb : q.batchSeq = batch := ha.same q mem_cons_self
    have hno : bds.pendingSegment.isSome = false := by
      by_contra hso
      have := hpe (Bool.eq_true_of_not_eq_false hso)
      simp at this
    refine ⟨hb ▸ Damaged.agrees hd, ?_, ?_⟩
    · rintro q' more' heq hq
      cases heq
      exact hcu hq
    -- The damage is what the interrupted append left of its next record.
    have hdr : file.drop d.offset = left := by rw [hf, ← hpr, drop_left]
    have hto : Torn (recsBytes gid e.segmentId e.offset (q :: more)) (file.drop e.offset) := by
      have := ht.drop (recsLen a)
      rw [recsBytes_append, drop_left' (length_recsBytes _ _ _ _), ← hdr, drop_drop] at this
      rwa [he, heo]
    have hh : e.offset + 36 ≤ file.length →
        slice e.offset (e.offset + 36) written =
          recordHeader gid ⟨e.segmentId, e.offset⟩ q.head := by
      intro hl
      have hsp : pre ++ recsBytes gid c.segmentId c.offset recs ++
          recsBytes gid d.segmentId d.offset (a ++ q :: more) =
          (pre ++ recsBytes gid c.segmentId c.offset recs ++ recsBytes gid d.segmentId d.offset a) ++
            recordHeader gid ⟨e.segmentId, e.offset⟩ q.head ++
            (q.body ++ recsBytes gid d.segmentId (e.offset + q.len) more) := by
        rw [recsBytes_append, recsBytes, Rec.bytes, he, heo]
        simp
      rw [prefix_iff_eq_take.mp hi, slice_take (by omega), hsp]
      exact slice_middle (by rw [length_append, hpr, length_recsBytes, heo]) (by simp)
    have ho : r.checkTornTail sha gid file e.segmentId e.offset = .ok () := by
      refine checkTornTail_ok hsh ha ?_ hto hle hd ?_
      · rw [he, heo]
        exact Genuine.drop hg
      intro w hw hl hz heq
      have := hc r e.resume e.offset hsc w (by rw [← hds, ← he]; exact hw) hl hz heq
      rw [← hh hl, this]
    rw [replaySegment_eq h hsc, if_pos hn]
    · simp only [settleDamage, hn, decide_true, Bool.not_true, hno, Bool.or_self]
      rw [← hn, ← hds, ← he]
      exact ho
    intro s hs hid
    obtain ⟨hni, -⟩ := hse s hs hid
    simp at hni

end Segments

/-! ## The log as a list of segments -/

def itemsOf : List (List Rec) → List Item
  | [] => []
  | recs :: rest => recs.map .record ++ rest.flatMap fun recs => .roll :: recs.map .record

theorem itemsOf_append (ha : a ≠ []) (b : List (List Rec)) :
    itemsOf (a ++ b) = itemsOf a ++ b.flatMap fun recs => .roll :: recs.map .record := by
  cases a with
  | nil => exact absurd rfl ha
  | cons recs rest => simp [itemsOf]

theorem itemsOf_extend (a : List (List Rec)) (recs more : List Rec) :
    itemsOf (a ++ [recs ++ more]) = itemsOf (a ++ [recs]) ++ more.map .record := by
  cases a with
  | nil => simp [itemsOf]
  | cons r rest => simp [itemsOf]

theorem itemsOf_roll (ha : a ≠ []) : itemsOf (a ++ [[]]) = itemsOf a ++ [.roll] := by
  rw [itemsOf_append ha]
  rfl

theorem itemsOf_split (hn : segs ≠ []) (h : itemsOf segs = x ++ y) :
    ∃ a r1 r2 b, segs = a ++ [r1 ++ r2] ++ b ∧ x = itemsOf (a ++ [r1]) ∧
      y = r2.map .record ++ b.flatMap fun recs => .roll :: recs.map .record := by
  induction segs generalizing x with
  | nil => exact absurd rfl hn
  | cons recs rest ih =>
    rcases append_eq_append_iff.mp h with ⟨z, hx, hy⟩ | ⟨z, hx, hy⟩
    · cases hz : z with
      | nil =>
        subst hz
        refine ⟨[], recs, [], rest, by simp, by simpa [itemsOf] using hx, by simpa using hy.symm⟩
      | cons item z' =>
        -- The part reaches into the next segment, past the roll before it.
        cases rest with
        | nil => simp [hz] at hy
        | cons next rest =>
          have hy' : item :: z' ++ y = .roll :: itemsOf (next :: rest) := by
            rw [← hz, ← hy]
            simp [itemsOf]
          obtain ⟨rfl, hz'⟩ := List.cons.inj hy'
          obtain ⟨a, r1, r2, b, hs, hx', hy''⟩ := ih (cons_ne_nil _ _) hz'.symm
          refine ⟨recs :: a, r1, r2, b, by simp [hs], ?_, hy''⟩
          rw [hx, hz, hx']
          cases a with
          | nil => simp [itemsOf]
          | cons s a => simp [itemsOf]
    obtain ⟨r1, r2, rfl, h1, h2⟩ := map_eq_append_iff.mp hx
    refine ⟨[], r1, r2, rest, by simp, by simpa [itemsOf] using h1.symm, ?_⟩
    rw [hy, h2]

def genesis : Cursor := Cursor.opened replayGenesis

theorem run_segments {c : Cursor} (h : genesis.run sha gid full (itemsOf (a ++ [recs])) = some c) :
    c.segmentId = a.length + 1 ∧ c.offset = segmentHeaderBytes + recsLen recs := by
  induction a using reverseRecOn generalizing c recs with
  | nil =>
    have h' : genesis.run sha gid full (recs.map .record) = some c := by simpa [itemsOf] using h
    obtain ⟨hs, ho⟩ := run_position h'
    exact ⟨hs, ho⟩
  | append_singleton a prev ih =>
    rw [itemsOf_append (by simp)] at h
    obtain ⟨d, hd, hr⟩ := run_append.mp h
    have hro : d.run sha gid full (.roll :: recs.map .record) = some c := by
      simpa using hr
    obtain ⟨e, he, hr⟩ := run_cons.mp hro
    cases he
    obtain ⟨hs, ho⟩ := run_position hr
    refine ⟨?_, ho⟩
    rw [hs]
    simp [Cursor.next, (ih hd).1]

/-- The records of a log: those of the sealed segments, those of the newest segment that are
synchronized, and those issued after them. -/
structure Log where
  sealed : List (List Rec)
  newest : List Rec
  tail : List Rec

namespace Log

def segments (log : Log) : List (List Rec) := log.sealed ++ [log.newest]

def last (log : Log) : ℕ := log.sealed.length + 1

end Log

/-- The records of a log read back from the start of the log. -/
structure Readable (sha : Sha256) (gid : ℕ) (log : Log) (c : Cursor) (batch : ℕ) : Prop where
  run : genesis.run sha gid full (itemsOf log.segments) = some c
  written : ∀ recs ∈ log.segments, ∀ r ∈ recs, r.head.Written
  tail : Tail sha gid c batch log.tail

def SealedRecord (sha : Sha256) (gid : ℕ) (log : Log) (bounds : LogBounds) : Prop :=
  ∀ s, bounds.sealed = some s → ∃ a recs d,
    (if bounds.pendingSegment.isSome then log.segments else log.sealed) = a ++ [recs] ∧
    genesis.run sha gid full (itemsOf (a ++ [recs])) = some d ∧
    s = ⟨a.length + 1, segmentHeaderBytes + recsLen recs, d.replay.batchSeq⟩

/-- Segment files that hold the log, `left` standing for what is left of its tail. -/
structure Holds (gid : ℕ) (log : Log) (image : LogImage) (left : List Byte) : Prop where
  sealed : ∀ i recs, log.sealed[i]? = some recs →
    image (i + 1) = some (segmentImage gid (i + 1) recs)
  newest : image log.last = some (segmentImage gid log.last log.newest ++ left)
  small : ∀ recs ∈ log.sealed, segmentHeaderBytes + recsLen recs ≤ segmentBytes
  short : segmentHeaderBytes + recsLen log.newest + left.length ≤ segmentBytes
  ids : Fits 8 log.last

section Whole

variable {batch : ℕ}

variable {a b : List (List Rec)} {recs : List Rec} {d e : Cursor}

theorem SealedRecord.inner (h : SealedRecord sha gid log bds) (hs : log.sealed = a ++ [recs] ++ b)
    (hd : genesis.run sha gid full (itemsOf (a ++ [recs])) = some d) {s : RootFormat.SealedSegment}
    (hso : bds.sealed = some s) (hi : s.segmentId = a.length + 1) :
    s = ⟨a.length + 1, segmentHeaderBytes + recsLen recs, d.replay.batchSeq⟩ := by
  obtain ⟨a', recs', d', hc, hd', rfl⟩ := h s hso
  have hl : a'.length = a.length := by
    simp only at hi
    omega
  obtain ⟨t, ht⟩ : ∃ t, (if bds.pendingSegment.isSome then log.segments else log.sealed) =
      a ++ [recs] ++ t := by
    split
    · exact ⟨b ++ [log.newest], by simp [Log.segments, hs]⟩
    · exact ⟨b, hs⟩
  rw [hc, append_assoc] at ht
  obtain ⟨rfl, ho⟩ := append_inj ht hl
  cases ho
  rw [hd] at hd'
  cases hd'
  rfl

theorem run_visited (h : d.run sha gid full items = some e) :
    d.replay.visited <+: e.replay.visited :=
  run_induction (P := fun e => d.replay.visited <+: e.replay.visited)
    (fun _ _ _ hp hs => hp.trans (step_visited hs)) (fun _ hp => hp) prefix_rfl h

/-- Replay of one sealed segment, from the start or from a boundary in it. -/
theorem sealed_segment (hr : Readable sha gid log c batch) (hrec : SealedRecord sha gid log bds)
    (hh : Holds gid log img left) (hl : bds.lastSegmentId = log.last) {acc : Replay × ReplayEnd}
    (hs : log.sealed = a ++ [r1 ++ r2] ++ b)
    (hd : genesis.run sha gid full (itemsOf (a ++ [r1])) = some d)
    (hn : n ≤ d.replay.visited.length) (hre : d.resume = d.offset)
    (ho : replayOffset start d.segmentId = d.offset)
    (ha : { acc.1 with segmentAttempt := none } = since n d.replay) :
    ∃ e, d.run sha gid full (r2.map .record) = some e ∧
      genesis.run sha gid full (itemsOf (a ++ [r1 ++ r2])) = some e ∧
      replaySegment sha gid full img start bds acc (a.length + 1) =
        .ok (since n e.replay, acc.2) := by
  obtain ⟨hds, hdo⟩ := run_segments hd
  have hsegs : log.segments = (a ++ [r1 ++ r2]) ++ (b ++ [log.newest]) := by
    simp [Log.segments, hs]
  have hru := hr.run
  rw [hsegs, itemsOf_append (by simp)] at hru
  obtain ⟨e, hg, -⟩ := run_append.mp hru
  have hge' := hg
  rw [itemsOf_extend] at hge'
  obtain ⟨d', hd', he⟩ := run_append.mp hge'
  rw [hd] at hd'
  cases hd'
  refine ⟨e, he, hg, ?_⟩
  have hget : log.sealed[a.length]? = some (r1 ++ r2) := by rw [hs]; simp
  have hm : r1 ++ r2 ∈ log.sealed := mem_of_getElem? hget
  have hf := hh.sealed a.length (r1 ++ r2) hget
  have hsm := hh.small _ hm
  have hids : Fits 8 (a.length + 1) := by
    have hlt : a.length + 1 < log.last := by simp [Log.last, hs]
    exact hlt.trans hh.ids
  have hv : readSegmentHeader (segmentImage gid (a.length + 1) (r1 ++ r2)) gid
      (a.length + 1) = .ok .valid :=
    readSegmentHeader_image rfl hids (by rw [length_segmentImage]; exact hsm)
  have hw : ∀ r ∈ r2, r.head.Written := fun r hme =>
    hr.written (r1 ++ r2) (mem_append_left _ hm) r (mem_append_right _ hme)
  have hen : Entered gid img start acc (Cursor.since n d)
      (segmentImage gid (a.length + 1) (r1 ++ r2)) := by
    refine ⟨?_, ?_, ho, ?_, hre, ha⟩
    · rw [Cursor.since, hds]; exact hf
    · rw [Cursor.since, hds]; exact hv
    · rw [Cursor.since, hdo, length_segmentImage, recsLen_append]
      omega
  have hne : (Cursor.since n d).segmentId ≠ bds.lastSegmentId := by
    rw [hl, Cursor.since, hds]
    simp [Log.last, hs]
  have hsp : segmentImage gid (a.length + 1) (r1 ++ r2) =
      segmentImage gid (a.length + 1) r1 ++
        recsBytes gid (Cursor.since n d).segmentId (Cursor.since n d).offset r2 := by
    rw [segmentImage_append, Cursor.since, hds, hdo]
  have hse := replaySegment_sealed hen hne hsp (by rw [length_segmentImage, Cursor.since, hdo])
    hw (run_since hn he) (fun s hso hi => by
      rw [Cursor.since, hds] at hi ⊢
      rw [length_segmentImage]
      exact hrec.inner hs hg hso hi)
  rw [Cursor.since, hds] at hse
  exact hse

/-- Replay passes the sealed segments from a boundary in one of them to the newest. -/
theorem fold_sealed (hr : Readable sha gid log c batch) (hrec : SealedRecord sha gid log bds)
    (hh : Holds gid log img left) (hla : bds.lastSegmentId = log.last)
    (hs : log.sealed = a ++ [r1 ++ r2] ++ b)
    (hd : genesis.run sha gid full (itemsOf (a ++ [r1])) = some d)
    (hn : n ≤ d.replay.visited.length) (hre : d.resume = d.offset)
    (ho : replayOffset start d.segmentId = d.offset)
    (hl : ∀ id, d.segmentId < id → replayOffset start id = segmentHeaderBytes)
    (ha : { acc.1 with segmentAttempt := none } = since n d.replay) :
    ∃ e r, genesis.run sha gid full (itemsOf (log.sealed ++ [[]])) = some e ∧
      n ≤ e.replay.visited.length ∧ e.resume = e.offset ∧
      replayOffset start e.segmentId = e.offset ∧
      foldlM (replaySegment sha gid full img start bds) acc
        (List.range' (a.length + 1) (b.length + 1)) = .ok (r, acc.2) ∧
      { r with segmentAttempt := none } = since n e.replay := by
  induction b generalizing a r1 r2 d acc with
  | nil =>
    obtain ⟨e, he, hg, hse⟩ := sealed_segment hr hrec hh hla hs hd hn hre ho ha
    have hro : genesis.run sha gid full (itemsOf (log.sealed ++ [[]])) = some e.next := by
      rw [itemsOf_roll (by simp [hs])]
      rw [hs, append_nil]
      exact run_append.mpr ⟨e, hg, rfl⟩
    obtain ⟨hes, -⟩ := run_position he
    refine ⟨e.next, since n e.replay, hro, ?_, rfl, ?_, ?_, rfl⟩
    · exact hn.trans (run_visited he).length_le
    · exact hl _ (by rw [Cursor.next, hes]; exact Nat.lt_succ_self _)
    · rw [length_nil, Nat.zero_add, range'_one, foldlM_cons, hse]
      rfl
  | cons next b ih =>
    obtain ⟨e, he, hg, hse⟩ := sealed_segment hr hrec hh hla hs hd hn hre ho ha
    obtain ⟨hes, -⟩ := run_position he
    have hro : genesis.run sha gid full (itemsOf ((a ++ [r1 ++ r2]) ++ [[]])) = some e.next := by
      rw [itemsOf_roll (by simp)]
      exact run_append.mpr ⟨e, hg, rfl⟩
    have hs' : log.sealed = (a ++ [r1 ++ r2]) ++ [[] ++ next] ++ b := by simp [hs]
    have hi : e.next.segmentId = d.segmentId + 1 := by rw [Cursor.next, hes]
    have hac : { (since n e.replay, acc.2).1 with segmentAttempt := none } =
        since n e.next.replay := rfl
    obtain ⟨f, r, hf, hnf, hfr, hfo, hfol, hfa⟩ := ih hs' hro
      (hn.trans (run_visited he).length_le) rfl (hl _ (by omega))
      (fun id hlt => hl id (by omega)) hac
    refine ⟨f, r, hf, hnf, hfr, hfo, ?_, hfa⟩
    rw [length_append, length_singleton] at hfol
    rw [length_cons, range'_succ, foldlM_cons, hse]
    exact hfol

def startAfter (visited : List ReplayedBatch) (k : ℕ) : ReplayStart :=
  match (visited.take k).getLast? with
  | none => replayGenesis
  | some b => ⟨b.endAt, b.batchSeq, b.chain⟩

theorem genesis_consistent : Consistent replayGenesis genesis.replay := consistent_init _

theorem boundary_cursor (hr : Readable sha gid log c batch) (hk : k ≤ c.replay.visited.length) :
    ∃ a r1 r2 b d, log.segments = a ++ [r1 ++ r2] ++ b ∧
    genesis.run sha gid full (itemsOf (a ++ [r1])) = some d ∧ d.replay.visited.length = k ∧
    d.resume = d.offset ∧ Cursor.since k d = Cursor.opened (startAfter c.replay.visited k) := by
  have hn : log.segments ≠ [] := by simp [Log.segments]
  cases k with
  | zero =>
    obtain ⟨a, r1, r2, b, hs, hx, -⟩ := itemsOf_split (x := []) hn rfl
    have hru : genesis.run sha gid full (itemsOf (a ++ [r1])) = some genesis := by
      rw [← hx]; rfl
    exact ⟨a, r1, r2, b, genesis, hs, hru, rfl, rfl, rfl⟩
  | succ k =>
    have hlo : genesis.replay.visited.length < k + 1 := Nat.succ_pos k
    obtain ⟨x, y, d, hxy, hd, -, hb, hv⟩ := run_boundary hr.run hlo hk
    obtain ⟨a, r1, r2, b, hs, rfl, -⟩ := itemsOf_split hn hxy
    have hl : d.replay.visited.length = k + 1 := by rw [hv, length_take]; omega
    refine ⟨a, r1, r2, b, d, hs, hd, hl, hb.resume, ?_⟩
    have hc := run_consistent genesis_consistent hd
    rw [← hl, hb.since hc, hl]
    congr 1
    have hne' : d.replay.visited ≠ [] := by
      intro hni
      rw [hni] at hl
      cases hl
    obtain ⟨last, hla⟩ := Option.isSome_iff_exists.mp (getLast?_isSome.mpr hne')
    have hbs := hc.batchSeq
    have hch := hc.chain
    rw [hla] at hbs hch
    rw [startAfter, ← hv, hla, Cursor.start, ← hb.endAt last hla, hbs, hch]
    rfl

def approach (sha : Sha256) (gid : ℕ) (image : LogImage) (start : ReplayStart)
    (bounds : LogBounds) : Except CoreError (Replay × ReplayEnd) :=
  List.foldlM (replaySegment sha gid full image start bounds)
    (Replay.init start, ReplayEnd.opened start bounds)
    (List.range' start.position.segmentId (bounds.lastSegmentId - start.position.segmentId))

/-- Replay comes to the newest segment in the state of the read, from any boundary. -/
theorem reach_newest (hr : Readable sha gid log c batch) (hrec : SealedRecord sha gid log bds)
    (hh : Holds gid log img left) (hla : bds.lastSegmentId = log.last)
    (hk : k ≤ c.replay.visited.length) :
    ∃ r1 r2 e r, log.newest = r1 ++ r2 ∧
      genesis.run sha gid full (itemsOf (log.sealed ++ [r1])) = some e ∧
      k ≤ e.replay.visited.length ∧ e.resume = e.offset ∧
      replayOffset (startAfter c.replay.visited k) e.segmentId = e.offset ∧
      { r with segmentAttempt := none } = since k e.replay ∧
      approach sha gid img (startAfter c.replay.visited k) bds =
        .ok (r, ReplayEnd.opened (startAfter c.replay.visited k) bds) ∧
      replaySegments sha gid full img (startAfter c.replay.visited k) bds =
        replaySegment sha gid full img (startAfter c.replay.visited k) bds
          (r, ReplayEnd.opened (startAfter c.replay.visited k) bds) log.last := by
  obtain ⟨a, r1, r2, b, d, hs, hd, hle, hres, hsi⟩ := boundary_cursor hr hk
  obtain ⟨hds, hdo⟩ := run_segments hd
  generalize startAfter c.replay.visited k = start at *
  have hseg : start.position.segmentId = a.length + 1 := by
    have := congrArg Cursor.segmentId hsi
    rw [← hds]
    exact this.symm
  have ho : start.position.offset = d.offset := (congrArg Cursor.offset hsi).symm
  have hini : since k d.replay = Replay.init start := congrArg Cursor.replay hsi
  have hf : replayOffset start d.segmentId = d.offset := by
    rw [replayOffset, hds, hseg, if_pos rfl, ho]
  have hl : ∀ id, d.segmentId < id → replayOffset start id = segmentHeaderBytes := by
    intro id hi
    rw [replayOffset, if_neg]
    rw [hseg, ← hds]
    exact hi.ne'
  have hz : bds.lastSegmentId ≠ 0 := by rw [hla]; exact Nat.succ_ne_zero _
  have hco : (a ++ [r1 ++ r2] ++ b).length = log.last := by
    rw [← hs]; simp [Log.segments, Log.last]
  have hin : ¬ (start.position.segmentId = 0 ∨ start.position.segmentId > bds.lastSegmentId ∨
      start.position.offset < segmentHeaderBytes) := by
    simp only [length_append, length_singleton] at hco
    omega
  have hac : { (Replay.init start, ReplayEnd.opened start bds).1 with
      segmentAttempt := none } = since k d.replay := by rw [hini]; rfl
  -- The loop is the approach and then the newest segment.
  have hlo {r : Replay} (h : approach sha gid img start bds = .ok (r, ReplayEnd.opened start bds)) :
      replaySegments sha gid full img start bds = replaySegment sha gid full img start bds
        (r, ReplayEnd.opened start bds) log.last := by
    have hc : bds.lastSegmentId + 1 - start.position.segmentId =
        bds.lastSegmentId - start.position.segmentId + 1 := by omega
    have hi : start.position.segmentId + 1 * (bds.lastSegmentId - start.position.segmentId) =
        log.last := by omega
    simp only [replaySegments, hz, if_false, hin]
    rw [hc, range'_concat, foldlM_append, hi]
    rw [approach] at h
    simp only [h, bind, Except.bind, foldlM_cons, foldlM_nil]
    rcases replaySegment sha gid full img start bds
      (r, ReplayEnd.opened start bds) log.last with _ | _ <;> rfl
  rcases eq_nil_or_concat b with rfl | ⟨b, newest, rfl⟩
  · -- The boundary lies in the newest segment.
    rw [append_nil] at hs
    obtain ⟨hse, hn⟩ := append_inj' hs rfl
    have ha : approach sha gid img start bds =
        .ok (Replay.init start, ReplayEnd.opened start bds) := by
      have hno : bds.lastSegmentId - start.position.segmentId = 0 := by
        rw [hla, hseg, ← hse]
        exact Nat.sub_self _
      rw [approach, hno]
      rfl
    rw [← hse] at hd
    exact ⟨r1, r2, d, Replay.init start, singleton_inj.mp hn, hd, hle.ge, hres, hf, hac, ha, hlo ha⟩
  rw [concat_eq_append, ← append_assoc] at hs
  obtain ⟨hse, hn⟩ := append_inj' hs rfl
  obtain ⟨e, r, he, hne, hre, hoe, hfo, hacc'⟩ :=
    fold_sealed hr hrec hh hla hse hd hle.ge hres hf hl hac
  have ha : approach sha gid img start bds = .ok (r, ReplayEnd.opened start bds) := by
    have hm : bds.lastSegmentId - start.position.segmentId = b.length + 1 := by
      rw [hla, hseg]
      simp only [Log.last, hse, length_append, length_singleton]
      omega
    rw [approach, hm, hseg]
    exact hfo
  exact ⟨[], log.newest, e, r, rfl, he, hne, hre, hoe, hacc', ha, hlo ha⟩

theorem tail_seen (hs : ∀ r ∈ recs, r.batchSeq = batch)
    (h : d.run sha gid full (recs.map .record) = some e) :
    e.replay.maxSeen ≤ max d.replay.maxSeen batch := by
  induction recs generalizing d with
  | nil => cases h; exact le_max_left _ _
  | cons r recs ih =>
    obtain ⟨d', hd, hr⟩ := run_cons.mp h
    have hl := ih (fun q hq => hs q (mem_cons_of_mem _ hq)) hr
    have hst : d'.replay.maxSeen ≤ max d.replay.maxSeen batch := by
      cases step_effect hd with
      | pend => rw [← hs r mem_cons_self]
      | commit => exact le_max_left _ _
    omega

/-- What replay reports: the state of the read up to `e`, of which it did not visit the first
`k` batches. -/
structure Recovered (log : Log) (bounds : LogBounds) (k : ℕ) (file : List Byte) (e : Cursor)
    (batch : ℕ) (out : ReplayEnd × List ReplayedBatch) : Prop where
  visited : out.2 = e.replay.visited.drop k
  batchSeq : out.1.batchSeq = e.replay.batchSeq
  chain : out.1.chain = e.replay.chain
  directoryRoot : out.1.directoryRoot = (since k e.replay).directoryRoot
  directoryEnd : out.1.directoryEnd = (since k e.replay).directoryEnd
  resume : out.1.resume =
    some ⟨log.last, if bounds.pendingSegment.isSome then file.length else e.resume⟩
  finalLen : out.1.finalLen = file.length
  pendingSegment : out.1.pendingSegment = bounds.pendingSegment
  tailHead : ∀ at', out.1.resume = some at' → out.1.tailHead =
    slice at'.offset (at'.offset + recordHeaderBytes) file ++
      zeros (recordHeaderBytes - (slice at'.offset (at'.offset + recordHeaderBytes) file).length)
  seen : e.replay.maxSeen < out.1.nextBatchSeq
  bound : out.1.nextBatchSeq ≤ max e.replay.maxSeen batch + 1

/-- The media after an interruption: what is left of the tail is told from everything else by
its checksums, in the image and in the state that meets it. -/
structure Legible (sha : Sha256) (gid : ℕ) (log : Log) (c : Cursor) (bounds : LogBounds)
    (image : LogImage) (start : ReplayStart) (left written : List Byte) : Prop where
  torn : Torn (recsBytes gid c.segmentId c.offset log.tail) left
  genuine : Genuine gid c.segmentId c.offset log.tail
    (segmentImage gid log.last log.newest ++ left)
  issued : written <+: segmentImage gid log.last (log.newest ++ log.tail)
  short : (segmentImage gid log.last log.newest ++ left).length ≤ written.length
  commit : ∀ acc r resume offset, approach sha gid image start bounds = .ok acc →
    Replay.scanRecords sha gid full (segmentImage gid log.last log.newest ++ left) log.last
      (segmentImage gid log.last log.newest ++ left).length
      { acc.1 with segmentAttempt := none } (replayOffset start log.last)
      (replayOffset start log.last) = .ok (r, resume, some offset) →
    NoCoincidence sha gid r (segmentImage gid log.last log.newest ++ left) log.last offset
      (slice offset (offset + 36) written)

theorem Tail.since (h : Tail sha gid d batch recs) (hk : k ≤ d.replay.visited.length) :
    Tail sha gid (Cursor.since k d) batch recs := by
  obtain ⟨last, hl⟩ := h.reads
  refine ⟨?_, ⟨h.attempt.written, h.attempt.base, h.attempt.same, h.attempt.open_⟩,
    ⟨_, run_since hk hl⟩⟩
  cases h.shape with
  | operations _ ho => exact .operations _ ho
  | directory r hr => exact .directory r hr
  | commit r hr hp => exact .commit r hr hp

theorem checkBounds_ok (hpe : ∀ p, bds.pendingSegment = some p →
    p = bds.lastSegmentId + 1 ∧ ∃ present, checkPendingSegment gid img p = .ok present) :
    checkBounds gid full img start bds = .ok () := by
  have hpr : full.prepared = none := rfl
  simp only [checkBounds, hpr, Option.any_none, Bool.false_eq_true, if_false]
  cases hp : bds.pendingSegment with
  | none => rfl
  | some p =>
    obtain ⟨rfl, present, ho⟩ := hpe p hp
    simp only [ne_eq, not_true_eq_false, if_false, ho]
    rfl

/-- Replay of an image of the log, from any of its commit boundaries. -/
theorem replay_image {written : List Byte} (hr : Readable sha gid log c batch)
    (hrec : SealedRecord sha gid log bds) (hh : Holds gid log img left)
    (hl : Legible sha gid log c bds img (startAfter c.replay.visited k) left written)
    (hlast : bds.lastSegmentId = log.last) (hk : k ≤ c.replay.visited.length)
    (hpe : ∀ p, bds.pendingSegment = some p → p = log.last + 1 ∧ log.tail = [] ∧
      ∃ present, checkPendingSegment gid img p = .ok present) (hseq : c.replay.maxSeen < maxU64)
    (hba : batch < maxU64) :
    ∃ a b e out, log.tail = a ++ b ∧ c.run sha gid full (a.map .record) = some e ∧
      recsBytes gid c.segmentId c.offset a <+: left ∧
      (∀ q more, b = q :: more → ¬ q.bytes gid e.segmentId e.offset <+:
        (segmentImage gid log.last log.newest ++ left).drop e.offset) ∧
      replay sha gid true img (startAfter c.replay.visited k) bds = .ok out ∧
      Recovered log bds k (segmentImage gid log.last log.newest ++ left) e batch out := by
  set file := segmentImage gid log.last log.newest ++ left with hfile
  obtain ⟨r1, r2, e0, r0, hn, he0, hn0, hres, ho, hac, hap, hlo⟩ :=
    reach_newest hr hrec hh hlast hk
  generalize startAfter c.replay.visited k = start at *
  obtain ⟨hcs, hco⟩ := run_segments hr.run
  obtain ⟨hes, heo⟩ := run_segments he0
  have hru : e0.run sha gid full (r2.map .record) = some c := by
    have h := hr.run
    rw [Log.segments, hn, itemsOf_extend] at h
    obtain ⟨d, hd, hc⟩ := run_append.mp h
    rw [he0] at hd
    cases hd
    exact hc
  have hlastc : c.segmentId = log.last := hcs
  have hla : e0.segmentId = log.last := hes
  have hw : ∀ r ∈ r2, r.head.Written := fun r hm =>
    hr.written log.newest (by simp [Log.segments]) r (by rw [hn]; exact mem_append_right _ hm)
  have hpa : segmentImage gid log.last log.newest =
      segmentImage gid log.last r1 ++ recsBytes gid (Cursor.since k e0).segmentId
        (Cursor.since k e0).offset r2 := by
    rw [hn, segmentImage_append, Cursor.since, hla, heo]
  have hen : Entered gid img start (r0, ReplayEnd.opened start bds) (Cursor.since k e0) file := by
    have hlen : file.length ≤ segmentBytes := by
      simpa [hfile] using hh.short
    have hv : readSegmentHeader file gid log.last = .ok .valid :=
      readSegmentHeader_image (by rw [hfile, segmentImage, append_assoc]) hh.ids hlen
    refine ⟨?_, ?_, ho, ?_, hres, hac⟩
    · rw [Cursor.since, hla]; exact hh.newest
    · rw [Cursor.since, hla]; exact hv
    · simp only [hfile, Cursor.since, heo, length_append, length_segmentImage, hn, recsLen_append]
      omega
  have hi : written <+: segmentImage gid log.last r1 ++
      recsBytes gid (Cursor.since k e0).segmentId (Cursor.since k e0).offset r2 ++
      recsBytes gid (Cursor.since k c).segmentId (Cursor.since k c).offset log.tail := by
    have hid : (Cursor.since k c).segmentId = log.last := hlastc
    have hal := hl.issued
    rw [segmentImage_append, ← hco] at hal
    rw [← hpa, hid]
    exact hal
  have hcoi : ∀ r resume off, Replay.scanRecords sha gid full file (Cursor.since k e0).segmentId
      file.length (Cursor.since k e0).replay
      (Cursor.since k e0).offset (Cursor.since k e0).resume = .ok (r, resume, some off) →
      NoCoincidence sha gid r file
        (Cursor.since k e0).segmentId off (slice off (off + 36) written) := by
    intro r resume off hsc
    have hid : (Cursor.since k e0).segmentId = log.last := hla
    rw [hid] at hsc ⊢
    refine hl.commit _ r resume off hap ?_
    rw [hac, ← hla, ho, hla]
    rw [← hsc]
    simp only [hfile, Cursor.since, hres]
  have hse : ∀ s, bds.sealed = some s → s.segmentId = (Cursor.since k e0).segmentId →
      log.tail = [] ∧ s = ⟨(Cursor.since k e0).segmentId, file.length,
        (Cursor.since k c).replay.batchSeq⟩ := by
    intro s hs hid
    obtain ⟨a, recs, d, hcl, hd, rfl⟩ := hrec s hs
    have hid' : a.length + 1 = log.last := hid.trans hla
    cases hp : bds.pendingSegment with
    | none =>
      rw [hp] at hcl
      have := congrArg List.length hcl
      simp only [Option.isSome_none, Bool.false_eq_true, if_false, length_append,
        length_singleton, Log.last] at this hid'
      omega
    | some p =>
      rw [hp] at hcl
      obtain ⟨-, hni, -⟩ := hpe p hp
      obtain ⟨rfl, hon⟩ := append_inj' hcl rfl
      obtain rfl := singleton_inj.mp hon
      have hdc : d = c := Option.some.inj (hd.symm.trans hr.run)
      have hle : left = [] := by
        have := hl.torn.short
        rw [hni] at this
        exact eq_nil_of_length_eq_zero (by simpa [recsBytes] using this)
      refine ⟨hni, ?_⟩
      rw [hdc, hfile, hle, append_nil, length_segmentImage, Cursor.since, hla]
      rfl
  obtain ⟨a, b, f, r, tornAt, hab, hf, hpre, ha, hcu, hseg⟩ := replaySegment_newest hen
    (by rw [hlast]; exact hla) (by rw [hfile, hpa]) (by rw [length_segmentImage, Cursor.since, heo])
    hw (run_since hn0 hru) (hr.tail.since hk) hl.genuine hl.torn hi hl.short
    (fun hso => by
      obtain ⟨p, hp⟩ := Option.isSome_iff_exists.mp hso
      exact (hpe p hp).2.1)
    hcoi hse
  obtain ⟨last, hlas⟩ := hr.tail.reads
  rw [hab, map_append] at hlas
  obtain ⟨e, he, -⟩ := run_append.mp hlas
  have hfe : f = Cursor.since k e := Option.some.inj (hf.symm.trans (run_since hk he))
  subst hfe
  have hsee : e.replay.maxSeen ≤ max c.replay.maxSeen batch :=
    tail_seen (fun q hq => hr.tail.attempt.same q (by rw [hab]; exact mem_append_left _ hq)) he
  have hma : r.maxSeen + 1 ≤ maxU64 := by
    have h1 : r.maxSeen ≤ max e.replay.maxSeen batch := ha.bound
    omega
  have hb : checkBounds gid full img start bds = .ok () :=
    checkBounds_ok fun p hp => by
      obtain ⟨h1, -, h2⟩ := hpe p hp
      exact ⟨by rw [h1, hlast], h2⟩
  have hid : (Cursor.since k e0).segmentId = log.last := hla
  rw [hid] at hseg
  have hpo : (⟨maxBatchOperations, true, none⟩ : ReplayPolicy) = full := rfl
  have hre : replay sha gid true img start bds = .ok (ReplayEnd.finish
      (({ ReplayEnd.opened start bds with
        tornAt := tornAt.or (ReplayEnd.opened start bds).tornAt }).close
          file log.last
          (if bds.pendingSegment.isSome then
            file.length else e.resume)) r,
      r.visited) := by
    have hpr : checkPrepared sha full r = .ok () := rfl
    simp only [replay, hpo, replayWithPolicy, hb, hlo, hseg, bind, Except.bind, hpr,
      Nat.not_lt.mpr hma, if_false]
    rfl
  refine ⟨a, b, e, _, hab, he, hpre, hcu, hre, ?_⟩
  exact ⟨ha.visited, ha.batchSeq, ha.chain, ha.directoryRoot,
    ha.directoryEnd, rfl, rfl, rfl, fun at' hat => by cases hat; rfl,
    Nat.lt_succ_of_le ha.seen, Nat.succ_le_succ ha.bound⟩

end Whole

end SegmentRecover
