import Kasumi.FallibleSteps
import Kasumi.SegmentLayout

/-! The torn tail of the newest segment: what replay reads of an append that stopped part way,
and why it accepts every image such an append can leave. -/
namespace SegmentTorn

open ByteFields MediaFormat SegmentRecords SegmentReplay SegmentLayout List
open DirectoryPages (CoreError recordHeaderBytes)
open RootFormat (commitRecordBytes)
open FallibleSteps (bind_ok)

variable {sha : Sha256} {gid off : ℕ} {pol : ReplayPolicy} {c : Cursor} {r : Rec}
  {x : Scanned × Replay} {recs : List Rec} {p : PendingBatch} {left : List Byte}

/-! ## What reading an intact record says -/

theorem guard_ok {c : Prop} [Decidable c] {x : Except ε α}
    (h : (if c then throw e else x) = .ok a) : ¬ c ∧ x = .ok a := by
  by_cases hc : c
  · rw [if_pos hc] at h
    cases h
  · rw [if_neg hc] at h
    exact ⟨hc, h⟩

theorem attempt_ok {r : Replay} (h : r.attempt batchSeq = .ok r1) :
    (r.segmentAttempt = none ∨ r.segmentAttempt = some batchSeq) ∧
      r1 = { r with segmentAttempt := some batchSeq, maxSeen := max r.maxSeen batchSeq } := by
  obtain ⟨hc, hr⟩ := guard_ok h
  constructor
  · cases ha : r.segmentAttempt with
    | none => exact .inl rfl
    | some a =>
      rw [ha] at hc
      simp at hc
      exact .inr (by rw [hc])
  · cases hr
    rfl

/-- The pending batch that another operation record of `batchSeq` joins. -/
inductive Joins (r : Replay) (batchSeq : ℕ) : PendingBatch → Prop where
  | fresh (hp : ∀ p, r.pending = some p → p.batchSeq < batchSeq) (hb : r.batchSeq < batchSeq) :
    Joins r batchSeq ⟨batchSeq, none, [], 0, 0, 0, [], none⟩
  | more (p : PendingBatch) (hp : r.pending = some p) (hb : p.batchSeq = batchSeq) :
    Joins r batchSeq p

theorem pendingFor_ok {r : Replay} (h : r.pendingFor batchSeq = .ok p) : Joins r batchSeq p := by
  cases hp : r.pending with
  | none =>
    simp only [Replay.pendingFor, hp] at h
    obtain ⟨hb, h⟩ := guard_ok h
    cases h
    exact .fresh (fun q hq => by rw [hp] at hq; cases hq) (by omega)
  | some q =>
    simp only [Replay.pendingFor, hp] at h
    by_cases he : q.batchSeq = batchSeq
    · rw [if_pos he] at h
      cases h
      exact .more _ hp he
    rw [if_neg he] at h
    obtain ⟨hl, h⟩ := guard_ok h
    obtain ⟨hb, h⟩ := guard_ok h
    cases h
    refine .fresh (fun q' hq => ?_) (by omega)
    rw [hp] at hq
    cases hq
    omega

theorem expect_ok {r : Replay} {head : RecordHead} (h : r.expect pol head = .ok q) :
    ∃ p, Joins r head.batchSeq p ∧ p.directoryRoot = none ∧ q = { p with
      encodedBytes := p.encodedBytes + (recordHeaderBytes + head.bodyLen)
      kind := some (Replay.batchKind head.kind) } := by
  obtain ⟨p, hp, h⟩ := bind_ok h
  obtain ⟨hd, h⟩ := guard_ok h
  obtain ⟨-, h⟩ := guard_ok h
  obtain ⟨-, h⟩ := guard_ok h
  obtain ⟨-, h⟩ := guard_ok h
  obtain ⟨-, h⟩ := guard_ok h
  obtain ⟨-, h⟩ := guard_ok h
  cases h
  exact ⟨p, pendingFor_ok hp, by simpa using hd, rfl⟩

theorem RecordKind.of_operation {kind : RecordKind} (h : kind.isOperation = true) :
    kind ≠ .commit ∧ kind ≠ .directory := by
  cases kind <;> simp_all [RecordKind.isOperation]

theorem read_operation (hk : r.kind.isOperation = true) (h : c.read sha gid pol r = .ok x) :
    ∃ r1 p record q, c.replay.follows pol r.head = .ok () ∧
      c.replay.attempt r.batchSeq = .ok r1 ∧ r1.expect pol r.head = .ok p ∧
      decodeOperation r.head r.body c.segmentId (c.offset + recordHeaderBytes) = .ok record ∧
      { p with ops := p.ops ++ recordHeader gid ⟨c.segmentId, c.offset⟩ r.head ++ r.body }.push
        pol record = .ok q ∧
      x = (.record, { r1 with pending := some q }) := by
  obtain ⟨hc, hd⟩ := RecordKind.of_operation hk
  have hc' : r.head.kind ≠ .commit := hc
  have hd' : r.head.kind ≠ .directory := hd
  have hcr : ¬ crc32c r.body ≠ r.head.bodyCrc := fun hn => hn rfl
  obtain ⟨⟨⟩, hf, h⟩ := bind_ok h
  simp only [Replay.scan, hc', hd', hcr, if_false] at h
  obtain ⟨r1, ha, h⟩ := bind_ok h
  obtain ⟨p, he, h⟩ := bind_ok h
  obtain ⟨record, hde, h⟩ := bind_ok h
  obtain ⟨q, hp, h⟩ := bind_ok h
  cases h
  exact ⟨r1, p, record, q, hf, ha, he, hde, hp, rfl⟩

theorem read_directory (hk : r.kind = .directory) (h : c.read sha gid pol r = .ok x) :
    ∃ r1 r2, c.replay.follows pol r.head = .ok () ∧ c.replay.attempt r.batchSeq = .ok r1 ∧
      r1.directory gid r.head r.body = .ok r2 ∧ x = (.record, r2) := by
  have hd : r.head.kind = .directory := hk
  have hc : ¬ crc32c r.body ≠ r.head.bodyCrc := fun hn => hn rfl
  obtain ⟨⟨⟩, hf, h⟩ := bind_ok h
  simp only [Replay.scan, hd, hc, if_false, if_true, reduceCtorEq] at h
  obtain ⟨r1, ha, h⟩ := bind_ok h
  obtain ⟨r2, hdi, h⟩ := bind_ok h
  cases h
  exact ⟨r1, r2, hf, ha, hdi, rfl⟩

theorem read_commit (hk : r.kind = .commit) (h : c.read sha gid pol r = .ok x) :
    ∃ body r1, c.replay.follows pol r.head = .ok () ∧ decodeCommitBody r.body = .ok body ∧
      c.replay.commit sha gid r.batchSeq ⟨c.segmentId, c.offset + r.len⟩ body = .ok r1 ∧
      x = (.commit, { r1 with segmentAttempt := none }) := by
  have hd : r.head.kind = .commit := hk
  have hcr : ¬ crc32c r.body ≠ r.head.bodyCrc := fun hn => hn rfl
  have hp : c.offset + recordHeaderBytes + r.head.bodyLen = c.offset + r.len := by
    simp [recordHeaderBytes, Rec.head, Rec.len, Nat.add_assoc]
  obtain ⟨⟨⟩, hf, h⟩ := bind_ok h
  simp only [Replay.scan, hd, hcr, if_false, if_true, hp] at h
  obtain ⟨body, hb, h⟩ := bind_ok h
  obtain ⟨r1, hc, h⟩ := bind_ok h
  cases h
  exact ⟨body, r1, hf, hb, hc, rfl⟩

/-! ## A record cut short -/

/-- `r` is the record that begins at `at'` when `recs` are laid out from `offset`. -/
def StartsAt : (offset : ℕ) → List Rec → (at' : ℕ) → Rec → Prop
  | _, [], _, _ => False
  | offset, q :: recs, at', r => (at' = offset ∧ r = q) ∨ StartsAt (offset + q.len) recs at' r

theorem StartsAt.le (h : StartsAt off recs at' r) : off ≤ at' := by
  induction recs generalizing off with
  | nil => cases h
  | cons q recs ih =>
    rcases h with ⟨rfl, -⟩ | h
    · exact le_rfl
    · exact (Nat.le_add_right _ _).trans (ih h)

theorem StartsAt.mem (h : StartsAt off recs at' r) : r ∈ recs := by
  induction recs generalizing off with
  | nil => cases h
  | cons q recs ih =>
    rcases h with ⟨-, rfl⟩ | h
    · exact mem_cons_self
    · exact mem_cons_of_mem _ (ih h)

theorem StartsAt.head {q : Rec} (h : StartsAt off (q :: recs) off r) : r = q := by
  rcases h with ⟨-, rfl⟩ | h
  · rfl
  have := h.le
  simp only [Rec.len] at this
  omega

/-- Checksums tell the records laid out from `offset` from everything else in the file: a
header that validates is one of theirs, whole, and a body that matches its header is intact. -/
structure Genuine (gid segmentId offset : ℕ) (recs : List Rec) (file : List Byte) : Prop where
  header : ∀ o, offset ≤ o → o + 36 ≤ file.length →
    HeaderValid gid ⟨segmentId, o⟩ (slice o (o + 36) file) →
    ∃ r, StartsAt offset recs o r ∧
      slice o (o + 36) file = recordHeader gid ⟨segmentId, o⟩ r.head
  body : ∀ o r, StartsAt offset recs o r → o + r.len ≤ file.length →
    slice o (o + 36) file = recordHeader gid ⟨segmentId, o⟩ r.head →
    crc32c (slice (o + 36) (o + r.len) file) = crc32c r.body →
    slice (o + 36) (o + r.len) file = r.body

theorem Genuine.tail (h : Genuine gid sid off
    (r :: recs) file) : Genuine gid sid (off + r.len) recs file := by
  have hp : 0 < r.len := by simp [Rec.len]
  constructor
  · intro o ho hl hv
    obtain ⟨q, hq, hh⟩ := h.header o (by omega) hl hv
    rcases hq with ⟨rfl, -⟩ | hq
    · omega
    · exact ⟨q, hq, hh⟩
  · intro o q hq
    exact h.body o q (.inr hq)

/-- The state in which replay meets the damage of the record `q`: its header may have been
counted, nothing has been committed. -/
structure Damaged (d : Replay) (q : Rec) (r : Replay) : Prop where
  batchSeq : r.batchSeq = d.batchSeq
  chain : r.chain = d.chain
  directoryRoot : r.directoryRoot = d.directoryRoot
  directoryEnd : r.directoryEnd = d.directoryEnd
  visited : r.visited = d.visited
  attempt : r.segmentAttempt = d.segmentAttempt ∨ r.segmentAttempt = some q.batchSeq
  seen : r.maxSeen = d.maxSeen ∨ r.maxSeen = max d.maxSeen q.batchSeq
  pending : r.pending = d.pending ∨
    ∃ p, r.pending = some p ∧ p.batchSeq = q.batchSeq ∧ p.directoryRoot = none
  commit : q.kind = .commit → r = d

theorem Damaged.refl (d : Replay) (q : Rec) : Damaged d q d :=
  ⟨rfl, rfl, rfl, rfl, rfl, .inl rfl, .inl rfl, .inl rfl, fun _ => rfl⟩

theorem Joins.batchSeq {r : Replay} {batch : ℕ} (h : Joins r batch p) : p.batchSeq = batch := by
  cases h with
  | fresh => rfl
  | more _ _ hb => exact hb

theorem scan_damage {body : List Byte} (header : List Byte) (h : c.read sha gid pol r = .ok x)
    (hcr : crc32c body ≠ crc32c r.body) :
    ∃ r', c.replay.scan sha gid pol c.segmentId c.offset header r.head body =
      .ok (.damage, r') ∧ Damaged c.replay r r' := by
  have hn : crc32c body ≠ r.head.bodyCrc := hcr
  by_cases hc : r.head.kind = .commit
  · refine ⟨c.replay, ?_, .refl _ _⟩
    simp only [Replay.scan, hc, if_true, hn, ne_eq, not_false_eq_true]
    rfl
  by_cases hd : r.head.kind = .directory
  · obtain ⟨r1, r2, -, ha, -, -⟩ := read_directory hd h
    have hat : c.replay.attempt r.head.batchSeq = .ok r1 := ha
    refine ⟨r1, ?_, ?_⟩
    · simp only [Replay.scan, hd, if_true, hn, ne_eq, not_false_eq_true, hat, bind,
        Except.bind, reduceCtorEq, if_false]
      rfl
    · obtain ⟨-, rfl⟩ := attempt_ok ha
      exact ⟨rfl, rfl, rfl, rfl, rfl, .inr rfl, .inr rfl, .inl rfl, fun hk => absurd hk hc⟩
  have hk : r.kind.isOperation = true := by
    have hc' : r.kind ≠ .commit := hc
    have hd' : r.kind ≠ .directory := hd
    revert hc' hd'
    cases r.kind <;> simp [RecordKind.isOperation]
  obtain ⟨r1, p, -, -, -, ha, he, -, -, -⟩ := read_operation hk h
  have hat : c.replay.attempt r.head.batchSeq = .ok r1 := ha
  refine ⟨{ r1 with pending := some { p with ops := p.ops ++ header ++ body } }, ?_, ?_⟩
  · simp only [Replay.scan, hc, hd, if_true, hn, ne_eq, not_false_eq_true, hat, he,
      bind, Except.bind, if_false]
    rfl
  obtain ⟨-, rfl⟩ := attempt_ok ha
  obtain ⟨q, hq, ho, rfl⟩ := expect_ok he
  exact ⟨rfl, rfl, rfl, rfl, rfl, .inr rfl, .inr rfl, .inr ⟨_, rfl, hq.batchSeq, ho⟩,
    fun hk => absurd hk hc⟩

theorem record_torn (hw : r.head.Written)
    (h : c.read sha gid pol r = .ok x) (hg : Genuine gid c.segmentId c.offset (r :: recs) file)
    (hf : file = pre ++ left) (hp : pre.length = c.offset)
    (hc : ¬ r.bytes gid c.segmentId c.offset <+: left) :
    ∃ r' n, c.replay.record sha gid pol file c.segmentId c.offset = .ok (.damage, r', n) ∧
      Damaged c.replay r r' := by
  by_cases hs : file.length - c.offset < 36
  · refine ⟨c.replay, c.offset, ?_, .refl _ _⟩
    simp only [Replay.record, recordHeaderBytes, hs, if_true]
    rfl
  have hle : c.offset + 36 ≤ file.length := by omega
  by_cases hv : HeaderValid gid ⟨c.segmentId, c.offset⟩ (slice c.offset (c.offset + 36) file)
  · -- A header that validates is the one that was written, so only the body can be cut short.
    obtain ⟨q, hq, hh⟩ := hg.header c.offset le_rfl hle hv
    obtain rfl := hq.head
    have hd := decodeRecordHeader_header gid ⟨c.segmentId, c.offset⟩ hw
    obtain ⟨⟨⟩, hfo, -⟩ := bind_ok h
    by_cases hfi : q.head.bodyLen > file.length - (c.offset + 36)
    · refine ⟨c.replay, c.offset + 36, ?_, .refl _ _⟩
      simp only [Replay.record, recordHeaderBytes, hs, if_false, hh, hd, bind,
        Except.bind, hfo, hfi, if_true]
      rfl
    have he : c.offset + q.len ≤ file.length := by
      simp only [Rec.head] at hfi
      simp only [Rec.len]
      omega
    have hcr : crc32c (slice (c.offset + 36) (c.offset + q.len) file) ≠ crc32c q.body := by
      intro heq
      apply hc
      have hb := hg.body c.offset q (.inl ⟨rfl, rfl⟩) he hh heq
      have hl : slice c.offset (c.offset + q.len) file = left.take q.len := by
        rw [hf, slice, ← hp, drop_left]
        congr 1
        omega
      have hwh : slice c.offset (c.offset + q.len) file =
          q.bytes gid c.segmentId c.offset := by
        rw [Rec.bytes, ← hh, ← hb]
        exact (slice_append file (by omega) (by simp only [Rec.len]; omega)).symm
      rw [← hwh, hl]
      exact List.take_prefix _ _
    have hla : c.offset + 36 + q.head.bodyLen = c.offset + q.len := by
      simp [Rec.head, Rec.len, Nat.add_assoc]
    obtain ⟨r', hsc, hda⟩ := scan_damage
      (recordHeader gid ⟨c.segmentId, c.offset⟩ q.head) h hcr
    refine ⟨r', c.offset + q.len, ?_, hda⟩
    simp only [Replay.record, recordHeaderBytes, hs, if_false, hh, hd, bind,
      Except.bind, hfo, hfi, hla, hsc]
    rfl
  refine ⟨c.replay, c.offset + 36, ?_, .refl _ _⟩
  simp only [Replay.record, recordHeaderBytes, hs, if_false,
    decodeRecordHeader_invalid hv, bind, Except.bind]
  rfl

/-- How the scan of a torn tail ends, after intact records up to `d` and before `rest`. -/
inductive ScanEnd (gid : ℕ) (file : List Byte) (d : Cursor) (rest : List Rec) :
    Replay × ℕ × Option ℕ → Prop where
  | whole (h : file.length = d.offset) : ScanEnd gid file d rest (d.replay, d.resume, none)
  | damage (q : Rec) (more : List Rec) (r : Replay) (hrest : rest = q :: more)
      (hlen : d.offset < file.length) (hd : Damaged d.replay q r)
      (hcut : ¬ q.bytes gid d.segmentId d.offset <+: file.drop d.offset) :
    ScanEnd gid file d rest (r, d.resume, some d.offset)

/-- Replay reads the issued records that were left whole, up to the first that was not. -/
theorem scan_torn
    (h : c.run sha gid pol (recs.map .record) = some last) (hw : ∀ r ∈ recs, r.head.Written)
    (hg : Genuine gid c.segmentId c.offset recs file) (hf : file = pre ++ left)
    (hp : pre.length = c.offset) (ht : left.length ≤ recsLen recs)
    (hfu : file.length ≤ c.offset + fuel) : ∃ a b d x, recs = a ++ b ∧
    c.run sha gid pol (a.map .record) = some d ∧ recsBytes gid c.segmentId c.offset a <+: left ∧
    Replay.scanRecords sha gid pol file c.segmentId fuel c.replay c.offset c.resume = .ok x ∧
    ScanEnd gid file d b x := by
  have hl : file.length = c.offset + left.length := by simp [hf, hp]
  -- Induction on the issued records: each is either whole, or where the scan stops.
  induction recs generalizing c pre left fuel with
  | nil =>
    have hz : file.length ≤ c.offset := by simp only [recsLen_nil] at ht; omega
    refine ⟨[], [], c, (c.replay, c.resume, none), rfl, rfl, List.nil_prefix, ?_, .whole ?_⟩
    · cases fuel with
      | zero => rfl
      | succ fuel => simp only [Replay.scanRecords, hz, if_true]; rfl
    · omega
  | cons r recs ih =>
    obtain ⟨d, hd, hre⟩ := run_cons.mp h
    have hrea : ∃ x, c.read sha gid pol r = .ok x := by
      simp only [Cursor.step] at hd
      split at hd
      · exact ⟨_, ‹_›⟩
      · exact ⟨_, ‹_›⟩
      · cases hd
    obtain ⟨x, hx⟩ := hrea
    by_cases he : left = []
    · subst he
      have hz : file.length ≤ c.offset := by simp only [length_nil] at hl; omega
      refine ⟨[], r :: recs, c, (c.replay, c.resume, none), rfl, rfl, List.nil_prefix, ?_,
        .whole (by simpa using hl)⟩
      cases fuel with
      | zero => rfl
      | succ fuel => simp only [Replay.scanRecords, hz, if_true]; rfl
    have hpo : 0 < left.length := length_pos_of_ne_nil he
    obtain ⟨fuel, rfl⟩ : ∃ n, fuel = n + 1 := ⟨fuel - 1, by omega⟩
    have hm : ¬ file.length ≤ c.offset := by omega
    by_cases hwh : r.bytes gid c.segmentId c.offset <+: left
    · obtain ⟨left', rfl⟩ := hwh
      obtain ⟨hds, hdo⟩ := step_position hd
      have hh : file = pre ++ r.bytes gid c.segmentId c.offset ++ left' := by simp [hf]
      have hr : c.replay.record sha gid pol file c.segmentId c.offset = _ :=
        record_intact (hw r mem_cons_self) hh hp
      have hpo : 0 < r.len := by simp [Rec.len]
      have hg' : Genuine gid d.segmentId d.offset recs file := by
        rw [hds, hdo]; exact hg.tail
      simp only [length_append, Rec.length_bytes, recsLen_cons] at ht hl
      have hlo : file.length ≤ d.offset + fuel := by omega
      obtain ⟨a, b, e, y, ha, hru, hpr, hs, hen⟩ := ih (c := d) hre
        (fun q hq => hw q (mem_cons_of_mem _ hq)) hg' hh (by simp [hp, hdo])
        (by omega) hlo (by omega)
      refine ⟨r :: a, b, e, y, by simp [ha], run_cons.mpr ⟨d, hd, hru⟩, ?_, ?_, hen⟩
      · rw [hds, hdo] at hpr
        exact (prefix_append_right_inj _).mpr hpr
      rw [← hs, hds]
      simp only [Cursor.step] at hd
      simp only [Replay.scanRecords, hm, if_false, hr]
      split at hd
      case h_1 q hq => cases hd; simp only [hq]; rfl
      case h_2 q hq => cases hd; simp only [hq]; rfl
      case h_3 => cases hd
    obtain ⟨r', n, hr, hda⟩ := record_torn (hw r mem_cons_self) hx hg hf hp hwh
    have hdr : file.drop c.offset = left := by rw [hf, ← hp, drop_left]
    refine ⟨[], r :: recs, c, (r', c.resume, some c.offset), rfl, rfl, List.nil_prefix, ?_,
      .damage r recs r' rfl (by omega) hda (by rw [hdr]; exact hwh)⟩
    simp only [Replay.scanRecords, hm, if_false, hr]
    rfl

/-! ## The damage is accepted -/

/-- What the writer issues between two synchronizations of a segment: operation records of one
batch, or the one record that prepares its directory root or commits it. -/
inductive Shape (sha : Sha256) (gid : ℕ) (d : Cursor) : List Rec → Prop where
  | operations (recs : List Rec) (h : ∀ r ∈ recs, r.kind.isOperation = true) : Shape sha gid d recs
  | directory (r : Rec) (hk : r.kind = .directory) : Shape sha gid d [r]
  | commit (r : Rec) (hk : r.kind = .commit)
      (hp : d.replay.pendingCommit sha gid ⟨d.segmentId, d.offset⟩ =
        some (r.bytes gid d.segmentId d.offset)) : Shape sha gid d [r]

/-- Issued records that follow the newest commit and belong to one batch. -/
structure Attempt (d : Cursor) (batch : ℕ) (recs : List Rec) : Prop where
  written : ∀ r ∈ recs, r.head.Written
  base : ∀ r ∈ recs, r.baseSeq = d.replay.batchSeq
  same : ∀ r ∈ recs, r.batchSeq = batch
  open_ : d.replay.segmentAttempt = none ∨ d.replay.segmentAttempt = some batch

theorem Shape.publication {d : Cursor} (h : Shape sha gid d recs) (hr : r ∈ recs)
    (hk : r.kind = .directory ∨ r.kind = .commit) : recs = [r] := by
  cases h with
  | operations _ ho =>
    have := RecordKind.of_operation (ho r hr)
    rcases hk with hk | hk
    · exact absurd hk this.2
    · exact absurd hk this.1
  | directory q _ => rw [mem_singleton.mp hr]
  | commit q _ _ => rw [mem_singleton.mp hr]

section Accept

variable {batch : ℕ} {file : List Byte} {r : Replay}

variable {off sid i : ℕ} {attempt : Option ℕ} {bytes : List Byte} {byte : Byte} {q : Rec}
  {more b : List Rec} {kind : RecordKind}

theorem search_headers (hs : Shape sha gid d recs) (ha : Attempt d batch recs)
    (hg : Genuine gid d.segmentId d.offset recs file) (hr : r.batchSeq = d.replay.batchSeq)
    (count : ℕ) (ho : d.offset ≤ off) (hi : 0 < count → off + count + 35 ≤ file.length)
    (hat : attempt = none ∨ attempt = some batch) :
    ∃ attempt', r.searchHeaders gid file d.segmentId d.offset count off attempt =
      .ok attempt' ∧ (attempt' = none ∨ attempt' = some batch) := by
  induction count generalizing off attempt with
  | zero => exact ⟨attempt, rfl, hat⟩
  | succ count ih =>
    have hbe : 0 < count → off + 1 + count + 35 ≤ file.length := by
      intro _
      have := hi (by omega)
      omega
    have hn {a : Option ℕ} (h : a = none ∨ a = some batch) := ih (Nat.le_succ_of_le ho) hbe h
    have hl : off + 36 ≤ file.length := by have := hi (by omega); omega
    simp only [Replay.searchHeaders, recordHeaderBytes]
    by_cases hm : slice 0 4 (slice off (off + 36) file) = recordMagic
    · simp only [hm, ne_eq, not_true_eq_false, if_false]
      by_cases hv : HeaderValid gid ⟨d.segmentId, off⟩ (slice off (off + 36) file)
      · -- The header is that of an issued record, so it belongs to the attempt.
        obtain ⟨q, hq, hh⟩ := hg.header off ho hl hv
        have hba : q.head.baseSeq = r.batchSeq := (ha.base q hq.mem).trans hr.symm
        have hb : q.head.batchSeq = batch := ha.same q hq.mem
        have hf : attempt.getD q.head.batchSeq = q.head.batchSeq := by
          rcases hat with rfl | rfl
          · rfl
          · exact hb.symm
        have hki : ¬ ((q.head.kind = .directory ∨ q.head.kind = .commit) ∧
            off ≠ d.offset) := by
          rintro ⟨hk, hne⟩
          have hon := hs.publication hq.mem hk
          rw [hon] at hq
          rcases hq with ⟨rfl, -⟩ | hq
          · exact hne rfl
          · exact hq
        simp only [hh, decodeRecordHeader_header _ _ (ha.written q hq.mem), bind, Except.bind,
          hba, hf, hki, not_true_eq_false, if_false]
        exact hn (.inr (by rw [hb]))
      · simp only [decodeRecordHeader_invalid hv, bind, Except.bind]
        exact hn hat
    · simp only [hm, ne_eq, not_false_eq_true, if_true]
      exact hn hat

theorem search_windows (hs : Shape sha gid d recs) (ha : Attempt d batch recs)
    (hg : Genuine gid d.segmentId d.offset recs file) (hr : r.batchSeq = d.replay.batchSeq)
    (fuel : ℕ) (ho : d.offset ≤ off) (hat : attempt = none ∨ attempt = some batch) :
    ∃ attempt', r.searchWindows gid file d.segmentId d.offset fuel off attempt =
      .ok attempt' ∧ (attempt' = none ∨ attempt' = some batch) := by
  induction fuel generalizing off attempt with
  | zero => exact ⟨attempt, rfl, hat⟩
  | succ fuel ih =>
    simp only [Replay.searchWindows, recordHeaderBytes]
    by_cases hsh : file.length - off < 36
    · simp only [hsh, if_true]
      exact ⟨attempt, rfl, hat⟩
    simp only [hsh, if_false]
    have hw : 36 ≤ searchWindow := by decide
    obtain ⟨attempt', heq, hat'⟩ := search_headers hs ha hg hr
      (min (file.length - off) searchWindow - 36 + 1) ho (by intro; omega) hat
    simp only [heq, bind, Except.bind]
    by_cases he : off + min (file.length - off) searchWindow = file.length
    · simp only [he, if_true]
      exact ⟨attempt', rfl, hat'⟩
    · simp only [he, if_false]
      exact ih (by omega) hat'

theorem interrupted_at (fuel : ℕ) (ha : ∀ q ∈ recs, q.head.Written)
    (hg : Genuine gid sid off recs file) (hle : off ≤ file.length) :
    ∃ a b, recs = a ++ b ∧ Replay.interruptedAt gid file sid fuel off =
      .ok (off + recsLen a) ∧ off + recsLen a ≤ file.length := by
  induction fuel generalizing off recs with
  | zero => exact ⟨[], recs, rfl, rfl, hle⟩
  | succ fuel ih =>
    have stop : ∃ a b, recs = a ++ b ∧ (.ok off : Except CoreError ℕ) =
        .ok (off + recsLen a) ∧ off + recsLen a ≤ file.length := ⟨[], recs, rfl, rfl, hle⟩
    simp only [Replay.interruptedAt, recordHeaderBytes]
    by_cases hs : file.length - off < 36
    · simp only [hs, if_true]
      exact stop
    simp only [hs, if_false]
    by_cases hv : HeaderValid gid ⟨sid, off⟩ (slice off (off + 36) file)
    · obtain ⟨q, hq, hh⟩ := hg.header off le_rfl (by omega) hv
      simp only [hh, decodeRecordHeader_header _ _ (ha q hq.mem), bind, Except.bind]
      by_cases hst : q.head.kind = .commit ∨ off + 36 + q.head.bodyLen > file.length
      · simp only [hst, if_true]
        exact stop
      simp only [hst, if_false]
      cases recs with
      | nil => cases hq
      | cons p recs =>
        obtain rfl := hq.head
        have hn : off + 36 + q.head.bodyLen = off + q.len := by
          simp [Rec.head, Rec.len, Nat.add_assoc]
        rw [hn] at hst ⊢
        obtain ⟨a, b, hab, he, hl⟩ :=
          ih (fun p hp => ha p (mem_cons_of_mem _ hp)) hg.tail (by omega)
        refine ⟨q :: a, b, by simp [hab], ?_, ?_⟩
        · rw [he, recsLen_cons, Nat.add_assoc]
        · rw [recsLen_cons, ← Nat.add_assoc]
          exact hl
    · simp only [decodeRecordHeader_invalid hv, bind, Except.bind]
      exact stop

theorem kindAt_iff :
    Replay.kindAt bytes kind = true ↔ ∃ byte, bytes[4]? = some byte ∧ byte.val = kind.tag := by
  simp [Replay.kindAt]

theorem header_kind {head : RecordHead} (h : (recordHeader gid at' head)[4]? = some byte) :
    byte.val = head.kind.tag := by
  have hf : slice 4 5 (recordHeader gid at' head) = le 1 head.kind.tag := by
    simp [recordHeader, headFields]
  rw [getElem?_of_slice hf (by omega) (by omega)] at h
  simp only [le, Nat.sub_self, getElem?_cons_zero, Option.some.injEq] at h
  have := head.kind.tag_lt
  rw [← h]
  simp only [Fin.ofNat]
  omega

/-- Every byte of an issued header is one replay knows, or one it cannot know. -/
theorem header_asWritten {head : RecordHead} (hba : head.baseSeq = r.batchSeq)
    (ha : attempt = none ∨ attempt = some head.batchSeq) (hk : head.kind = .commit → i ≠ 4)
    (h : (recordHeader gid at' head)[i]? = some byte) :
    byte = 0 ∨ r.asWritten attempt i byte = true := by
  simp only [Replay.asWritten]
  by_cases h4 : i < 4
  · rw [getElem?_of_slice (header_magic gid at' head) (by omega) h4] at h
    simp only [h4, if_true]
    exact .inr (decide_eq_true h)
  by_cases h5 : i = 4
  · subst h5
    have hb := header_kind h
    simp only [Nat.lt_irrefl, if_false, if_true, hb, RecordKind.fromTag_tag, Option.any_some]
    exact .inr (decide_eq_true fun hc => hk hc rfl)
  by_cases h8 : i < 8
  · have hf : slice 5 8 (recordHeader gid at' head) = zeros 3 := by
      simp [recordHeader, headFields]
    rw [getElem?_of_slice hf (by omega) h8] at h
    exact .inl (eq_of_mem_replicate (mem_of_getElem? h))
  by_cases h16 : i < 16
  · have hf : slice 8 16 (recordHeader gid at' head) = le 8 head.batchSeq := by
      simp [recordHeader, headFields]
    rw [getElem?_of_slice hf (by omega) h16] at h
    simp only [h4, h5, h8, h16, if_false, if_true]
    rcases ha with rfl | rfl
    · exact .inr rfl
    · exact .inr (decide_eq_true h)
  by_cases h24 : i < 24
  · have hf : slice 16 24 (recordHeader gid at' head) = le 8 head.baseSeq := by
      simp [recordHeader, headFields]
    rw [getElem?_of_slice hf (by omega) h24, hba] at h
    simp only [h4, h5, h8, h16, h24, if_false, if_true]
    exact .inr (decide_eq_true h)
  · simp [h4, h5, h8, h16, h24]

theorem otherThanWritten_torn (h : Torn written bytes) :
    otherThanWritten bytes written = false := by
  rw [otherThanWritten, any_eq_false]
  rintro ⟨byte, w⟩ hm
  obtain ⟨i, hi⟩ := getElem?_of_mem hm
  obtain ⟨hb, hw⟩ := getElem?_zip_eq_some.mp hi
  rcases h.bytes i byte hb with rfl | hw'
  · simp
  rw [hw] at hw'
  have he : w = byte := Option.some.inj hw'
  simp [he]

/-- The decision of `check_interrupted_write`, once the walk has stopped at `offset`. -/
theorem interrupted_ok (hat : Replay.interruptedAt gid file sid file.length start = .ok off)
    (hb : slice off (off + commitRecordBytes) file = bytes)
    (hw : (if off = start then r.pendingCommit sha gid ⟨sid, off⟩ else none) = written)
    (hd : off ≠ start → Replay.kindAt bytes .directory = false)
    (hco : Replay.isCommit bytes written = true →
      off = start ∧ ∃ w, written = some w ∧ Torn w bytes)
    (ho : Replay.isCommit bytes written = false →
      ∀ i byte, bytes[i]? = some byte → byte = 0 ∨ r.asWritten attempt i byte = true) :
    r.checkInterruptedWrite sha gid file sid start attempt = .ok () := by
  simp only [Replay.checkInterruptedWrite, hat, bind, Except.bind, hb, hw]
  have h1 : ¬ (off ≠ start ∧ Replay.kindAt bytes .directory = true) := by
    rintro ⟨hn, hk⟩
    rw [hd hn] at hk
    cases hk
  rw [if_neg h1]
  cases hc : Replay.isCommit bytes written with
  | true =>
    obtain ⟨he, w, rfl, ht⟩ := hco hc
    simp only [he, if_true, ne_eq, not_true_eq_false, if_false, otherThanWritten_torn ht,
      Bool.false_eq_true]
    rfl
  | false =>
    have h2 : ¬ (bytes.zipIdx.any fun p => p.1 ≠ 0 ∧ ¬ r.asWritten attempt p.2 p.1 = true) =
        true := by
      rw [any_eq_true]
      rintro ⟨⟨byte, i⟩, hm, hp⟩
      have hi := mk_mem_zipIdx_iff_getElem?.mp hm
      simp only [ne_eq, decide_eq_true_eq] at hp
      rcases ho hc i byte hi with hz | ha
      · exact hp.1 hz
      · exact hp.2 ha
    simp only [Bool.false_eq_true, if_false, h2]
    rfl

theorem tail_torn (ht : Torn (recsBytes gid sid off (a ++ b)) (file.drop off)) :
    Torn (recsBytes gid sid (off + recsLen a) b)
      (slice (off + recsLen a) (off + recsLen a + n) file) := by
  have hd := (ht.drop (recsLen a)).take n
  rw [recsBytes_append, drop_left' (length_recsBytes _ _ _ _), drop_drop] at hd
  simpa [slice] using hd

theorem torn_header (ht : Torn (recsBytes gid sid off (q :: more)) bytes) (hi : i < 36)
    (h : bytes[i]? = some byte) :
    byte = 0 ∨ (recordHeader gid ⟨sid, off⟩ q.head)[i]? = some byte := by
  rcases ht.bytes i byte h with hz | hw
  · exact .inl hz
  · rw [recsBytes, Rec.bytes, append_assoc, getElem?_append_left (by simpa using hi)] at hw
    exact .inr hw

theorem torn_kind (ht : Torn (recsBytes gid sid off (q :: more)) bytes)
    (h : Replay.kindAt bytes kind = true) : q.kind = kind := by
  obtain ⟨byte, hb, hv⟩ := kindAt_iff.mp h
  rcases torn_header ht (by omega) hb with rfl | hh
  · have := kind.tag_pos
    omega
  have hta : q.kind.tag = kind.tag := (header_kind hh).symm.trans hv
  have := congrArg RecordKind.fromTag hta
  simpa using this

theorem torn_asWritten (ht : Torn (recsBytes gid sid off b) bytes)
    (hb : ∀ q ∈ b, q.baseSeq = r.batchSeq) (hs : ∀ q ∈ b, q.batchSeq = batch)
    (ha : attempt = none ∨ attempt = some batch)
    (hk : ∀ q ∈ b, q.kind = .commit → Replay.kindAt bytes .commit = false) :
    ∀ i byte, bytes[i]? = some byte → byte = 0 ∨ r.asWritten attempt i byte = true := by
  intro i byte hi
  cases b with
  | nil =>
    have := ht.short
    obtain ⟨hl, -⟩ := List.getElem?_eq_some_iff.mp hi
    simp [recsBytes] at this
    simp [this] at hl
  | cons q more =>
    by_cases h36 : i < 36
    · rcases torn_header ht h36 hi with hz | hh
      · exact .inl hz
      refine header_asWritten (hb q mem_cons_self) ?_ ?_ hh
      · rw [show q.head.batchSeq = batch from hs q mem_cons_self]
        exact ha
      rintro hc rfl
      have hf := hk q mem_cons_self hc
      rw [kindAt_iff.mpr ⟨byte, hi, (header_kind hh).trans (by rw [hc])⟩] at hf
      cases hf
    have h4 : ¬ i < 4 := by omega
    have h5 : i ≠ 4 := by omega
    have h8 : ¬ i < 8 := by omega
    have h16 : ¬ i < 16 := by omega
    have h24 : ¬ i < 24 := by omega
    simp [Replay.asWritten, h4, h5, h8, h16, h24]

/-- The checksum where the interrupted write began is that of the pending batch's commit only
if that commit was being written there. -/
def NoCoincidence (sha : Sha256) (gid : ℕ) (r : Replay) (file : List Byte)
    (segmentId offset : ℕ) (header : List Byte) : Prop :=
  ∀ w, r.pendingCommit sha gid ⟨segmentId, offset⟩ = some w → offset + 36 ≤ file.length →
    slice (offset + 32) (offset + 36) file ≠ zeros 4 →
    slice (offset + 32) (offset + 36) file = slice 32 36 w → header = slice 0 36 w

theorem pendingCommit_header (h : r.pendingCommit sha gid at' = some w) :
    ∃ head : RecordHead, head.kind = .commit ∧ slice 0 36 w = recordHeader gid at' head := by
  obtain ⟨p, -, h⟩ := Option.bind_eq_some_iff.mp h
  obtain ⟨root, -, h⟩ := Option.bind_eq_some_iff.mp h
  by_cases hv : root.validate ≠ .ok ()
  · rw [if_pos hv] at h
    cases h
  rw [if_neg hv] at h
  cases h
  exact ⟨_, rfl, slice_front (length_recordHeader _ _ _)⟩

theorem kind_of_header (he : recordHeader gid at' h = recordHeader gid at' h') : h.kind = h'.kind := by
  obtain ⟨byte, hb⟩ : ∃ byte, (recordHeader gid at' h)[4]? = some byte :=
    ⟨_, getElem?_eq_getElem (by simp)⟩
  have ht : h.kind.tag = h'.kind.tag := by
    rw [← header_kind hb, ← header_kind (he ▸ hb)]
  simpa using congrArg RecordKind.fromTag ht

/-- Replay accepts whatever an interrupted append leaves after the records it left whole. -/
theorem checkTornTail_ok (hs : Shape sha gid d (q :: more)) (ha : Attempt d batch (q :: more))
    (hg : Genuine gid d.segmentId d.offset (q :: more) file)
    (ht : Torn (recsBytes gid d.segmentId d.offset (q :: more)) (file.drop d.offset))
    (hlen : d.offset < file.length) (hd : Damaged d.replay q r)
    (hc : NoCoincidence sha gid r file d.segmentId d.offset
      (recordHeader gid ⟨d.segmentId, d.offset⟩ q.head)) :
    r.checkTornTail sha gid file d.segmentId d.offset = .ok () := by
  have hatt : r.segmentAttempt = none ∨ r.segmentAttempt = some batch := by
    rcases hd.attempt with h | h
    · rw [h]; exact ha.open_
    · rw [h, ha.same q mem_cons_self]; exact .inr rfl
  obtain ⟨attempt, hse, hat⟩ :=
    search_windows hs ha hg hd.batchSeq file.length le_rfl hatt
  obtain ⟨a, b, hab, hwa, hle⟩ := interrupted_at file.length ha.written hg hlen.le
  have hta : Torn (recsBytes gid d.segmentId (d.offset + recsLen a) b)
      (slice (d.offset + recsLen a) (d.offset + recsLen a + commitRecordBytes) file) := by
    rw [hab] at ht
    exact tail_torn ht
  have hm : ∀ p ∈ b, p ∈ q :: more := fun p hp => by
    rw [hab]
    exact mem_append_right _ hp
  -- A record that publishes a batch is the only one issued, so the walk has passed nothing.
  have alone : ∀ p bs, b = p :: bs → p.kind = .directory ∨ p.kind = .commit →
      a = [] ∧ bs = [] ∧ p = q := by
    intro p bs hb hk
    have ho := hs.publication (hm p (by rw [hb]; exact mem_cons_self)) hk
    rw [hab, hb] at ho
    have hl := congrArg List.length ho
    simp only [length_append, length_cons, length_nil] at hl
    have ha' : a = [] := eq_nil_of_length_eq_zero (by omega)
    have hbs : bs = [] := eq_nil_of_length_eq_zero (by omega)
    subst ha'
    rw [hb] at hab
    exact ⟨rfl, hbs, (List.cons.inj hab).1.symm⟩
  have hki : ∀ kind, Replay.kindAt (slice (d.offset + recsLen a)
      (d.offset + recsLen a + commitRecordBytes) file) kind = true → ∃ p bs, b = p :: bs ∧
        p.kind = kind := by
    intro kind hk
    cases b with
    | nil =>
      obtain ⟨byte, hb, -⟩ := kindAt_iff.mp hk
      obtain ⟨hl, -⟩ := List.getElem?_eq_some_iff.mp hb
      have hz := hta.short
      simp only [recsBytes, length_nil] at hz
      omega
    | cons p bs => exact ⟨p, bs, rfl, torn_kind hta hk⟩
  have hcom : q.kind = .commit →
      r.pendingCommit sha gid ⟨d.segmentId, d.offset⟩ = some (q.bytes gid d.segmentId d.offset) := by
    intro hk
    rw [hd.commit hk]
    cases hs with
    | operations _ hop => exact absurd hk (RecordKind.of_operation (hop q mem_cons_self)).1
    | directory _ hk' => rw [hk'] at hk; cases hk
    | commit _ _ hp => exact hp
  simp only [Replay.checkTornTail, hse, bind, Except.bind]
  refine interrupted_ok hwa rfl rfl ?_ ?_ ?_
  · intro hn
    by_contra hdi
    obtain ⟨p, bs, hb, hk⟩ := hki _ (Bool.eq_true_of_not_eq_false hdi)
    obtain ⟨rfl, -, -⟩ := alone p bs hb (.inl hk)
    exact hn rfl
  · intro hi
    have hq : d.offset + recsLen a = d.offset ∧ q.kind = .commit ∧ b = [q] := by
      rw [Replay.isCommit, Bool.or_eq_true] at hi
      rcases hi with hk | hw
      · obtain ⟨p, bs, hb, hk'⟩ := hki _ hk
        obtain ⟨rfl, rfl, rfl⟩ := alone p bs hb (.inr hk')
        exact ⟨rfl, hk', hb⟩
      by_cases hst : d.offset + recsLen a = d.offset
      · rw [if_pos hst, hst] at hw
        cases hp : r.pendingCommit sha gid ⟨d.segmentId, d.offset⟩ with
        | none => rw [hp] at hw; cases hw
        | some w =>
          have hin : d.offset + 36 ≤ d.offset + commitRecordBytes := by
            simp only [commitRecordBytes]; omega
          rw [hp, Option.any_some, decide_eq_true_eq, slice_slice hin] at hw
          obtain ⟨head, hco, hwh⟩ := pendingCommit_header hp
          have hlo : d.offset + 36 ≤ file.length := by
            have := hw.1
            simp only [slice, length_take, length_drop, recordHeaderBytes] at this
            omega
          have hk : q.kind = .commit :=
            (kind_of_header ((hc w hp hlo hw.2.1 hw.2.2).trans hwh)).trans hco
          have ha' : a = [] := by
            cases a with
            | nil => rfl
            | cons p a => simp [Rec.len] at hst
          subst ha'
          obtain ⟨-, hbs, -⟩ := alone q more hab.symm (.inr hk)
          rw [hbs] at hab
          exact ⟨hst, hk, hab.symm⟩
      · rw [if_neg hst] at hw
        cases hw
    obtain ⟨hsta, hk, hb⟩ := hq
    refine ⟨hsta, q.bytes gid d.segmentId d.offset, ?_, ?_⟩
    · rw [if_pos hsta, hsta]
      exact hcom hk
    rw [hb, hsta] at hta
    rw [hsta]
    simpa [recsBytes] using hta
  intro hi
  have hno : Replay.kindAt (slice (d.offset + recsLen a)
      (d.offset + recsLen a + commitRecordBytes) file) .commit = false := by
    rw [Replay.isCommit, Bool.or_eq_false_iff] at hi
    exact hi.1
  exact torn_asWritten hta
    (fun p hp => (ha.base p (hm p hp)).trans hd.batchSeq.symm)
    (fun p hp => ha.same p (hm p hp)) hat (fun _ _ _ => hno)

end Accept

end SegmentTorn
