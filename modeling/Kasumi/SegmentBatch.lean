import Kasumi.SegmentRecover

/-! How replay takes up one batch as the writer lays it out: its operation records, the directory
record and the commit. -/
namespace SegmentBatch

open ByteFields MediaFormat SegmentRecords SegmentReplay SegmentLayout SegmentTorn
open SegmentRecover
open DirectoryPages (CoreError DirectoryRoot maxU64 recordHeaderBytes)
open RootFormat (Digest)

variable {sha : Sha256} {gid batch : ℕ} {c : Cursor} {p : PendingBatch} {op : Operation}
  {r : Replay} {root : DirectoryRoot Digest}

def opRec (op : Operation) (batchSeq baseSeq : ℕ) : Rec :=
  ⟨(encodeOp op).kind, batchSeq, baseSeq, (encodeOp op).body⟩

theorem head_opRec (op : Operation) (batchSeq baseSeq : ℕ) :
    (opRec op batchSeq baseSeq).head = (encodeOp op).head batchSeq baseSeq := by
  simp [opRec, Rec.head, EncodedOp.head, EncodedOp.bodyLen, EncodedOp.body, EncodedOp.bodyCrc]

theorem len_opRec (op : Operation) (batchSeq baseSeq : ℕ) :
    (opRec op batchSeq baseSeq).len = (encodeOp op).len := by
  simp [opRec, Rec.len, EncodedOp.len, EncodedOp.body, recordHeaderBytes, Nat.add_assoc]

def opBytes (op : Operation) : ℕ := op.table.val.length + op.key.length + op.value.length

theorem bytes_replayed (op : Operation) (sid bodyAt : ℕ) :
    (op.replayed sid bodyAt).bytes = opBytes op := by
  cases op <;> simp [Operation.replayed, ReplayedRecord.bytes, opBytes, Operation.table,
    Operation.key, Operation.value]

theorem len_encodeOp (op : Operation) : (encodeOp op).len ≤ 52 + opBytes op := by
  cases op <;> simp [encodeOp, EncodedOp.len, opBytes, putPrefix, Operation.table,
    Operation.key, Operation.value, recordHeaderBytes] <;> omega

theorem user_kind (op : Operation) : Replay.batchKind (encodeOp op).kind = .user := by
  cases op <;> rfl

/-- The pending batch of a user's attempt, as replay holds it or starts it. -/
structure Progress (r : Replay) (batch : ℕ) (p : PendingBatch) : Prop where
  pending : r.pendingFor batch = .ok p
  seq : r.batchSeq < batch
  attempt : r.segmentAttempt = none ∨ r.segmentAttempt = some batch
  root : p.directoryRoot = none
  kind : p.kind = none ∨ p.kind = some .user
  encoded : p.encodedBytes ≤ 52 * p.opCount + p.bytes

def added (gid : ℕ) (c : Cursor) (p : PendingBatch) (op : Operation) (q : Rec) : PendingBatch :=
  { p with
    records := p.records ++ [op.replayed c.segmentId (c.offset + recordHeaderBytes)]
    opCount := p.opCount + 1
    bytes := p.bytes + opBytes op
    encodedBytes := p.encodedBytes + (encodeOp op).len
    ops := p.ops ++ q.bytes gid c.segmentId c.offset
    kind := some .user }

def Cursor.pend (c : Cursor) (batch len : ℕ) (q : PendingBatch) : Cursor :=
  ⟨c.segmentId, c.offset + len, c.resume, { c.replay with
    segmentAttempt := some batch
    maxSeen := max c.replay.maxSeen batch
    pending := some q }⟩

theorem ok_bind (a : α) (f : α → Except CoreError β) :
    ((Except.ok a : Except CoreError α) >>= f) = f a := rfl

theorem follows_full (h : head.baseSeq = r.batchSeq) : r.follows full head = .ok () := by
  simp [Replay.follows, full, h]
  rfl

theorem attempt_eq (h : r.segmentAttempt = none ∨ r.segmentAttempt = some batch) :
    r.attempt batch = .ok { r with
      segmentAttempt := some batch
      maxSeen := max r.maxSeen batch } := by
  unfold Replay.attempt
  rcases h with h | h <;> simp [h] <;> rfl

theorem expect_eq (head : RecordHead) (hp : r.pendingFor head.batchSeq = .ok p)
    (hd : p.directoryRoot = none) (hki : p.kind = none ∨ p.kind = some .user)
    (hk : Replay.batchKind head.kind = .user) (hco : p.opCount < maxBatchOperations)
    (hen : p.encodedBytes + (recordHeaderBytes + head.bodyLen) ≤ maxU64) :
    r.expect full head = .ok { p with
      encodedBytes := p.encodedBytes + (recordHeaderBytes + head.bodyLen)
      kind := some .user } := by
  have hc : ¬ p.opCount ≥ full.maxOperations := Nat.not_le.mpr hco
  have he : ¬ p.encodedBytes + (recordHeaderBytes + head.bodyLen) > maxU64 := Nat.not_lt.mpr hen
  have ha : ¬ (p.kind.any (· ≠ BatchKind.user) = true) := by
    rcases hki with h | h <;> simp [h]
  simp only [Replay.expect, hp, hk, ok_bind, hd, Option.isSome_none, Bool.false_eq_true, hc,
    ha, he, reduceCtorEq, ne_eq, not_true_eq_false, false_and, or_self, if_false]
  rfl

theorem push_eq (record : ReplayedRecord) (hc : p.opCount < maxBatchOperations)
    (hb : p.bytes + record.bytes ≤ maxBatchBytes) :
    p.push full record = .ok { p with
      bytes := p.bytes + record.bytes
      opCount := p.opCount + 1
      records := p.records ++ [record] } := by
  have h : ¬ (p.opCount ≥ maxBatchOperations ∨ p.bytes + record.bytes > maxBatchBytes) := by
    omega
  simp only [PendingBatch.push, h, if_false]
  rfl

theorem scan_operation (hk : head.kind.isOperation = true) (hcr : crc32c body = head.bodyCrc)
    (ha : r.attempt head.batchSeq = .ok r1) (he : r1.expect full head = .ok p)
    (hde : decodeOperation head body sid (off + recordHeaderBytes) = .ok record)
    (hp : { p with ops := p.ops ++ header ++ body }.push full record = .ok q) :
    r.scan sha gid full sid off header head body =
      .ok (.record, { r1 with pending := some q }) := by
  obtain ⟨hc, hd⟩ := RecordKind.of_operation hk
  simp only [Replay.scan, hc, hd, if_false, ha, he, ok_bind, hcr, ne_eq,
    not_true_eq_false, hde, hp]
  rfl

theorem operation_read (h : Progress c.replay batch p) (hb : op.Bounded)
    (hc : p.opCount < maxBatchOperations) (hby : p.bytes + opBytes op ≤ maxBatchBytes) :
    c.step sha gid full (.record (opRec op batch c.replay.batchSeq)) =
      some (Cursor.pend c batch (encodeOp op).len
        (added gid c p op (opRec op batch c.replay.batchSeq))) := by
  set head := (encodeOp op).head batch c.replay.batchSeq with hhead
  have hd := encodeOp_decodes c.replay.batchSeq hb
  have hl := len_encodeOp op
  have hbo : recordHeaderBytes + (encodeOp op).bodyLen = (encodeOp op).len := by
    simp [EncodedOp.len, EncodedOp.bodyLen, Nat.add_assoc]
  have hen : p.encodedBytes + (recordHeaderBytes + (encodeOp op).bodyLen) ≤ maxU64 := by
    have := h.encoded
    rw [hbo]
    simp only [maxBatchOperations, maxBatchBytes, maxU64] at *
    omega
  have he := expect_eq (r := { c.replay with
    segmentAttempt := some batch
    maxSeen := max c.replay.maxSeen batch }) head
    h.pending h.root h.kind (user_kind op) hc hen
  have hp := push_eq (p := { p with
      encodedBytes := p.encodedBytes + (recordHeaderBytes + (encodeOp op).bodyLen)
      kind := some .user
      ops := p.ops ++ recordHeader gid ⟨c.segmentId, c.offset⟩
        head ++ (encodeOp op).body })
    (op.replayed c.segmentId (c.offset + recordHeaderBytes)) hc
    (by rw [bytes_replayed]; exact hby)
  have hs : c.replay.scan sha gid full c.segmentId c.offset
      (recordHeader gid ⟨c.segmentId, c.offset⟩ head)
      head (encodeOp op).body = _ :=
    scan_operation hd.operation rfl (attempt_eq h.attempt) he
      (hd.decodes batch c.segmentId (c.offset + recordHeaderBytes)) hp
  have hr : c.read sha gid full (opRec op batch c.replay.batchSeq) =
      c.replay.scan sha gid full c.segmentId c.offset
        (recordHeader gid ⟨c.segmentId, c.offset⟩ head)
        head (encodeOp op).body := by
    rw [Cursor.read, follows_full rfl, ok_bind, head_opRec]
    rfl
  simp only [Cursor.step, hr, hs, len_opRec, Cursor.pend, added, Rec.bytes, head_opRec,
    bytes_replayed, hbo, List.append_assoc]
  rfl

theorem Progress.batchSeq (h : Progress r batch p) : p.batchSeq = batch :=
  (pendingFor_ok h.pending).batchSeq

theorem pendingFor_same (hp : r.pending = some p) (hb : p.batchSeq = batch) :
    r.pendingFor batch = .ok p := by
  simp only [Replay.pendingFor, hp, hb, if_true]
  rfl

theorem Progress.added (h : Progress c.replay batch p) (q : Rec) (len : ℕ) :
    Progress (Cursor.pend c batch len (added gid c p op q)).replay batch (added gid c p op q) := by
  have hl := len_encodeOp op
  have he := h.encoded
  refine ⟨pendingFor_same rfl h.batchSeq, h.seq, .inr rfl, h.root, .inr rfl, ?_⟩
  simp only [SegmentBatch.added]
  omega

/-! ## The directory record and the commit -/

def dirRec (root : DirectoryRoot Digest) (batchSeq baseSeq : ℕ) : Rec :=
  ⟨.directory, batchSeq, baseSeq, encodeDirectoryRoot root⟩

structure Names (root : DirectoryRoot Digest) (gid batch : ℕ) : Prop where
  typed : RootTyped root
  valid : root.validate = .ok ()
  group : root.groupId = gid
  generation : root.generation = batch

theorem directory_read (hp : c.replay.pending = some p) (hb : p.batchSeq = batch)
    (hc : p.opCount ≠ 0) (hno : p.directoryRoot = none)
    (ha : c.replay.segmentAttempt = none ∨ c.replay.segmentAttempt = some batch)
    (hr : Names root gid batch) :
    c.step sha gid full (.record (dirRec root batch c.replay.batchSeq)) =
      some (Cursor.pend c batch (dirRec root batch c.replay.batchSeq).len
        { p with directoryRoot := some root }) := by
  set rec := dirRec root batch c.replay.batchSeq with hrec
  have hd : Replay.directory gid { c.replay with
      segmentAttempt := some batch
      maxSeen := max c.replay.maxSeen batch } rec.head
      (encodeDirectoryRoot root) = .ok { c.replay with
        segmentAttempt := some batch
        maxSeen := max c.replay.maxSeen batch
        pending := some { p with directoryRoot := some root } } := by
    have hn : ¬ (root.groupId ≠ gid ∨ root.generation ≠ batch) := by
      simp [hr.group, hr.generation]
    simp only [Replay.directory, decodeDirectoryRoot_encode hr.typed hr.valid, ok_bind,
      hrec, dirRec, Rec.head, hn, if_false, hp, Option.filter_some, hb, hc, ne_eq,
      not_false_eq_true, and_self, decide_true, if_true, hno, Option.isSome_none,
      Bool.false_eq_true]
    rfl
  have hre : c.read sha gid full rec =
      .ok (.record, { c.replay with
        segmentAttempt := some batch
        maxSeen := max c.replay.maxSeen batch
        pending := some { p with directoryRoot := some root } }) := by
    rw [Cursor.read, follows_full rfl, ok_bind]
    have hk : rec.head.kind = .directory := rfl
    have hs : rec.head.batchSeq = batch := rfl
    have hbo : rec.body = encodeDirectoryRoot root := rfl
    have hcr : rec.head.bodyCrc =
        crc32c (encodeDirectoryRoot root) := rfl
    simp only [Replay.scan, hk, reduceCtorEq, if_false, if_true, hs, attempt_eq ha, ok_bind,
      hbo, hcr, ne_eq, not_true_eq_false, hd]
    rfl
  simp only [Cursor.step, hre]
  rfl

def commitRec (body : CommitBody) (batchSeq baseSeq : ℕ) : Rec :=
  ⟨.commit, batchSeq, baseSeq, body.bytes⟩

def committing (sha : Sha256) (gid : ℕ) (r : Replay) (p : PendingBatch)
    (root : DirectoryRoot Digest) : CommitBody :=
  ⟨p.opCount, (sha p.ops).val,
    chainDigest sha gid r.chain p.batchSeq p.opCount (sha p.ops).val (encodeDirectoryRoot root),
    encodeDirectoryRoot root⟩

def Cursor.committed (c : Cursor) (len : ℕ) (p : PendingBatch) (chain : Digest)
    (root : DirectoryRoot Digest) : Cursor :=
  ⟨c.segmentId, c.offset + len, c.offset + len, { c.replay with
    batchSeq := p.batchSeq
    chain := chain
    pending := none
    segmentAttempt := none
    directoryRoot := some root
    directoryEnd := some ⟨c.segmentId, c.offset + len⟩
    visited := c.replay.visited ++
      [⟨⟨c.segmentId, c.offset + len⟩, p.batchSeq, chain, root, p.records⟩] }⟩

theorem bytes_commitRec (h : body.directory.length = directoryRootBytes) :
    (commitRec body batchSeq baseSeq).bytes gid sid off =
      commitRecord gid ⟨sid, off⟩ batchSeq baseSeq body := by
  have hl : body.bytes.length = commitBodyBytes := length_commitBytes h
  simp only [Rec.bytes, commitRec, Rec.head, commitRecord, hl]

theorem sha_fits (sha : Sha256) (msg : List Byte) : Fits 32 (sha msg).val :=
  (sha msg).isLt

theorem commit_read (hp : c.replay.pending = some p) (hr : p.directoryRoot = some root)
    (hv : root.validate = .ok ()) (hpo : 0 < p.opCount) (hm : p.opCount ≤ maxBatchOperations) :
    c.step sha gid full (.record (commitRec (committing sha gid c.replay p root) p.batchSeq
        c.replay.batchSeq)) =
      some (Cursor.committed c (commitRec (committing sha gid c.replay p root) p.batchSeq
        c.replay.batchSeq).len p (committing sha gid c.replay p root).chainSha256 root) := by
  set body := committing sha gid c.replay p root with hbody
  have hd : decodeCommitBody body.bytes = .ok body :=
    decodeCommitBody_bytes hpo hm (sha_fits _ _) (sha_fits _ _)
  have hl : (commitRec body p.batchSeq c.replay.batchSeq).len =
      recordHeaderBytes + body.bytes.length := rfl
  have hc : ∀ endAt, c.replay.commit sha gid p.batchSeq endAt body = .ok { c.replay with
        batchSeq := p.batchSeq
        chain := body.chainSha256
        pending := none
        directoryRoot := some root
        directoryEnd := some endAt
        visited := c.replay.visited ++ [⟨endAt, p.batchSeq, body.chainSha256, root, p.records⟩] } := by
    intro endAt
    simp only [Replay.commit, hp, Option.filter_some, decide_true, if_true, hbody, committing, ne_eq,
      not_true_eq_false, if_false, hr, hv, ok_bind]
    rfl
  have hre : c.read sha gid full (commitRec body p.batchSeq c.replay.batchSeq) = .ok (.commit,
      (Cursor.committed c (commitRec body p.batchSeq c.replay.batchSeq).len p body.chainSha256
        root).replay) := by
    rw [Cursor.read, follows_full rfl, ok_bind, hl]
    simp only [Replay.scan, commitRec, Rec.head, if_true, ne_eq, not_true_eq_false, if_false, hd,
      ok_bind, hc, Nat.add_assoc]
    rfl
  simp only [Cursor.step, hre]
  rfl

theorem pendingCommit_eq (hp : r.pending = some p) (hr : p.directoryRoot = some root)
    (hv : root.validate = .ok ()) (sid off : ℕ) : r.pendingCommit sha gid ⟨sid, off⟩ =
      some ((commitRec (committing sha gid r p root) p.batchSeq r.batchSeq).bytes gid sid off) := by
  rw [bytes_commitRec (by simp [committing])]
  simp [Replay.pendingCommit, hp, hr, hv, committing]

end SegmentBatch
