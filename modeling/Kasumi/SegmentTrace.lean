import Kasumi.SegmentTorn

/-! What holds along a whole read of a log: sequences only grow, the reported root is that of
the last batch visited, and a read from a commit boundary is the rest of the read before it. -/
namespace SegmentTrace

open ByteFields MediaFormat SegmentRecords SegmentReplay SegmentLayout SegmentTorn List
open DirectoryPages (DirectoryRoot recordHeaderBytes)
open RootFormat (Digest LogPosition ReplayStart)
open FallibleSteps (bind_ok then_ok)

variable {sha : Sha256} {gid : ℕ} {pol : ReplayPolicy} {r : Replay} {c c' : Cursor}
  {items : List Item} {α : Type} {item : Item}

inductive Effect (c : Cursor) (r : Rec) : Cursor → Prop where
  | pend (q : PendingBatch) (hk : r.kind ≠ .commit) (hb : q.batchSeq = r.batchSeq)
      (hp : ∀ p, c.replay.pending = some p → p.batchSeq ≤ r.batchSeq)
      (hlow : c.replay.batchSeq < r.batchSeq ∨
        ∃ p, c.replay.pending = some p ∧ p.batchSeq = r.batchSeq) :
    Effect c r ⟨c.segmentId, c.offset + r.len, c.resume, { c.replay with
      segmentAttempt := some r.batchSeq
      maxSeen := max c.replay.maxSeen r.batchSeq
      pending := some q }⟩
  | commit (p : PendingBatch) (chain : Digest) (root : DirectoryRoot Digest)
      (hk : r.kind = .commit) (hp : c.replay.pending = some p) (hb : p.batchSeq = r.batchSeq) :
    Effect c r ⟨c.segmentId, c.offset + r.len, c.offset + r.len, { c.replay with
      batchSeq := r.batchSeq
      chain := chain
      pending := none
      segmentAttempt := none
      directoryRoot := some root
      directoryEnd := some ⟨c.segmentId, c.offset + r.len⟩
      visited := c.replay.visited ++
        [⟨⟨c.segmentId, c.offset + r.len⟩, r.batchSeq, chain, root, p.records⟩] }⟩

theorem filter_some (h : o.filter p = some a) : o = some a ∧ p a = true := by
  cases o with
  | none => cases h
  | some b =>
    rw [Option.filter_some] at h
    split at h
    · cases h
      exact ⟨rfl, ‹_›⟩
    · cases h

theorem push_ok {p : PendingBatch} (h : p.push pol record = .ok q) : q.batchSeq = p.batchSeq := by
  obtain ⟨-, h⟩ := guard_ok h
  cases h
  rfl

theorem directory_ok {head : RecordHead} (h : r.directory gid head bs = .ok r') :
    ∃ p root, r.pending = some p ∧ p.batchSeq = head.batchSeq ∧ p.directoryRoot = none ∧
      r' = { r with pending := some { p with directoryRoot := some root } } := by
  obtain ⟨root, -, h⟩ := bind_ok h
  obtain ⟨-, h⟩ := guard_ok h
  split at h
  · cases h
  rename_i p hp
  obtain ⟨hp, hq⟩ := filter_some hp
  obtain ⟨hn, h⟩ := guard_ok h
  cases h
  exact ⟨p, root, hp, (of_decide_eq_true hq).1, by simpa using hn, rfl⟩

theorem commit_ok (h : r.commit sha gid batchSeq endAt body = .ok r') :
    ∃ p root chain, r.pending = some p ∧ p.batchSeq = batchSeq ∧ r' = { r with
      batchSeq := batchSeq
      chain := chain
      pending := none
      directoryRoot := some root
      directoryEnd := some endAt
      visited := r.visited ++ [⟨endAt, batchSeq, chain, root, p.records⟩] } := by
  unfold Replay.commit at h
  split at h
  · cases h
  rename_i p hp
  obtain ⟨hp, hq⟩ := filter_some hp
  obtain ⟨-, h⟩ := guard_ok h
  obtain ⟨-, h⟩ := guard_ok h
  split at h
  · cases h
  rename_i root hr
  replace h := then_ok h
  obtain ⟨-, h⟩ := guard_ok h
  obtain ⟨-, h⟩ := guard_ok h
  cases h
  exact ⟨p, root, _, hp, of_decide_eq_true hq, rfl⟩

theorem step_effect {r : Rec} (h : c.step sha gid pol (.record r) = some c') : Effect c r c' := by
  obtain ⟨s, replay, hr, hs⟩ : ∃ s replay, c.read sha gid pol r = .ok (s, replay) ∧
      ((s = .record ∧ c' = ⟨c.segmentId, c.offset + r.len, c.resume, replay⟩) ∨
        (s = .commit ∧ c' = ⟨c.segmentId, c.offset + r.len, c.offset + r.len, replay⟩)) := by
    simp only [Cursor.step] at h
    split at h
    · cases h; exact ⟨_, _, ‹_›, .inl ⟨rfl, rfl⟩⟩
    · cases h; exact ⟨_, _, ‹_›, .inr ⟨rfl, rfl⟩⟩
    · cases h
  by_cases hc : r.kind = .commit
  · obtain ⟨body, r1, -, -, hco, hx⟩ := read_commit hc hr
    obtain ⟨p, root, chain, hp, hb, rfl⟩ := commit_ok hco
    cases hx
    obtain ⟨hs, -⟩ | ⟨-, rfl⟩ := hs
    · cases hs
    · exact .commit p chain root hc hp hb
  by_cases hd : r.kind = .directory
  · obtain ⟨r1, r2, -, ha, hdi, hx⟩ := read_directory hd hr
    obtain ⟨-, rfl⟩ := attempt_ok ha
    obtain ⟨p, root, hp, hb, -, rfl⟩ := directory_ok hdi
    cases hx
    obtain ⟨-, rfl⟩ | ⟨hs, -⟩ := hs
    · have hp' : c.replay.pending = some p := hp
      refine .pend { p with directoryRoot := some root } hc hb (fun q hq => ?_) (.inr ⟨p, hp', hb⟩)
      rw [hp'] at hq
      cases hq
      exact hb.le
    · cases hs
  have hk : r.kind.isOperation = true := by
    revert hc hd
    cases r.kind <;> simp [RecordKind.isOperation]
  obtain ⟨r1, p, record, q, -, ha, he, -, hpu, hx⟩ := read_operation hk hr
  obtain ⟨-, rfl⟩ := attempt_ok ha
  obtain ⟨p', hj, -, rfl⟩ := expect_ok he
  cases hx
  obtain ⟨-, rfl⟩ | ⟨hs, -⟩ := hs
  · refine .pend q hc ((push_ok hpu).trans hj.batchSeq) ?_ ?_
    · intro p hp
      cases hj with
      | fresh hl _ => exact (hl p hp).le
      | more p' hp' hb =>
        have hp'' : c.replay.pending = some p' := hp'
        rw [hp''] at hp
        cases hp
        exact hb.le
    cases hj with
    | fresh _ hb => exact .inl hb
    | more p' hp' hb => exact .inr ⟨p', hp', hb⟩
  · cases hs

/-! ## Invariants of a read -/

/-- The state replay reports is that of the last batch it visited, or of its start; the pending
batch is the newest sequence it has seen. -/
structure Consistent (start : ReplayStart) (r : Replay) : Prop where
  settled : r.pending = none → r.maxSeen = r.batchSeq
  pending : ∀ p, r.pending = some p → r.maxSeen = p.batchSeq ∧ r.batchSeq < p.batchSeq
  directoryRoot : r.directoryRoot = r.visited.getLast?.map (·.directoryRoot)
  directoryEnd : r.directoryEnd = r.visited.getLast?.map (·.endAt)
  batchSeq : r.batchSeq = (r.visited.getLast?.map (·.batchSeq)).getD start.batchSeq
  chain : r.chain = (r.visited.getLast?.map (·.chain)).getD start.chain

theorem consistent_init (start : ReplayStart) : Consistent start (Replay.init start) :=
  ⟨fun _ => rfl, fun _ h => (nomatch h), rfl, rfl, rfl, rfl⟩

theorem Consistent.batchSeq_le (h : Consistent start r) : r.batchSeq ≤ r.maxSeen := by
  cases hp : r.pending with
  | none => exact (h.settled hp).ge
  | some p =>
    obtain ⟨hs, hb⟩ := h.pending p hp
    omega

theorem Effect.consistent {r : Rec} (h : Effect c r c')
    (hc : Consistent start c.replay) : Consistent start c'.replay := by
  cases h with
  | pend q hk hb hp hl =>
    have hs : c.replay.maxSeen ≤ r.batchSeq := by
      cases hpe : c.replay.pending with
      | none =>
        rw [hc.settled hpe]
        rcases hl with hl | ⟨p, hp', -⟩
        · exact hl.le
        · rw [hpe] at hp'; cases hp'
      | some p =>
        rw [(hc.pending p hpe).1]
        exact hp p hpe
    have hba : c.replay.batchSeq < r.batchSeq := by
      rcases hl with hl | ⟨p, hp', hbp⟩
      · exact hl
      · rw [← hbp]; exact (hc.pending p hp').2
    refine ⟨fun hn => (nomatch hn), ?_, hc.directoryRoot, hc.directoryEnd, hc.batchSeq, hc.chain⟩
    intro p hp'
    cases hp'
    exact ⟨by simp [hb, hs], by simpa [hb] using hba⟩
  | commit p chain root hk hp hb =>
    refine ⟨fun _ => ?_, fun _ h => (nomatch h), by simp, by simp, by simp, by simp⟩
    rw [← hb]
    exact (hc.pending p hp).1

theorem Effect.seen {r : Rec} (h : Effect c r c') (hc : Consistent start
    c.replay) : c.replay.maxSeen ≤ c'.replay.maxSeen ∧ r.batchSeq ≤ c'.replay.maxSeen := by
  cases h with
  | pend q hk hb hp hl => exact ⟨le_max_left _ _, le_max_right _ _⟩
  | commit p chain root hk hp hb =>
    refine ⟨le_rfl, ?_⟩
    rw [← hb, ← (hc.pending p hp).1]

/-- One induction over the items of a read, for every invariant of its steps. -/
theorem run_induction {P : Cursor → Prop}
    (hre : ∀ c r c', P c → c.step sha gid pol (.record r) = some c' → P c')
    (hro : ∀ c, P c → P c.next) (hc : P c) (h : c.run sha gid pol items = some c') : P c' := by
  induction items generalizing c with
  | nil => cases h; exact hc
  | cons item items ih =>
    obtain ⟨d, hd, hr⟩ := run_cons.mp h
    cases item with
    | record r => exact ih (hre c r d hc hd) hr
    | roll => cases hd; exact ih (hro c hc) hr

theorem run_consistent {start : ReplayStart} (hc : Consistent start c.replay) (h : c.run sha gid
    pol items = some c') : Consistent start c'.replay := by
  refine run_induction (P := fun c => Consistent start c.replay) ?_ ?_ hc h
  · intro c r c' hc hs
    exact (step_effect hs).consistent hc
  · intro c hc
    exact ⟨hc.settled, hc.pending, hc.directoryRoot, hc.directoryEnd, hc.batchSeq, hc.chain⟩

theorem run_seen {start : ReplayStart} (hc : Consistent start c.replay)
    (h : c.run sha gid pol items = some c') : c.replay.maxSeen ≤ c'.replay.maxSeen ∧ ∀ r,
    Item.record r ∈ items → r.batchSeq ≤ c'.replay.maxSeen := by
  induction items generalizing c with
  | nil => cases h; exact ⟨le_rfl, by simp⟩
  | cons item items ih =>
    obtain ⟨d, hd, hre⟩ := run_cons.mp h
    have hdc : Consistent start d.replay :=
      run_consistent hc (run_cons.mpr ⟨d, hd, run_nil d⟩)
    obtain ⟨hm, ha⟩ := ih hdc hre
    cases item with
    | roll =>
      cases hd
      refine ⟨hm, fun r hr => ha r ?_⟩
      rcases mem_cons.mp hr with h | h
      · cases h
      · exact h
    | record q =>
      obtain ⟨hcd, hq⟩ := (step_effect hd).seen hc
      refine ⟨hcd.trans hm, fun r hr => ?_⟩
      rcases mem_cons.mp hr with h | h
      · cases h; exact hq.trans hm
      · exact ha r h

/-! ## Reading from a commit boundary -/

/-- The state of a read that started after the first `n` of the batches this one visited. -/
def since (n : ℕ) (r : Replay) : Replay :=
  { r with
    visited := r.visited.drop n
    directoryRoot := if r.visited.drop n = [] then none else r.directoryRoot
    directoryEnd := if r.visited.drop n = [] then none else r.directoryEnd }

def Cursor.since (n : ℕ) (c : Cursor) : Cursor := { c with replay := SegmentTrace.since n c.replay }

theorem map_ite_throw {c : Prop} [Decidable c] : (if c then throw e else x : Except ε α).map f =
      if c then throw e else x.map f := by
  by_cases hc : c
  · simp only [if_pos hc]; rfl
  · simp only [if_neg hc]

theorem attempt_since (n : ℕ) (r : Replay) (batchSeq : ℕ) :
    (since n r).attempt batchSeq = (r.attempt batchSeq).map (since n) := by
  rw [Replay.attempt, Replay.attempt, map_ite_throw]
  rfl

theorem directory_since (n : ℕ) (r : Replay) (head : RecordHead) (bs : List Byte) :
    (since n r).directory gid head bs = (r.directory gid head bs).map (since n) := by
  simp only [Replay.directory]
  rcases decodeDirectoryRoot bs with _ | root
  · rfl
  simp only [bind, Except.bind]
  rw [map_ite_throw]
  congr 1
  have hp : (since n r).pending = r.pending := rfl
  rw [hp]
  split
  · rfl
  · rw [map_ite_throw]
    rfl

theorem commit_since (hn : n ≤ r.visited.length) (batchSeq : ℕ) (endAt : LogPosition)
    (body : CommitBody) : (since n r).commit sha gid batchSeq endAt body =
      (r.commit sha gid batchSeq endAt body).map (since n) := by
  have hp : (since n r).pending = r.pending := rfl
  simp only [Replay.commit, hp]
  split
  · rfl
  rename_i p _
  rw [map_ite_throw]
  congr 1
  rw [map_ite_throw]
  congr 1
  split
  · rfl
  rename_i root _
  rcases root.validate with _ | _
  · rfl
  simp only [bind, Except.bind]
  rw [map_ite_throw]
  congr 1
  rw [map_ite_throw]
  congr 1
  simp [since, Except.map, pure, Except.pure, drop_append_of_le_length hn]

theorem scan_since (hn : n ≤ r.visited.length) (sid off : ℕ) (header : List Byte)
    (head : RecordHead) (body : List Byte) : (since n r).scan sha gid pol sid off header head body =
      (r.scan sha gid pol sid off header head body).map fun p => (p.1, since n p.2) := by
  by_cases hc : head.kind = .commit
  · simp only [Replay.scan, hc, if_true]
    by_cases hcr : crc32c body ≠ head.bodyCrc
    · simp only [hcr, if_true, ne_eq, not_false_eq_true]
      rfl
    simp only [hcr, if_false, bind, Except.bind]
    rcases decodeCommitBody body with _ | commit
    · rfl
    simp only [commit_since hn]
    rcases r.commit sha gid head.batchSeq _ commit with _ | r1 <;> rfl
  simp only [Replay.scan, hc, if_false, bind, Except.bind, attempt_since]
  rcases r.attempt head.batchSeq with _ | r1
  · rfl
  simp only [Except.map]
  by_cases hd : head.kind = .directory
  · simp only [hd, if_true]
    by_cases hcr : crc32c body ≠ head.bodyCrc
    · simp only [hcr, if_true, ne_eq, not_false_eq_true]
      rfl
    simp only [hcr, if_false, directory_since]
    rcases r1.directory gid head body with _ | r2 <;> rfl
  have he : (since n r1).expect pol head = r1.expect pol head := rfl
  simp only [hd, if_false, he]
  rcases r1.expect pol head with _ | p
  · rfl
  by_cases hcr : crc32c body ≠ head.bodyCrc
  · simp only [hcr, if_true, ne_eq, not_false_eq_true]
    rfl
  simp only [hcr, if_false]
  rcases decodeOperation head body sid (off + recordHeaderBytes) with _ | record
  · rfl
  simp only []
  rcases PendingBatch.push pol _ record with _ | q <;> rfl

theorem step_since (hn : n ≤ c.replay.visited.length) (h : c.step sha gid pol item = some c') :
    (Cursor.since n c).step sha gid pol item = some (Cursor.since n c') := by
  cases item with
  | roll => cases h; rfl
  | record r =>
    have hre : (Cursor.since n c).read sha gid pol r =
        (c.read sha gid pol r).map fun p => (p.1, since n p.2) := by
      have hf : (since n c.replay).follows pol r.head = c.replay.follows pol r.head := rfl
      simp only [Cursor.read, Cursor.since, hf, bind, Except.bind]
      rcases c.replay.follows pol r.head with _ | _
      · rfl
      exact scan_since hn _ _ _ _ _
    simp only [Cursor.step, hre]
    simp only [Cursor.step] at h
    split at h
    · rename_i hr
      cases h
      simp only [hr, Except.map]
      rfl
    · rename_i hr
      cases h
      simp only [hr, Except.map]
      rfl
    · cases h

theorem step_visited (h : c.step sha gid pol item = some c') :
    c.replay.visited <+: c'.replay.visited := by
  cases item with
  | roll => cases h; exact prefix_rfl
  | record r =>
    cases step_effect h with
    | pend => exact prefix_rfl
    | commit => exact prefix_append _ _

theorem run_since (hn : n ≤ c.replay.visited.length) (h : c.run sha gid pol items = some c') :
    (Cursor.since n c).run sha gid pol items = some (Cursor.since n c') := by
  induction items generalizing c with
  | nil => cases h; rfl
  | cons item items ih =>
    obtain ⟨d, hd, hr⟩ := run_cons.mp h
    exact run_cons.mpr ⟨_, step_since hn hd, ih (hn.trans (step_visited hd).length_le) hr⟩

/-- A cursor right after the commit of the last batch visited. -/
structure Boundary (c : Cursor) : Prop where
  resume : c.resume = c.offset
  pending : c.replay.pending = none
  attempt : c.replay.segmentAttempt = none
  endAt : ∀ b, c.replay.visited.getLast? = some b → b.endAt = ⟨c.segmentId, c.offset⟩

def Cursor.start (c : Cursor) : ReplayStart :=
  ⟨⟨c.segmentId, c.offset⟩, c.replay.batchSeq, c.replay.chain⟩

def Cursor.opened (start : ReplayStart) : Cursor :=
  ⟨start.position.segmentId, start.position.offset, start.position.offset, Replay.init start⟩

theorem Boundary.since (h : Boundary c) (hc : Consistent start c.replay) :
    Cursor.since c.replay.visited.length c = Cursor.opened (Cursor.start c) := by
  have hs := hc.settled h.pending
  obtain ⟨seg, off, res, ⟨de, dr, bs, ch, ms, pe, sa, vi⟩⟩ := c
  have h1 : res = off := h.resume
  have h2 : pe = none := h.pending
  have h3 : sa = none := h.attempt
  have h4 : ms = bs := hs
  subst h1 h2 h3 h4
  simp [Cursor.since, SegmentTrace.since, Cursor.opened, Cursor.start, Replay.init]

theorem run_boundary (h : c.run sha gid pol items = some c')
    (hl : c.replay.visited.length < k) (hh : k ≤ c'.replay.visited.length) :
    ∃ a b d, items = a ++ b ∧ c.run sha gid pol a = some d ∧ d.run sha gid pol b = some c' ∧
      Boundary d ∧ d.replay.visited = c'.replay.visited.take k := by
  induction items generalizing c with
  | nil => cases h; omega
  | cons item items ih =>
    obtain ⟨d, hd, hr⟩ := run_cons.mp h
    by_cases hk : d.replay.visited.length < k
    · obtain ⟨a, b, e, rfl, ha, hb, hbo, hv⟩ := ih hr hk
      exact ⟨item :: a, b, e, rfl, run_cons.mpr ⟨d, hd, ha⟩, hb, hbo, hv⟩
    -- The step passed the `k`-th batch, so it read a commit.
    refine ⟨[item], items, d, rfl, run_cons.mpr ⟨d, hd, run_nil d⟩, hr, ?_, ?_⟩
    · cases item with
      | roll => cases hd; exact absurd hl hk
      | record r =>
        cases step_effect hd with
        | pend => exact absurd hl hk
        | commit =>
          refine ⟨rfl, rfl, rfl, fun b hb => ?_⟩
          simp only [getLast?_append, getLast?_singleton, Option.some_or, Option.some.injEq] at hb
          rw [← hb]
    have hle : d.replay.visited.length = k := by
      cases item with
      | roll => cases hd; exact absurd hl hk
      | record r =>
        cases step_effect hd with
        | pend => exact absurd hl hk
        | commit =>
          simp only [length_append, length_singleton] at hk ⊢
          omega
    have hpr : d.replay.visited <+: c'.replay.visited :=
      run_induction (P := fun e => d.replay.visited <+: e.replay.visited)
        (fun _ _ _ hp hs => hp.trans (step_visited hs)) (fun _ hp => hp) prefix_rfl hr
    rw [prefix_iff_eq_take.mp hpr, hle]

end SegmentTrace
