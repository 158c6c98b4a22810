import Kasumi.RaftLogPurge

/-! The operations of one batch: the commit cursor, and a standalone append, whose entries and
commit cursor are one publication. -/
namespace RaftLogLocal

open FallibleSteps TenantTypes RaftLogTypes RaftLogStore RaftLogRows RaftLogImage RaftLogEntries
  RaftLogAppend RaftLogPurge IndexedLog List

variable {M K : Type} {X : Node M K} {s : LogStore M K}

/-- A commit position that does not go back and is covered by a header or by the purge cursor. -/
structure Committable (X : Node M K) (s : LogStore M K) (committed : Option LogId) : Prop where
  words : ∀ id ∈ committed, LogId.Word id
  advances : positionLt committed s.rows.committed = false
  coverage : ∀ id, committed = some id → covered s.rows id = true
  accepted : CommitAccepted X s committed

theorem saveCommitted_ok (hs : Sound X B S s log) (hc : Committable X s committed) (cut : ℕ) :
    ∃ s' fin, saveCommitted X committed cut s = .ok (s', fin) ∧ Sound X B S s' log ∧
      s'.boundary = s.boundary ∧ (1 < cut → fin = true) := by
  have hch : checkCommitted s.rows committed = .ok () := by
    unfold checkCommitted
    rw [ok_bind (check_true (by rw [hc.advances]; rfl))]
    cases hi : committed with
    | none => rfl
    | some id => exact check_true (hc.coverage id hi)
  have hfi : Fits X.toFormats [WriteOp.putCommitted committed] := by
    apply RaftLogCuts.fits_small
    · intro op ho
      rw [mem_singleton] at ho
      subst ho
      exact X.committedJson_small committed hc.words
    · change 1 ≤ 65536
      decide
  have ha : Sound X B S
      { s with rows := s.rows.applyAll [.putCommitted committed] } log := by
    constructor
    · exact represents_congr hs.represents fun _ => rfl
    · exact hs.spans
    · exact retiredBoundary_kept hs.boundary rfl rfl (fun _ _ => rfl) (Or.inr hc.accepted)
    · exact hs.mode
  have hf : commitTurn X committed (s, false) =
      .ok (some ({ s with rows := s.rows.applyAll [.putCommitted committed] }, true)) := by
    rw [commitTurn, if_neg Bool.false_ne_true, ok_bind (writeCustody_ok hfi)]
    rfl
  obtain ⟨t, fin, hr, ht, hsi⟩ := CutLoops.run_once hf rfl cut
  refine ⟨t.1, fin, ?_, ?_, ?_, hsi⟩
  · rw [saveCommitted, ok_bind hch, ok_bind hr]
    rfl
  · rcases ht with ⟨rfl, _⟩ | rfl
    · exact hs
    · exact ha
  · rcases ht with ⟨rfl, _⟩ | rfl <;> rfl

/-- What a standalone append is given: entries that follow everything retained, are taken as one
batch and whose publication the store takes, with the commit cursor at the last of them. -/
structure Publishable (X : Node M K) (s : LogStore M K) (entries : List (Entry M)) : Prop where
  appendable : Appendable X s entries []
  nonempty : entries ≠ []
  follows : ∀ i, s.rows.headers.get i ≠ none → ∀ e ∈ entries, i < e.index
  together : entries.length = 1 ∨
    (entries.map fun e => EntryWrites.bytes X.toFormats (writesOf X s.controls e)).sum ≤
        appendBatchBytes ∧
      (entries.map fun e => EntryWrites.count (writesOf X s.controls e)).sum ≤ maxOperations
  stored : Fits X.toFormats ((gather (entries.map (writesOf X s.controls))).1 ++
    ((gather (entries.map (writesOf X s.controls))).2 ++
      [.putCommitted (entries.getLast?.map Entry.logId)]))
  advances : positionLt s.rows.committed (entries.head?.map Entry.logId) = true
  accepted : CommitAccepted X s (entries.getLast?.map Entry.logId)

theorem Publishable.follows_held (hp : Publishable X s es) (hs : Sound X B S s log)
    (hhel : log p.index = some p) (he : e ∈ es) : p.index < e.index := by
  obtain ⟨h, seed, hh⟩ := hs.represents.holds _ p hhel
  have hhe : s.rows.headers.get p.index = some h := hh.header
  exact hp.follows p.index (by rw [hhe]; simp) e he

theorem pivot_zero (hs : Sound X B S s log) (hp : Publishable X s es) :
    pivotOf s.retained es = 0 := by
  have hsp := hs.spans
  unfold pivotOf
  cases hr : s.retained with
  | none => rfl
  | some span =>
    rw [hr] at hsp
    obtain ⟨p, q, hx, rfl⟩ := hsp
    cases es with
    | nil => rfl
    | cons e rest =>
      have hl : p.index < e.index := hp.follows_held hs hx.start mem_cons_self
      have hg : ¬ e.index < p.logId.index := by
        change ¬ e.index < p.index
        omega
      dsimp only
      rw [takeWhile_cons, if_neg (by simpa using hg)]
      rfl

theorem wholeRange_ok (hp : Publishable X s es) : wholeRange X.toFormats ⟨0, es.length, 0⟩
    (es.map (writesOf X s.controls)) es.length = true := by
  have hl : 0 < es.length := length_pos_iff.mpr hp.nonempty
  have ht : takeFitting X.toFormats
      (((es.map (writesOf X s.controls)).take es.length).drop 0) 0 0 0 =
        es.length := by
    have ha : ((es.map (writesOf X s.controls)).take es.length).drop 0 =
        es.map (writesOf X s.controls) := by
      rw [drop_zero, take_of_length_le (by simp)]
    rw [ha]
    rcases hp.together with ho | ⟨hb, hc⟩
    · obtain ⟨e, rfl⟩ := length_eq_one_iff.mp ho
      rfl
    rw [takeFitting_all X.toFormats _ 0 0 0
      (by rw [map_map, Nat.zero_add]; exact hb)
      (by rw [map_map, Nat.zero_add]; exact hc), length_map, Nat.zero_add]
  have hn : EntryBatches.nextRange X.toFormats ⟨0, es.length, 0⟩
      (es.map (writesOf X s.controls)) =
        some ((0, es.length), ⟨es.length, es.length, 0⟩) := by
    unfold EntryBatches.nextRange
    dsimp only
    rw [if_pos hl, ht, Nat.zero_add]
  have he : EntryBatches.nextRange X.toFormats ⟨es.length, es.length, 0⟩
      (es.map (writesOf X s.controls)) = none := by
    unfold EntryBatches.nextRange
    dsimp only
    rw [if_neg (lt_irrefl _), if_neg (fun h => h rfl)]
  rw [wholeRange, hn]
  dsimp only
  rw [he]
  simp

theorem extendsSpan_ok (hs : Sound X B S s log) (hp : Publishable X s es) :
    extendsSpan s.retained es = true := by
  have hsp := hs.spans
  have ht := touches_of_connected hs hp.appendable
  unfold extendsSpan
  cases hre : s.retained with
  | none => rfl
  | some span =>
    rw [hre] at hsp ht
    obtain ⟨p, q, hx, rfl⟩ := hsp
    have hh := head?_eq_some_head hp.nonempty
    obtain ⟨hr, _⟩ := ht _ rfl _ _ hh (getLast?_eq_some_getLast hp.nonempty)
    have hm := head_mem hp.nonempty
    have hl : q.index < (es.head hp.nonempty).index := hp.follows_held hs hx.stop hm
    have hw : (es.head hp.nonempty).index < wordSize :=
      (hp.appendable.acceptable _ hm).word.2.2
    change (es.head hp.nonempty).index ≤ q.index + 1 at hr
    have he : q.index + 1 = (es.head hp.nonempty).index := by omega
    have ha : checkedAdd q.logId.index 1 = some (es.head hp.nonempty).index := by
      rw [← he]
      exact if_pos (he ▸ hw)
    dsimp only
    rw [hh, ha, Option.map_some]
    exact beq_self_eq_true _

/-- A standalone append never fails and leaves either nothing or all of its entries. -/
theorem localAppend_ok (hs : Sound X B S s log) (hp : Publishable X s es) (cut : ℕ) : ∃ s' fin log',
    localAppend X es cut s = .ok (s', fin) ∧ Sound X B S s' log' ∧ (log' = put Entry.index log es ∨
    log' = log ∧ fin = false) ∧ s'.boundary = s.boundary ∧ (1 < cut → fin = true) := by
  obtain ⟨f, hc⟩ := hp.appendable.consecutive
  have hac := hp.appendable.acceptable
  obtain ⟨next, hne, hn, a, b, ha, hb, hen⟩ := including_ok hs.spans hc
    (fun e he => (hac e he).word.2.2) hp.nonempty (touches_of_connected hs hp.appendable)
  -- the entries follow the span, so its new end is the last of them
  have hl : some next.last = es.getLast?.map Entry.logId := by
    rw [hb, hen, Option.map_some]
    cases hre : s.retained with
    | none => rfl
    | some span =>
      have hsp := hs.spans
      rw [hre] at hsp
      obtain ⟨p, q, hx, rfl⟩ := hsp
      have hlt : q.index < b.index := hp.follows_held hs hx.stop (mem_of_getLast? hb)
      have hg : b.logId.index ≥ q.logId.index := hlt.le
      change some (if b.logId.index ≥ q.logId.index then b.logId else q.logId) = some b.logId
      rw [if_pos hg]
  have hnew : EntryBatches.new s.retained es = .ok ⟨0, es.length, 0⟩ := by
    rw [new_ok hs hp.appendable, pivot_zero hs hp]
  have hpr : prepareLocalAppend X es s =
      .ok ⟨(gather (es.map (writesOf X s.controls))).1,
        (gather (es.map (writesOf X s.controls))).2 ++
          [.putCommitted (es.getLast?.map Entry.logId)], next, s.retained⟩ := by
    rw [prepareLocalAppend, ok_bind (check_true (by simpa using hp.nonempty)),
      ok_bind (entryWrites_ok hac),
      ok_bind (checkAppend_ok hs hp.appendable fun _ => hp.advances), ok_bind hnew,
      ok_bind (check_true (by rw [wholeRange_ok hp, extendsSpan_ok hs hp]; rfl)),
      ok_bind hne, ← hl]
    rfl
  have hex : ∀ op ∈ [WriteOp.putCommitted (M := M) (es.getLast?.map Entry.logId)],
      target op = none := by
    intro op ho
    rw [mem_singleton] at ho
    subst ho
    rfl
  generalize hro : s.rows.applyAll (batchOps X s.controls es
    [.putCommitted (es.getLast?.map Entry.logId)]) = rows
  have haf : Sound X B S { s with rows := rows, retained := some next }
      (put Entry.index log es) := by
    subst hro
    constructor
    · exact represents_batch hs.represents hac hc hex
    · exact hn
    · refine retiredBoundary_kept hs.boundary ?_ ?_ ?_ ?_
      · rfl
      · rfl
      · intro bd hbd
        exact seed_batch hp.appendable (fun e he => he) hc hex (fun _ _ => rfl) hbd
      right
      have hco : (s.rows.applyAll (batchOps X s.controls es
          [.putCommitted (es.getLast?.map Entry.logId)])).committed =
          es.getLast?.map Entry.logId := by
        rw [batchOps, ← append_assoc, applyAll_append]
        rfl
      rw [hco]
      exact hp.accepted
    · exact hs.mode
  have hf : localTurn X ⟨(gather (es.map (writesOf X s.controls))).1,
        (gather (es.map (writesOf X s.controls))).2 ++
          [.putCommitted (es.getLast?.map Entry.logId)], next, s.retained⟩ (s, false) =
      .ok (some ({ s with rows := rows, retained := some next }, true)) := by
    rw [localTurn, if_neg Bool.false_ne_true, ok_bind (writeBatch_ok hp.stored (gather_custody hac)), hro,
      installLocalAppend, ok_bind (check_true (beq_self_eq_true _))]
    rfl
  obtain ⟨t, fin, hru, ht, hsi⟩ := CutLoops.run_once hf rfl cut
  have hr : localAppend X es cut s = .ok (t.1, fin) := by
    rw [localAppend, ok_bind hpr, ok_bind hru]
    rfl
  rcases ht with ⟨rfl, hfi⟩ | rfl
  · exact ⟨_, fin, log, hr, hs, Or.inr ⟨rfl, hfi⟩, rfl, hsi⟩
  · exact ⟨_, fin, _, hr, haf, Or.inl rfl, rfl, hsi⟩

end RaftLogLocal
