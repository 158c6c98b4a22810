import Kasumi.RaftLogCuts
import Kasumi.RaftLogReads

/-! Purges. Each batch removes the first block of the log together with its purge cursor; seeds
are never removed, and a retired store keeps its application bodies. -/
namespace RaftLogPurge

open FallibleSteps RaftLogTypes RaftLogStore RaftLogRows RaftLogImage RaftLogAppend RaftLogCuts
  RaftLogReads IndexedLog List

variable {M K : Type} {X : Node M K} {B S : ℕ → Prop} {rows : Rows M} {log : Log M} {p q : Entry M}

theorem represents_congr {after : Rows M} (hr : Represents X B S rows log)
    (hs : ∀ i, rowsAt after i = rowsAt rows i) : Represents X B S after log := by
  rw [represents_iff] at hr ⊢
  intro i
  rw [hs]
  exact hr i

structure KeptByPurge (s s' : LogStore M K) : Prop where
  boundary : s'.boundary = s.boundary
  controls : s'.controls = s.controls
  committed : s'.rows.committed = s.rows.committed
  seeds : s'.rows.seeds = s.rows.seeds

theorem KeptByPurge.trans (h : KeptByPurge s t) (h' : KeptByPurge t u) : KeptByPurge s u := by
  constructor
  · exact h'.boundary.trans h.boundary
  · exact h'.controls.trans h.controls
  · exact h'.committed.trans h.committed
  · exact h'.seeds.trans h.seeds

section Block

variable (M) in
def purgeOps (retired : Bool) (start stop : ℕ) (purged : LogId) : List (WriteOp M) :=
  (if retired then [] else (indices start stop).map .deleteLog) ++
    purgeControl start stop purged

variable {stop : ℕ}

theorem mem_purgeOps (h : op ∈ purgeOps M retired start stop purged) : op =
    .putPurged purged ∨ ∃ j, op = .deleteLog j ∨ op = .deleteHeader j ∨ op = .deleteCustody j := by
  unfold purgeOps purgeControl at h
  simp only [mem_append, mem_flatMap, mem_cons, not_mem_nil, or_false] at h
  rcases h with h | ⟨j, _, h⟩ | h
  · split at h
    · cases h
    · obtain ⟨j, _, rfl⟩ := mem_map.mp h
      exact .inr ⟨j, Or.inl rfl⟩
  · exact .inr ⟨j, Or.inr h⟩
  · exact .inl h

theorem length_purgeOps (retired : Bool) (start stop : ℕ) (purged : LogId) :
    (purgeOps M retired start stop purged).length ≤ 3 * (stop + 1 - start) + 1 := by
  have hc : (purgeControl (M := M) start stop purged).length =
      2 * (stop + 1 - start) + 1 := by
    unfold purgeControl
    simp [length_indices, Nat.mul_comm]
  unfold purgeOps
  rw [length_append, hc]
  split
  · rw [length_nil]
    omega
  · rw [length_map, length_indices]
    omega

theorem fits_purgeOps (retired : Bool) (hw : purged.Word)
    (hb : stop + 1 - start ≤ 21845) : Fits F (purgeOps M retired start stop purged) := by
  apply fits_small
  · intro op ho
    rcases mem_purgeOps ho with rfl | ⟨j, rfl | rfl | rfl⟩
    · exact F.logIdJson_small purged hw
    · exact Nat.zero_le _
    · exact Nat.zero_le _
    · exact Nat.zero_le _
  refine le_trans (length_purgeOps _ _ _ _) ?_
  change _ ≤ 65536
  omega

theorem rowsAt_purgeOps (rows : Rows M) (retired : Bool) (start stop : ℕ) (purged : LogId) (i : ℕ) :
    rowsAt (rows.applyAll (purgeOps M retired start stop purged)) i = if start ≤ i ∧ i ≤ stop then
        ⟨none, rows.seeds.get i, none, if retired then rows.log.get i else none⟩
      else rowsAt rows i := by
  have hm : ∀ i, i ∈ indices start stop ↔ start ≤ i ∧ i ≤ stop := fun i => mem_indices_iff
  have hn := nodup_indices start stop
  have hb : ∀ middle : Rows M, middle = rows.applyAll
      (if retired then [] else (indices start stop).map .deleteLog) → ∀ i, rowsAt middle i =
        if start ≤ i ∧ i ≤ stop then
          ⟨rows.headers.get i, rows.seeds.get i, rows.custodyLog.get i,
            if retired then rows.log.get i else none⟩
        else rowsAt rows i := by
    rintro middle rfl i
    cases retired with
    | true =>
      by_cases hi : start ≤ i ∧ i ≤ stop
      · rw [if_pos hi]
        rfl
      · rw [if_neg hi]
        rfl
    | false =>
      rw [if_neg Bool.false_ne_true, rowsAt_deleteLog rows hn hm]
      by_cases hi : start ≤ i ∧ i ≤ stop
      · rfl
      · rw [if_neg hi, if_neg hi]
  unfold purgeOps purgeControl
  rw [applyAll_append, applyAll_append]
  have hc : ∀ after : Rows M, rowsAt (after.applyAll [.putPurged purged]) i =
      rowsAt after i := fun _ => rfl
  rw [hc, rowsAt_flatMap _ hn hm (by simp [target]), hb _ rfl i]
  by_cases hi : start ≤ i ∧ i ≤ stop
  · rw [if_pos hi, if_pos hi, if_pos hi]
    rfl
  · rw [if_neg hi, if_neg hi, if_neg hi]

theorem kept_purgeOps (rows : Rows M) (retired : Bool) (start stop : ℕ) (purged : LogId) :
    (rows.applyAll (purgeOps M retired start stop purged)).committed = rows.committed ∧
      (rows.applyAll (purgeOps M retired start stop purged)).seeds = rows.seeds := by
  have hop := fun op (h : op ∈ purgeOps M retired start stop purged) => mem_purgeOps h
  generalize purgeOps M retired start stop purged = ops at hop ⊢
  induction ops generalizing rows with
  | nil => exact ⟨rfl, rfl⟩
  | cons op ops ih =>
    have hr := ih (rows.apply op) fun o ho => hop o (mem_cons_of_mem _ ho)
    have hs : rows.applyAll (op :: ops) = (rows.apply op).applyAll ops := rfl
    rw [hs, hr.1, hr.2]
    rcases hop op mem_cons_self with rfl | ⟨j, rfl | rfl | rfl⟩ <;> exact ⟨rfl, rfl⟩

theorem purgeRows_ok (hd : X.serving = false → retired = true) (hw : purged.Word)
    (hb : stop + 1 - start ≤ 21845) : purgeRows X rows retired start stop purged =
      .ok (rows.applyAll (purgeOps M retired start stop purged)) := by
  have hf := fits_purgeOps (F := X.toFormats) retired hw hb
  cases hr : retired with
  | true =>
    rw [hr] at hf
    exact writeCustody_ok hf
  | false =>
    rw [hr] at hf
    apply writeBatch_ok hf
    intro hs
    rw [hd hs] at hr
    cases hr

theorem erased_purge (hB : retired = true → ∀ i, i ≤ stop → B i) (hS : ∀ i, i ≤ stop → S i) :
    Erased B S rows (rows.applyAll (purgeOps M retired start stop purged)) start stop := by
  refine erased_of_rows (rowsAt_purgeOps rows retired start stop purged) ?_ ?_
  · intro i hi
    cases hr : retired with
    | true => exact .inr ⟨rfl, hB hr i hi⟩
    | false => exact .inl rfl
  · exact fun i hi => Or.inr (hS i hi)

end Block

section Turn

theorem since_zero (log : Log M) : since 0 log = log := by
  funext i
  exact if_pos (Nat.zero_le i)

theorem since_block (hx : Extent Entry.index log p q) (stop : ℕ) (i : ℕ) :
    since (stop + 1) log i = if p.index ≤ i ∧ i ≤ stop then none else log i := by
  unfold since
  by_cases hi : stop + 1 ≤ i
  · rw [if_pos hi, if_neg (by omega)]
  rw [if_neg hi]
  by_cases hp : p.index ≤ i
  · rw [if_pos ⟨hp, by omega⟩]
  · rw [if_neg (fun h => hp h.1)]
    exact (hx.absent (Or.inl (by omega))).symm

theorem firstAfter_ok (hr : Represents X B S rows log) (hx : Extent Entry.index log p q)
    (hp : p.index ≤ stop) (hq : stop ≤ q.index) :
    ∃ next, firstAfter X rows ⟨p.logId, q.logId⟩ stop = .ok next ∧
      Spans (since (stop + 1) log) next ∧ spanSize next = q.index - stop := by
  change ∃ next, (if stop = q.index then _ else _) = Except.ok next ∧ _
  by_cases he : stop = q.index
  · rw [if_pos he]
    refine ⟨none, rfl, hx.since_all (by omega), ?_⟩
    rw [he, Nat.sub_self]
    rfl
  obtain ⟨r, hrg⟩ := hx.present (i := stop + 1) (by omega) (by omega)
  obtain ⟨h, seed, hre, hh⟩ := readHeader_ok hr hrg
  refine ⟨some ⟨r.logId, q.logId⟩, ?_, ?_, ?_⟩
  · rw [if_neg he, ok_bind hre, hh.logId]
    rfl
  · exact ⟨r, q, hx.since (by omega) (by omega) hr.indexed hrg, rfl⟩
  have hk : r.index = stop + 1 := hr.indexed _ r hrg
  change q.index + 1 - r.index = q.index - stop
  omega

/-- What is left of a purge: the retained entries, and the cursor if it is not written. -/
def purgeLeft (id : LogId) (state : LogStore M K × Option LogId) : ℕ :=
  2 * spanSize state.1.retained + if state.2 = some id then 0 else 1

variable {s : LogStore M K} {id : LogId}

section

variable (hs : Sound X B S s log)

include hs

theorem purgeCursor_ok (hw : id.Word) (last : Option LogId) :
    (purgeCursor X id s last = .ok none ∧ last = some id) ∨
      ∃ next, purgeCursor X id s last = .ok (some (next, some id)) ∧ Sound X B S next log ∧
        KeptByPurge s next ∧ purgeLeft id (next, some id) < purgeLeft id (s, last) := by
  unfold purgeCursor
  by_cases hl : last = some id
  · left
    rw [if_pos hl]
    exact ⟨rfl, hl⟩
  right
  rw [if_neg hl]
  have hf : Fits X.toFormats [WriteOp.putPurged id] := by
    apply fits_small
    · intro op ho
      rw [mem_singleton] at ho
      subst ho
      exact X.logIdJson_small id hw
    · change 1 ≤ 65536
      decide
  refine ⟨{ s with rows := s.rows.applyAll [.putPurged id] }, ?_, ?_, ⟨rfl, rfl, rfl, rfl⟩, ?_⟩
  · rw [ok_bind (writeCustody_ok hf)]
    rfl
  · constructor
    · exact represents_congr hs.represents fun _ => rfl
    · exact hs.spans
    · exact retiredBoundary_kept hs.boundary rfl rfl (fun _ _ => rfl) (Or.inl rfl)
    · exact hs.mode
  unfold purgeLeft
  rw [if_pos rfl, if_neg hl]
  exact Nat.lt_succ_self _

theorem purgeTurn_ok (hw : id.Word) (hB : s.boundary.isSome = true → ∀ i, i ≤ id.index → B i)
    (hS : ∀ i, i ≤ id.index → S i) (last : Option LogId) : (purgeTurn X id
    s.boundary.isSome (s, last) = .ok none ∧ ∀ i, i ≤ id.index → log i = none) ∨ ∃ next n, purgeTurn
    X id s.boundary.isSome (s, last) = .ok (some next) ∧ n ≤ id.index + 1 ∧ Sound X B S next.1
    (since n log) ∧ KeptByPurge s next.1 ∧ purgeLeft id next < purgeLeft id (s, last) := by
  have hcu : (∀ i, i ≤ id.index → log i = none) →
      (purgeCursor X id s last = .ok none ∧ ∀ i, i ≤ id.index → log i = none) ∨
      ∃ next n, purgeCursor X id s last = .ok (some next) ∧ n ≤ id.index + 1 ∧
        Sound X B S next.1 (since n log) ∧ KeptByPurge s next.1 ∧
        purgeLeft id next < purgeLeft id (s, last) := by
    intro hno
    rcases purgeCursor_ok hs hw last with ⟨hd, _⟩ | ⟨next, hne, hso, hk, hl⟩
    · exact .inl ⟨hd, hno⟩
    · refine .inr ⟨(next, some id), 0, hne, Nat.zero_le _, ?_, hk, hl⟩
      exact hso
  unfold purgeTurn
  have hsp := hs.spans
  cases hre : s.retained with
  | none =>
    rw [hre] at hsp
    exact hcu fun i _ => hsp i
  | some span =>
    rw [hre] at hsp
    obtain ⟨p, q, hx, rfl⟩ := hsp
    have hle : p.index ≤ q.index := hx.le
    dsimp only
    by_cases hd : p.logId.index > id.index
    · rw [if_pos hd]
      exact hcu fun i hi => hx.absent (Or.inl (lt_of_le_of_lt hi hd))
    right
    rw [if_neg hd]
    have hp : p.index ≤ id.index := by
      change ¬ p.index > id.index at hd
      omega
    generalize hst : min (min (p.logId.index + 21844) id.index) q.logId.index = stop
    have hb : p.index ≤ stop ∧ stop ≤ q.index ∧ stop ≤ id.index ∧
        stop + 1 - p.index ≤ 21845 := by
      change min (min (p.index + 21844) id.index) q.index = stop at hst
      omega
    obtain ⟨hps, hsq, hsi, hbl⟩ := hb
    obtain ⟨r, hrg⟩ := hx.present hps hsq
    obtain ⟨h, seed, hrea, hh⟩ := readHeader_ok hs.represents hrg
    obtain ⟨next, hne, hn, hsiz⟩ := firstAfter_ok hs.represents hx hps hsq
    have hen : RetainedSpan.checkEndpoint ⟨p.logId, q.logId⟩ h.logId = .ok () := by
      rw [hh.logId]
      exact checkEndpoint_ok hx hs.represents.indexed hrg
    have hrw : h.logId.Word := by
      rw [hh.logId]
      exact hs.represents.words _ r hrg
    obtain ⟨hc, hse⟩ :=
      kept_purgeOps s.rows s.boundary.isSome p.index stop h.logId
    have he : Erased B S s.rows
        (s.rows.applyAll (purgeOps M s.boundary.isSome p.index stop h.logId)) p.index stop :=
      erased_purge (fun hr i hi => hB hr i (le_trans hi hsi))
        (fun i hi => hS i (le_trans hi hsi))
    refine ⟨({ s with
        rows := s.rows.applyAll (purgeOps M s.boundary.isSome p.index stop h.logId)
        retained := next }, some h.logId), stop + 1, ?_, by omega, ?_, ?_, ?_⟩
    · rw [purgeChunk, ok_bind hrea, ok_bind hen, ok_bind hne]
      exact ok_bind (purgeRows_ok hs.mode hrw hbl)
    · constructor
      · exact he.represents hs.represents (since_block hx stop)
      · exact hn
      · refine retiredBoundary_kept hs.boundary ?_ ?_ ?_ ?_
        · rfl
        · rfl
        · intro bd _
          rw [hse]
        · exact .inl hc
      · exact hs.mode
    · exact ⟨rfl, rfl, hc, hse⟩
    unfold purgeLeft
    rw [hsiz, hre]
    change 2 * (q.index - stop) + _ < 2 * (q.index + 1 - p.index) + _
    split <;> split <;> omega

theorem purge_ok (hw : id.Word) (hr : X.purgeReady s.controls = .ok ())
    (hB : s.boundary.isSome = true → ∀ i, i ≤ id.index → B i) (hS : ∀ i, i ≤ id.index → S i)
    (cut : ℕ) : ∃ s' fin n, purge X id cut s = .ok (s', fin) ∧ n ≤ id.index + 1 ∧
    Sound X B S s' (since n log) ∧ KeptByPurge s s' ∧ (fin = true →
    since n log = since (id.index + 1) log) ∧ (2 * spanSize s.retained + 1 < cut → fin = true) := by
  obtain ⟨state, fin, hru, ⟨n, hn, hso, hk⟩, hd, hsi⟩ :=
    CutLoops.run_spec (purgeTurn X id s.boundary.isSome)
      (fun t => ∃ n, n ≤ id.index + 1 ∧ Sound X B S t.1 (since n log) ∧ KeptByPurge s t.1)
      (fun t => ∀ m, Sound X B S t.1 (since m log) → ∀ i, i ≤ id.index → since m log i = none)
      (purgeLeft id)
      (by
        rintro t ⟨n, hn, hso, hk⟩
        have hBt : t.1.boundary.isSome = true → ∀ i, i ≤ id.index → B i := by
          rw [hk.boundary]
          exact hB
        rcases purgeTurn_ok hso hw hBt hS t.2 with ⟨hno, _⟩ |
            ⟨next, m, ht, hm, hne, hst, hl⟩
        · left
          rw [hk.boundary] at hno
          refine ⟨hno, ?_⟩
          intro m hm i hi
          rcases purgeTurn_ok hm hw hBt hS t.2 with ⟨_, hg⟩ | ⟨_, _, ht, _⟩
          · exact hg i hi
          · rw [hk.boundary, hno] at ht
            cases ht
        right
        rw [hk.boundary] at ht
        refine ⟨next, ht, ⟨max m n, by omega, ?_, hk.trans hst⟩, hl⟩
        rw [← since_since]
        exact hne)
      cut (s, none) ⟨0, Nat.zero_le _, by rw [since_zero]; exact hs, ⟨rfl, rfl, rfl, rfl⟩⟩
  refine ⟨state.1, fin, n, ?_, hn, hso, hk, ?_, ?_⟩
  · rw [purge, ok_bind hr, ok_bind hs.boundary, ok_bind hru]
    rfl
  · intro hf
    have hg := hd hf n hso
    funext i
    by_cases hi : i ≤ id.index
    · rw [hg i hi, since, if_neg (by omega)]
    · rw [since, since, if_pos (by omega), if_pos (by omega)]
  intro hlt
  apply hsi
  exact hlt

end

end Turn

end RaftLogPurge
