import Kasumi.RaftLogAppend

/-! Truncations, purges and the commit cursor. Each batch of a truncation takes a block off the
end of the log and each batch of a purge one off its start, so that what is left is an interval
after any of them. -/
namespace RaftLogCuts

open FallibleSteps RaftLogTypes RaftLogStore RaftLogRows RaftLogImage RaftLogAppend IndexedLog List

variable {M K : Type} {X : Node M K} {B S : ℕ → Prop} {rows : Rows M} {log : Log M}

section Removal

variable {start stop : ℕ} {l : List ℕ} {after : Rows M}

theorem rowsAt_flatMap (rows : Rows M) (hl : l.Nodup) (hm : ∀ i, i ∈ l ↔ start ≤ i ∧ i ≤ stop)
    (hg : ∀ j, ∀ op ∈ g j, target op = some j) (i : ℕ) : rowsAt (rows.applyAll (l.flatMap g)) i =
      if start ≤ i ∧ i ≤ stop then (g i).foldl edit (rowsAt rows i) else rowsAt rows i := by
  have hf := filter_flatMap (fun j : ℕ => j) g (fun a _ => hg a)
    (by simpa using hl) i
  rw [rowsAt_applyAll, hf]
  cases hfi : l.find? (fun j => j == i) with
  | none =>
    have hi : i ∉ l := fun hi => by simpa using find?_eq_none.mp hfi i hi
    rw [if_neg (fun h => hi ((hm i).mpr h))]
    rfl
  | some j =>
    have hj : j = i := by simpa using find?_some hfi
    subst hj
    rw [if_pos ((hm j).mp (mem_of_find?_eq_some hfi))]
    rfl

theorem rowsAt_deleteLog (rows : Rows M) (hl : l.Nodup) (hm : ∀ i, i ∈ l ↔ start ≤ i ∧ i ≤ stop)
    (i : ℕ) :
    rowsAt (rows.applyAll (l.map .deleteLog)) i =
      if start ≤ i ∧ i ≤ stop then { rowsAt rows i with body := none } else rowsAt rows i := by
  rw [map_eq_flatMap, rowsAt_flatMap rows hl hm (by simp [target])]
  rfl

theorem nodup_indices (start stop : ℕ) : (indices start stop).Nodup := nodup_range'

theorem length_indices (start stop : ℕ) : (indices start stop).length = stop + 1 - start := by
  rw [indices, length_range']

/-- Rows after the removal of a block of indices; a body or a seed may be left only where
`B` and `S` allow it. -/
structure Erased (B S : ℕ → Prop) (rows after : Rows M) (start stop : ℕ) : Prop where
  outside : ∀ i, ¬ (start ≤ i ∧ i ≤ stop) → rowsAt after i = rowsAt rows i
  header : ∀ i, start ≤ i → i ≤ stop → after.headers.get i = none
  custody : ∀ i, start ≤ i → i ≤ stop → after.custodyLog.get i = none
  body : ∀ i, start ≤ i → i ≤ stop →
    after.log.get i = none ∨ after.log.get i = rows.log.get i ∧ B i
  seed : ∀ i, start ≤ i → i ≤ stop → after.seeds.get i = none ∨ S i

theorem Erased.represents (he : Erased B S rows after start stop) (hr : Represents X B S rows log)
    (hl : ∀ i, left i = if start ≤ i ∧ i ≤ stop then none else log i) :
    Represents X B S after left := by
  rw [represents_iff] at hr ⊢
  intro i
  rw [hl]
  by_cases hi : start ≤ i ∧ i ≤ stop
  · have hb := he.body i hi.1 hi.2
    have hse := he.seed i hi.1 hi.2
    rw [if_pos hi]
    constructor
    · intro e hn
      cases hn
    · exact fun _ => ⟨he.header i hi.1 hi.2, he.custody i hi.1 hi.2⟩
    · exact fun _ => ⟨fun h => hb.elim (absurd · h) And.right, hse.resolve_left⟩
    intro hs
    rcases hb with hn | ⟨hsa, _⟩
    · exact hn
    · exact hsa.trans ((hr i).domain hs)
  · rw [if_neg hi, he.outside i hi]
    exact hr i

theorem erased_of_rows {seed : ℕ → Option (RetainedSeed M)} {body : ℕ → Option Bytes}
    (ha : ∀ i, rowsAt after i =
      if start ≤ i ∧ i ≤ stop then ⟨none, seed i, none, body i⟩ else rowsAt rows i)
    (hb : ∀ i ≤ stop, body i = none ∨ body i = rows.log.get i ∧ B i)
    (hs : ∀ i ≤ stop, seed i = none ∨ S i) : Erased B S rows after start stop := by
  have hi : ∀ i, start ≤ i → i ≤ stop → rowsAt after i = ⟨none, seed i, none, body i⟩ :=
    fun i h1 h2 => (ha i).trans (if_pos ⟨h1, h2⟩)
  constructor
  · intro i ho
    rw [ha, if_neg ho]
  · intro i h1 h2
    exact congrArg EntryRows.header (hi i h1 h2)
  · intro i h1 h2
    exact congrArg EntryRows.custody (hi i h1 h2)
  · intro i h1 h2
    have h : after.log.get i = body i := congrArg EntryRows.body (hi i h1 h2)
    exact h ▸ hb i h2
  intro i h1 h2
  have h : after.seeds.get i = seed i := congrArg EntryRows.seed (hi i h1 h2)
  exact h ▸ hs i h2

theorem fits_small {ops : List (WriteOp M)}
    (hv : ∀ op ∈ ops, op.valueLength F ≤ 256) (hc : ops.length ≤ maxOperations) : Fits F ops := by
  constructor
  · intro op ho
    apply validateRecord_of_small
    have hs : 256 ≤ maxRecord := by decide
    exact le_trans (hv op ho) hs
  · have hsu : (ops.map (WriteOp.size F)).sum ≤ ops.length * 286 := by
      rw [← length_map (WriteOp.size F)]
      apply sum_le_card_nsmul
      intro n hn
      obtain ⟨op, ho, rfl⟩ := mem_map.mp hn
      have h1 := (namespaceName_bounds op).2
      have h2 := keyLength_le op
      have h3 := hv op ho
      unfold WriteOp.size
      omega
    have hm : maxOperations * 286 ≤ maxBatch := by decide
    exact le_trans hsu (le_trans (Nat.mul_le_mul_right 286 hc) hm)
  · exact hc

end Removal

def spanSize : Option RetainedSpan → ℕ
  | none => 0
  | some span => span.last.index + 1 - span.first.index

theorem valueLength_truncate (isProtected : Option ℕ) (start stop : ℕ) :
    ∀ op ∈ truncateBodies X start stop ++ truncateControl isProtected start stop,
      op.valueLength F ≤ 256 := by
  intro op ho
  unfold truncateBodies truncateControl at ho
  simp only [mem_append, mem_flatMap] at ho
  rcases ho with ho | ⟨j, _, ho⟩
  · split at ho
    · obtain ⟨j, _, rfl⟩ := mem_map.mp ho
      exact Nat.zero_le _
    · cases ho
  rcases ho with ho | ho
  · simp only [mem_cons, not_mem_nil, or_false] at ho
    rcases ho with rfl | rfl <;> exact Nat.zero_le _
  split at ho
  · rw [mem_singleton] at ho
    subst ho
    exact Nat.zero_le _
  · cases ho

theorem length_truncate (isProtected : Option ℕ) (start stop : ℕ) :
    (truncateBodies X start stop ++ truncateControl (M := M) isProtected start stop).length ≤
      4 * (stop + 1 - start) := by
  have hb : (truncateBodies X start stop).length ≤ stop + 1 - start := by
    unfold truncateBodies
    split
    · rw [length_map, length_reverse, length_indices]
    · exact Nat.zero_le _
  have hc : (truncateControl (M := M) isProtected start stop).length ≤
      3 * (stop + 1 - start) := by
    unfold truncateControl
    rw [length_flatMap, ← length_indices start stop, ← length_reverse, Nat.mul_comm,
      ← length_map (fun index => ([WriteOp.deleteHeader index, .deleteCustody index] ++
        (if some index ≠ isProtected then [.deleteSeed index] else []) :
          List (WriteOp M)).length)]
    apply sum_le_card_nsmul
    intro n hn
    obtain ⟨j, _, rfl⟩ := mem_map.mp hn
    split <;> simp
  rw [length_append]
  omega

theorem erased_truncate (hr : Represents X B S rows log) {isProtected : Option ℕ}
    (hS : ∀ i, isProtected = some i → S i) (start stop : ℕ) :
    let after := rows.applyAll (truncateBodies X start stop ++
      truncateControl isProtected start stop)
    Erased B S rows after start stop ∧
      (∀ i, isProtected = some i → after.seeds.get i = rows.seeds.get i) ∧
      after.committed = rows.committed ∧ after.purged = rows.purged := by
  intro after
  have hn : (indices start stop).reverse.Nodup :=
    nodup_reverse.mpr (nodup_indices start stop)
  have hm : ∀ i, i ∈ (indices start stop).reverse ↔ start ≤ i ∧ i ≤ stop := by
    intro i
    rw [mem_reverse, mem_indices_iff]
  -- the rows after the bodies are gone
  have hb : ∀ i, rowsAt (rows.applyAll (truncateBodies X start stop)) i =
      { rowsAt rows i with
        body := if X.serving = true ∧ start ≤ i ∧ i ≤ stop then none else rows.log.get i } := by
    intro i
    unfold truncateBodies
    by_cases hs : X.serving = true
    · rw [if_pos hs, rowsAt_deleteLog rows hn hm]
      by_cases hi : start ≤ i ∧ i ≤ stop
      · rw [if_pos hi, if_pos ⟨hs, hi⟩]
      · rw [if_neg hi, if_neg (fun h => hi h.2)]
        rfl
    · rw [if_neg hs, if_neg (fun h => hs h.1)]
      rfl
  have ht : ∀ j, ∀ op ∈ ([WriteOp.deleteHeader j, .deleteCustody j] ++
      (if some j ≠ isProtected then [.deleteSeed j] else []) : List (WriteOp M)),
      target op = some j := by
    intro j op hop
    simp only [cons_append, nil_append, mem_cons] at hop
    rcases hop with rfl | rfl | hop
    · rfl
    · rfl
    split at hop
    · rw [mem_singleton] at hop
      subst hop
      rfl
    · cases hop
  have ha : ∀ i, rowsAt after i =
      if start ≤ i ∧ i ≤ stop then
        ⟨none, if isProtected = some i then rows.seeds.get i else none, none,
          if X.serving = true then none else rows.log.get i⟩
      else rowsAt rows i := by
    intro i
    have hst : after = (rows.applyAll (truncateBodies X start stop)).applyAll
        (truncateControl isProtected start stop) := applyAll_append _ _ _
    rw [hst]
    unfold truncateControl
    rw [rowsAt_flatMap _ hn hm ht, hb]
    by_cases hi : start ≤ i ∧ i ≤ stop
    · by_cases hp : isProtected = some i
      · have hsa : ¬ some i ≠ isProtected := fun h => h hp.symm
        rw [if_pos hp, if_neg hsa]
        simp [edit, rowsAt, hi]
      have ho : some i ≠ isProtected := fun h => hp h.symm
      rw [if_neg hp, if_pos ho]
      simp [edit, rowsAt, hi]
    · rw [if_neg hi, if_neg hi, if_neg (fun h => hi h.2)]
      rfl
  refine ⟨erased_of_rows ha ?_ ?_, ?_, ?_⟩
  · intro i _
    left
    by_cases hs : X.serving = true
    · exact if_pos hs
    · exact (if_neg hs).trans (hr.domain (Bool.eq_false_of_not_eq_true hs) i)
  · intro i _
    by_cases hp : isProtected = some i
    · exact .inr (hS i hp)
    · exact .inl (if_neg hp)
  · intro i hp
    have hse := congrArg EntryRows.seed (ha i)
    refine Eq.trans hse ?_
    by_cases hi : start ≤ i ∧ i ≤ stop
    · rw [if_pos hi, if_pos hp]
    · rw [if_neg hi]
      rfl
  apply committed_applyAll
  intro op hop
  simp only [truncateBodies, truncateControl, mem_append, mem_flatMap] at hop
  rcases hop with hop | ⟨j, _, hop⟩
  · split at hop
    · obtain ⟨j, _, rfl⟩ := mem_map.mp hop
      exact Option.some_ne_none j
    · cases hop
  · rw [ht j op (mem_append.mpr hop)]
    exact Option.some_ne_none j

structure KeptBelow (n : ℕ) (s s' : LogStore M K) : Prop where
  boundary : s'.boundary = s.boundary
  controls : s'.controls = s.controls
  committed : s'.rows.committed = s.rows.committed
  rows : ∀ i, i < n → rowsAt s'.rows i = rowsAt s.rows i

theorem KeptBelow.trans (h : KeptBelow n s t)
    (h' : KeptBelow m t u) (hn : n ≤ m) : KeptBelow n s u := by
  constructor
  · exact h'.boundary.trans h.boundary
  · exact h'.controls.trans h.controls
  · exact h'.committed.trans h.committed
  · intro i hi
    exact (h'.rows i (by omega)).trans (h.rows i hi)

theorem below_block (hx : Extent Entry.index log p q) (start : ℕ) (i : ℕ) :
    below start log i = if start ≤ i ∧ i ≤ q.index then none else log i := by
  unfold below
  by_cases hi : i < start
  · rw [if_pos hi, if_neg (by omega)]
  rw [if_neg hi]
  by_cases hq : i ≤ q.index
  · rw [if_pos ⟨by omega, hq⟩]
  · rw [if_neg (fun h => hq h.2)]
    exact (hx.absent (Or.inr (by omega))).symm

theorem lastBefore_ok (hr : Represents X B S rows log) (hx : Extent Entry.index log p q)
    (hp : p.index ≤ start) (hq : start ≤ q.index) :
    ∃ next, lastBefore X rows ⟨p.logId, q.logId⟩ start = .ok next ∧
      Spans (below start log) next ∧ spanSize next = start - p.index := by
  change ∃ next, (if start = p.index then _ else _) = Except.ok next ∧ _
  by_cases he : start = p.index
  · rw [if_pos he]
    refine ⟨none, rfl, hx.below_all he.le, ?_⟩
    rw [he, Nat.sub_self]
    rfl
  have hl : p.index < start := by omega
  obtain ⟨r, hrg⟩ := hx.present (i := start - 1) (by omega) (by omega)
  obtain ⟨h, seed, hre, hh⟩ := readHeader_ok hr hrg
  refine ⟨some ⟨p.logId, r.logId⟩, ?_, ?_, ?_⟩
  · rw [if_neg he, ok_bind hre, hh.logId]
    rfl
  · exact ⟨p, r, hx.below hl (by omega) hr.indexed hrg, rfl⟩
  have hk : r.index = start - 1 := hr.indexed _ r hrg
  change r.index + 1 - p.index = start - p.index
  omega

theorem truncateTurn_ok (hs : Sound X B S s log) (hS : ∀ bd, s.boundary = some bd → S bd.index)
    (id : LogId) : (truncateTurn X id (s.boundary.map LogId.index) s = .ok none ∧
    ∀ i, id.index ≤ i → log i = none) ∨ ∃ next n,
    truncateTurn X id (s.boundary.map LogId.index) s = .ok (some next) ∧ id.index ≤ n ∧
    Sound X B S next (below n log) ∧ KeptBelow n s next ∧
    spanSize next.retained < spanSize s.retained := by
  unfold truncateTurn
  have hsp := hs.spans
  cases hr : s.retained with
  | none =>
    rw [hr] at hsp
    exact .inl ⟨rfl, fun i _ => hsp i⟩
  | some span =>
    rw [hr] at hsp
    obtain ⟨p, q, hx, rfl⟩ := hsp
    have hl : p.index ≤ q.index := hx.le
    dsimp only
    by_cases hdo : q.logId.index < id.index
    · left
      rw [if_pos hdo]
      refine ⟨rfl, fun i hi => hx.absent (Or.inr ?_)⟩
      exact lt_of_lt_of_le hdo hi
    right
    rw [if_neg hdo]
    have hq : id.index ≤ q.index := by
      change ¬ q.index < id.index at hdo
      omega
    generalize hst : max (max (q.logId.index - 16383) id.index) p.logId.index = start
    have hb : p.index ≤ start ∧ start ≤ q.index ∧ id.index ≤ start ∧
        q.index + 1 - start ≤ 16384 := by
      change max (max (q.index - 16383) id.index) p.index = start at hst
      omega
    obtain ⟨hps, hsq, his, hbl⟩ := hb
    obtain ⟨next, hne, hn, hsi⟩ := lastBefore_ok hs.represents hx hps hsq
    have hp : ∀ i, s.boundary.map LogId.index = some i → S i := by
      intro i hi
      obtain ⟨bd, hbd, rfl⟩ := Option.map_eq_some_iff.mp hi
      exact hS bd hbd
    obtain ⟨he, hsee, hc, _⟩ :=
      erased_truncate hs.represents hp start q.index
    have hf : Fits X.toFormats (truncateBodies X start q.index ++
        truncateControl (s.boundary.map LogId.index) start q.index) := by
      apply fits_small (valueLength_truncate _ _ _)
      refine le_trans (length_truncate _ _ _) ?_
      change _ ≤ 65536
      omega
    have hd : X.serving = false → truncateBodies X start q.index = [] := by
      intro hse
      rw [truncateBodies, hse]
      rfl
    refine ⟨{ s with
        rows := s.rows.applyAll (truncateBodies X start q.index ++
          truncateControl (s.boundary.map LogId.index) start q.index)
        retained := next }, start, ?_, his, ?_, ?_, ?_⟩
    · rw [ok_bind hne]
      change (s.rows.writeBatch X (truncateBodies X start q.index)
        (truncateControl (s.boundary.map LogId.index) start q.index) >>= _) = _
      rw [ok_bind (writeBatch_ok hf hd)]
      rfl
    · constructor
      · exact he.represents hs.represents (below_block hx start)
      · exact hn
      · refine retiredBoundary_kept hs.boundary ?_ ?_ ?_ ?_
        · rfl
        · rfl
        · intro bd hbd
          exact hsee bd.index (by rw [hbd]; rfl)
        · exact .inl hc
      · exact hs.mode
    · constructor
      · rfl
      · rfl
      · exact hc
      · intro i hi
        exact he.outside i (by omega)
    rw [hsi]
    change start - p.index < q.index + 1 - p.index
    omega

/-- A truncation above the committed entry never fails, wherever it is cut, and leaves the
rows below it alone. -/
theorem truncate_ok (hs : Sound X B S s log) (hS : ∀ bd, s.boundary = some bd → S bd.index)
    {id : LogId} (ha : ∀ c, s.rows.committed = some c → c.index < id.index) (cut : ℕ) : ∃ s' fin n,
    truncate X id cut s = .ok (s', fin) ∧ id.index ≤ n ∧ Sound X B S s' (below n log) ∧
    KeptBelow id.index s s' ∧ (fin = true → below n log = below id.index log) ∧
    (spanSize s.retained < cut → fin = true) := by
  have hch : checkTruncate s.rows id = .ok () := by
    unfold checkTruncate
    cases hc : s.rows.committed with
    | none => rfl
    | some c => exact check_true (decide_eq_true (ha c hc))
  have hst : ∃ n, id.index ≤ n ∧ below n log = log := by
    have hsp := hs.spans
    cases hr : s.retained with
    | none =>
      rw [hr] at hsp
      exact ⟨id.index, le_rfl, Vacant.below hsp _⟩
    | some span =>
      rw [hr] at hsp
      obtain ⟨p, q, hx, _⟩ := hsp
      exact ⟨max id.index (q.index + 1), le_max_left _ _, hx.below_eq (by omega)⟩
  obtain ⟨n₀, hn₀, hal⟩ := hst
  obtain ⟨s', fin, hru, ⟨n, hn, hso, hk⟩, hd, hsi⟩ :=
    CutLoops.run_spec (truncateTurn X id (s.boundary.map LogId.index))
      (fun t => ∃ n, id.index ≤ n ∧ Sound X B S t (below n log) ∧ KeptBelow id.index s t)
      (fun t => ∀ m, Sound X B S t (below m log) → ∀ i, id.index ≤ i → below m log i = none)
      (fun t => spanSize t.retained)
      (by
        rintro t ⟨n, hn, hso, hk⟩
        have hSt : ∀ bd, t.boundary = some bd → S bd.index := by
          intro bd hb
          rw [hk.boundary] at hb
          exact hS bd hb
        rcases truncateTurn_ok hso hSt id with ⟨hno, _⟩ |
            ⟨next, m, ht, hm, hne, hste, hl⟩
        · left
          rw [hk.boundary] at hno
          refine ⟨hno, ?_⟩
          intro m hm i hi
          rcases truncateTurn_ok hm hSt id with ⟨_, hg⟩ | ⟨_, _, ht, _⟩
          · exact hg i hi
          · rw [hk.boundary, hno] at ht
            cases ht
        right
        rw [hk.boundary] at ht
        refine ⟨next, ht, ⟨min m n, by omega, ?_, hk.trans hste hm⟩, hl⟩
        rw [← below_below]
        exact hne)
      cut s ⟨n₀, hn₀, by rw [hal]; exact hs, ⟨rfl, rfl, rfl, fun _ _ => rfl⟩⟩
  refine ⟨s', fin, n, ?_, hn, hso, hk, ?_, hsi⟩
  · rw [truncate, ok_bind hch, ok_bind hs.boundary]
    exact hru
  intro hf
  have hg := hd hf n hso
  funext i
  by_cases hi : i < id.index
  · rw [below, below, if_pos hi, if_pos (by omega)]
  · rw [hg i (by omega), below, if_neg hi]

end RaftLogCuts
