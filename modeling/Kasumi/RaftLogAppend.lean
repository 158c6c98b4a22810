import Kasumi.RaftLogEntries

/-! Appends. Each batch writes a run of the entries next to what earlier batches wrote: first
forward from where the entries meet the retained span, then backward below it. Whatever batch is
the last one, the rows represent the log with that run written over it. -/
namespace RaftLogAppend

open FallibleSteps RaftLogTypes RaftLogStore RaftLogRows RaftLogImage RaftLogEntries IndexedLog List

variable {M K : Type} {X : Node M K} {B S : ℕ → Prop} {rows : Rows M} {log : Log M}

/-- The store as it is between operations: its rows represent the log, its span is that of the
log, and an accepted retirement still passes its check. -/
structure Sound (X : Node M K) (B S : ℕ → Prop) (s : LogStore M K) (log : Log M) : Prop where
  represents : Represents X B S s.rows log
  spans : Spans log s.retained
  boundary : retiredBoundary X s = .ok s.boundary
  mode : X.serving = false → s.boundary.isSome = true

theorem retiredBoundary_iff : retiredBoundary X s = .ok s.boundary ↔ ∀ bd, s.boundary = some bd →
    ∃ source, s.rows.seeds.get bd.index = some source ∧
    X.validateRetiredBoundary s.controls s.rows.committed bd source = .ok () := by
  unfold retiredBoundary
  cases hb : s.boundary with
  | none =>
    constructor
    · intro _ bd h
      cases h
    · intro _
      rfl
  | some bd =>
    constructor
    · intro h bd' hbd
      cases hbd
      obtain ⟨source, hs, h⟩ := bind_ok h
      obtain ⟨_, hv, _⟩ := bind_ok h
      exact ⟨source, demand_ok hs, hv⟩
    intro h
    obtain ⟨source, hs, hv⟩ := h bd rfl
    dsimp only
    rw [ok_bind (demand_some hs), ok_bind hv]
    rfl

/-- An accepted retirement would still pass its check with this commit cursor. -/
def CommitAccepted (X : Node M K) (s : LogStore M K) (committed : Option LogId) : Prop :=
  ∀ bd source, s.boundary = some bd → s.rows.seeds.get bd.index = some source →
    X.validateRetiredBoundary s.controls committed bd source = .ok ()

theorem retiredBoundary_kept (h : retiredBoundary X s = .ok s.boundary)
    (hb : s'.boundary = s.boundary) (hco : s'.controls = s.controls)
    (hse : ∀ bd, s.boundary = some bd → s'.rows.seeds.get bd.index = s.rows.seeds.get bd.index)
    (hc : s'.rows.committed = s.rows.committed ∨ CommitAccepted X s s'.rows.committed) :
    retiredBoundary X s' = .ok s'.boundary := by
  rw [retiredBoundary_iff] at h ⊢
  intro bd hbd
  rw [hb] at hbd
  obtain ⟨source, hs, hv⟩ := h bd hbd
  refine ⟨source, by rw [hse bd hbd, hs], ?_⟩
  rw [hco]
  rcases hc with hsa | ha
  · rw [hsa]
    exact hv
  · exact ha bd source hbd hs

/-- What an append is given: acceptable consecutive entries that meet the retained ones and, on
a retired store, nothing but closed commands after the retirement and the accepted entry itself
at it. `extra` is what is written along with an entry. -/
structure Appendable (X : Node M K) (s : LogStore M K) (entries : List (Entry M))
    (extra : List (WriteOp M)) : Prop where
  acceptable : ∀ e ∈ entries, Acceptable X s.controls e
  fits : ∀ e ∈ entries, FitsAlone X s.controls extra e
  consecutive : ∃ f, Consecutive Entry.index f entries
  connected : entries = [] ∨ (∀ i, s.rows.headers.get i = none) ∨
    ∃ e ∈ entries, ∃ i, s.rows.headers.get i ≠ none ∧ e.index ≤ i + 1 ∧ i ≤ e.index + 1
  afterBoundary : ∀ bd, s.boundary = some bd → ∀ e ∈ entries, bd.index < e.index →
    ∀ command, e.payload = .normal command → ∃ bytes, command = .custody bytes
  atBoundary : ∀ bd, s.boundary = some bd → ∀ e ∈ entries, e.index = bd.index →
    ∀ h seed record, LogHeader.build X.toFormats e (encodeEntry X.toFormats e) = .ok (h, seed) →
      seedRecord X s.controls h seed = .ok record → s.rows.seeds.get bd.index = record

section Checks

variable {s : LogStore M K}

theorem touches_of_connected (hs : Sound X B S s log) (ha : Appendable X s es extra) :
    Touches s.retained es := by
  intro span hspa a b hf hla
  have hsp := hs.spans
  rw [hspa] at hsp
  obtain ⟨p, q, hx, rfl⟩ := hsp
  obtain ⟨f, hc⟩ := ha.consecutive
  obtain ⟨hka, hkb, hl⟩ := hc.endpoints hf hla
  rcases ha.connected with hn | hem | ⟨e, he, i, hi, hei, hie⟩
  · rw [hn] at hl
    cases hl
  · obtain ⟨h, _, hh⟩ := hs.represents.holds _ p hx.start
    have hg : s.rows.headers.get p.index = some h := hh.header
    rw [hem] at hg
    cases hg
  obtain ⟨j, hj, heq⟩ := getElem_of_mem he
  have hk : e.index = f + j := hc j e (by rw [getElem?_eq_getElem hj, heq])
  obtain ⟨h, hg⟩ := Option.ne_none_iff_exists'.mp hi
  obtain ⟨e', _, he', _⟩ := hs.represents.header_some hg
  have hr : p.index ≤ i ∧ i ≤ q.index := (hx.filled i).mp (by rw [he']; rfl)
  change a.index ≤ q.index + 1 ∧ p.index ≤ b.index + 1
  omega

theorem custodyCommand_custody (ha : Acceptable X k e) (hp : e.payload = .normal (.custody bs)) :
    custodyCommand X.toFormats (.custody bs) = .ok true := by
  obtain ⟨h, seed, hb, _⟩ := ha.described
  obtain ⟨hpa, _⟩ := build_ok hb
  rw [hp] at hpa
  obtain ⟨closed, hc, _⟩ := bind_ok hpa
  obtain ⟨u, hu, hr⟩ := bind_ok hc
  rw [custodyCommand, ok_bind hu]
  rfl

section

variable (hs : Sound X B S s log)

include hs

theorem checkBoundary_ok (ha : Appendable X s es extra) :
    checkBoundary X s.rows es s.boundary = .ok () := by
  unfold checkBoundary
  cases hb : s.boundary with
  | none => rfl
  | some bd =>
    have haf : ∀ e ∈ es, checkAfterBoundary X bd e = .ok () := by
      intro e he
      unfold checkAfterBoundary
      cases hp : e.payload with
      | normal cmd =>
        dsimp only
        split
        · rename_i hl
          obtain ⟨bs, rfl⟩ := ha.afterBoundary bd hb e he hl cmd hp
          rw [ok_bind (custodyCommand_custody (ha.acceptable e he) hp)]
          rfl
        · rfl
      | _ => rfl
    have hat : ∀ e ∈ es, checkAtBoundary X s.rows bd e = .ok () := by
      intro e he
      unfold checkAtBoundary
      split
      · rename_i heq
        obtain ⟨h, seed, record, hbu, _, hr, hm, _⟩ :=
          entryWrite_ok (ha.acceptable e he)
        have hse := ha.atBoundary bd hb e he heq h seed record hbu hr
        obtain ⟨source, hso, _⟩ := (retiredBoundary_iff.mp hs.boundary) bd hb
        rw [hso] at hse
        subst hse
        have hh : source.header = h := by
          cases seed with
          | none => cases hm
          | some bs =>
            simp only [Option.map_some, Option.some.injEq, Prod.mk.injEq] at hm
            exact hm.1
        rw [heq, ok_bind (demand_some hso), hh]
        exact checkEntry_built hbu
      · rfl
    dsimp only
    rw [ok_bind (forM_ok haf), forM_ok hat]

theorem checkAppend_ok (ha : Appendable X s es extra)
    (hc : commitLocal = true → positionLt s.rows.committed (es.head?.map Entry.logId) = true) :
    checkAppend X s es commitLocal = .ok () := by
  rw [checkAppend, ok_bind hs.boundary, ok_bind (checkBoundary_ok hs ha)]
  cases commitLocal with
  | false => rfl
  | true => exact check_true (hc rfl)

theorem new_ok (ha : Appendable X s es extra) : EntryBatches.new s.retained es =
      .ok ⟨pivotOf s.retained es, es.length, pivotOf s.retained es⟩ := by
  unfold EntryBatches.new
  cases hen : es with
  | nil =>
    have : pivotOf s.retained ([] : List (Entry M)) = 0 := by
      cases s.retained <;> rfl
    rw [this]
    rfl
  | cons e rest =>
    rw [← hen]
    obtain ⟨f, hc⟩ := ha.consecutive
    have hne : es ≠ [] := by rw [hen]; exact cons_ne_nil _ _
    obtain ⟨next, hn, _⟩ := including_ok hs.spans hc (fun e he => (ha.acceptable e he).word.2.2)
      hne (touches_of_connected hs ha)
    rw [if_neg (by simpa using hne), ok_bind hn]
    rfl

end

end Checks

structure Progress (X : Node M K) (B S : ℕ → Prop) (s : LogStore M K) (log : Log M)
    (entries : List (Entry M)) (commitLocal : Bool) (a b : ℕ)
    (state : LogStore M K × EntryBatches) : Prop where
  order : a ≤ b ∧ b ≤ entries.length
  batches : state.2 = ⟨b, entries.length, a⟩
  represents : Represents X B S state.1.rows (put Entry.index log (slice entries a b))
  spans : Spans (put Entry.index log (slice entries a b)) state.1.retained
  untouched : a = b → a = pivotOf s.retained entries ∧ state.1.retained = s.retained
  boundary : state.1.boundary = s.boundary
  controls : state.1.controls = s.controls
  seed : ∀ bd, s.boundary = some bd →
    state.1.rows.seeds.get bd.index = s.rows.seeds.get bd.index
  committed : state.1.rows.committed = s.rows.committed ∨
    commitLocal = true ∧ state.1.rows.committed = entries.head?.map Entry.logId
  purged : state.1.rows.purged = s.rows.purged

theorem touches_next (hs : Sound X B S s log)
    (ha : Appendable X s es (committedWrites es commitLocal)) (hc : Consecutive Entry.index f es)
    (hp : Progress X B S s log es commitLocal a b state) (hxy : x < y) (hy : y ≤ es.length)
    (hnex : x = b ∨ (y = a ∧ b = es.length)) : Touches state.1.retained (slice es x y) := by
  obtain ⟨hab, hb⟩ := hp.order
  intro span hspa u v hu hv
  obtain ⟨hk, hkv⟩ := slice_ends hc hxy hy hu hv
  have hsp := hp.spans
  rw [hspa] at hsp
  obtain ⟨p, q, hx, rfl⟩ := hsp
  change u.index ≤ q.index + 1 ∧ p.index ≤ v.index + 1
  by_cases hlt : a < b
  · -- the run written so far lies within the span
    have hpr : ∀ j, a ≤ j → j < b → p.index ≤ f + j ∧ f + j ≤ q.index := by
      intro j haj hj
      apply (hx.filled _).mp
      rw [(hc.slice a b).put_apply, if_pos (by rw [length_slice hb]; omega), getElem?_slice]
      have : f + j - (f + a) = j - a := by omega
      rw [this, if_pos (by omega), getElem?_eq_getElem (by omega)]
      rfl
    rcases hnex with rfl | ⟨rfl, _⟩
    · have := hpr (x - 1) (by omega) (by omega)
      omega
    · have := hpr y le_rfl hlt
      omega
  -- nothing is written yet, and the run starts where the entries meet the span
  have he : a = b := by omega
  obtain ⟨hpi, hsa⟩ := hp.untouched he
  rw [hsa] at hspa
  have hn : es ≠ [] := by
    intro hni
    rw [hni] at hy
    simp only [length_nil] at hy
    omega
  obtain ⟨hr, hl⟩ := touches_of_connected hs ha _ hspa _ _
    (head?_eq_some_head hn) (getLast?_eq_some_getLast hn)
  obtain ⟨hkf, hkl, hlen⟩ := hc.endpoints (head?_eq_some_head hn)
    (getLast?_eq_some_getLast hn)
  have hm : a = min es.length (p.index - f) := by
    rw [hpi, hspa]
    exact pivot_eq hc p.index
  have hle : p.index ≤ q.index := hx.le
  change (es.head hn).index ≤ q.index + 1 at hr
  change p.index ≤ (es.getLast hn).index + 1 at hl
  rcases hnex with hf | ⟨hbw, hd⟩ <;> omega

theorem target_committedWrites (es : List (Entry M)) (commitLocal : Bool) :
    ∀ op ∈ committedWrites es commitLocal, target op = none := by
  intro op ho
  unfold committedWrites at ho
  split at ho
  · rw [mem_singleton] at ho
    subst ho
    rfl
  · cases ho

theorem committed_batch (es : List (Entry M)) (commitLocal : Bool) (rows : Rows M)
    (ha : ∀ e ∈ part, Acceptable X k e) :
    let after := rows.applyAll (batchOps X k part (committedWrites es commitLocal))
    (after.committed = rows.committed ∨
        commitLocal = true ∧ after.committed = es.head?.map Entry.logId) ∧
      after.purged = rows.purged := by
  have ht : ∀ op ∈ (gather (part.map (writesOf X k))).1 ++
      (gather (part.map (writesOf X k))).2, target op ≠ none := by
    intro op ho
    simp only [gather, flatMap_map, mem_append, mem_flatMap] at ho
    rcases ho with ⟨e, he, ho⟩ | ⟨e, he, ho⟩
    · rw [targets_writesOf (ha e he) op (mem_append_left _ ho)]
      simp
    · rw [targets_writesOf (ha e he) op (mem_append_right _ ho)]
      simp
  intro after
  have haf : after = (rows.applyAll ((gather (part.map (writesOf X k))).1 ++
      (gather (part.map (writesOf X k))).2)).applyAll (committedWrites es commitLocal) := by
    rw [← applyAll_append, append_assoc]
  obtain ⟨hc, hp⟩ := committed_applyAll ht rows
  rw [haf, ← hc, ← hp]
  generalize rows.applyAll _ = middle
  unfold committedWrites
  split
  · exact ⟨Or.inr ⟨rfl, rfl⟩, rfl⟩
  · exact ⟨Or.inl rfl, rfl⟩

/-- The rows of the retired boundary are written again only by the entry accepted there. -/
theorem seed_batch (ha : Appendable X s es fit)
    (hp : ∀ e ∈ part, e ∈ es) (hc : Consecutive Entry.index f part)
    (hex : ∀ op ∈ extra, target op = none)
    (hro : ∀ bd, s.boundary = some bd → rows.seeds.get bd.index = s.rows.seeds.get bd.index)
    (hbd : s.boundary = some bd) :
    (rows.applyAll (batchOps X s.controls part extra)).seeds.get bd.index =
      s.rows.seeds.get bd.index := by
  have hac : ∀ e ∈ part, Acceptable X s.controls e :=
    fun e he => ha.acceptable e (hp e he)
  have hat := congrArg EntryRows.seed (rowsAt_batch rows hac hc hex bd.index)
  refine Eq.trans hat ?_
  cases hf : part.find? (fun e => e.index == bd.index) with
  | none => exact hro bd hbd
  | some e =>
    have hm := mem_of_find?_eq_some hf
    have hk : e.index = bd.index := by simpa using find?_some hf
    obtain ⟨h, seed, record, hb, hr, _, hs⟩ :=
      edit_writesOf (hac e hm) (rowsAt rows bd.index)
    rw [hs]
    exact (ha.atBoundary bd hbd e (hp e hm) hk h seed record hb hr).symm

/-- What the next batch takes: a run next to the one written, of at least one entry, that the
store takes. -/
theorem nextRange_spec (ha : Appendable X s es (committedWrites es commitLocal))
    (ho : commitLocal = true → es.length = 1) (hab : a ≤ b) (hb : b ≤ es.length) :
    ((a = 0 ∧ b = es.length) ∧ EntryBatches.nextRange X.toFormats ⟨b, es.length, a⟩
        (es.map (writesOf X s.controls)) = none) ∨ ∃ x y, x < y ∧ y ≤ es.length ∧
        (EntryBatches.nextRange X.toFormats ⟨b, es.length, a⟩ (es.map (writesOf X s.controls)) =
          some ((x, y), ⟨max b y, es.length, min a x⟩)) ∧ (x = b ∨ (y = a ∧ b = es.length)) ∧
        Fits X.toFormats (batchOps X s.controls (slice es x y)
          (committedWrites es commitLocal)) := by
  set ws := es.map (writesOf X s.controls) with hws
  have hfi : ∀ x y, x < y → y ≤ es.length → (y - x ≤ 1 ∨ (((slice es x y).map fun e =>
            EntryWrites.bytes X.toFormats (writesOf X s.controls e)).sum ≤ appendBatchBytes ∧
          ((slice es x y).map fun e =>
            EntryWrites.count (writesOf X s.controls e)).sum ≤ maxOperations)) →
      Fits X.toFormats (batchOps X s.controls (slice es x y)
        (committedWrites es commitLocal)) := by
    intro x y hx hy hs
    apply fits_batch
    · intro e he
      exact ha.fits e (mem_of_mem_slice he)
    · rw [length_slice hy]
      by_cases hle : y - x ≤ 1
      · exact .inl hle
      right
      cases hc : commitLocal with
      | true =>
        have := ho hc
        omega
      | false =>
        refine ⟨rfl, ?_⟩
        rcases hs with h | h
        · exact absurd h hle
        · exact h
    · exact slice_ne_nil hx hy
  unfold EntryBatches.nextRange
  by_cases hf : b < es.length
  · right
    rw [if_pos hf]
    obtain ⟨n, hn, hle, hp, hs⟩ := takeFitting_spec X.toFormats
      (slice ws b es.length) 0 0 0
    have hl : (slice ws b es.length).length = es.length - b := length_slice (by simp [hws])
    have hn0 : 0 < n := hp rfl (slice_ne_nil hf (by simp [hws]))
    refine ⟨b, b + n, by omega, by omega, ?_, Or.inl rfl, hfi _ _ (by omega) (by omega) ?_⟩
    · rw [show (ws.take es.length).drop b =
        slice ws b es.length from rfl, hn, Nat.zero_add,
        Nat.max_eq_right (by omega), Nat.min_eq_left hab]
    have ht : (slice ws b es.length).take n =
        (slice es b (b + n)).map (writesOf X s.controls) := by
      rw [← slice_map, slice, slice, take_drop, take_take,
        Nat.min_eq_left (by omega)]
    rcases hs with h | h | h
    · left
      omega
    · left
      omega
    right
    rw [ht, map_map, map_map] at h
    simpa [Function.comp_def] using h
  have hbl : b = es.length := by omega
  rw [if_neg hf]
  by_cases hz : a = 0
  · left
    subst hz
    exact ⟨⟨rfl, hbl⟩, rfl⟩
  right
  rw [if_pos hz]
  obtain ⟨n, hn, hle, hp, hs⟩ := takeFitting_spec X.toFormats
    (ws.take a).reverse 0 0 0
  have hl : (ws.take a).reverse.length = a := by
    simp [hws]
    omega
  have hne : (ws.take a).reverse ≠ [] := by
    intro hni
    rw [hni] at hl
    exact hz hl.symm
  have hn0 : 0 < n := hp rfl hne
  refine ⟨a - n, a, by omega, by omega, ?_, Or.inr ⟨rfl, hbl⟩,
    hfi _ _ (by omega) (by omega) ?_⟩
  · rw [hn, Nat.zero_add, Nat.max_eq_left hab, Nat.min_eq_right (by omega)]
  have ht : ((ws.take a).reverse.take n) =
      ((slice es (a - n) a).map (writesOf X s.controls)).reverse := by
    rw [take_reverse, ← slice_map, slice]
    congr 2
    rw [length_take, length_map, Nat.min_eq_left (by omega)]
  rcases hs with h | h | h
  · left
    omega
  · left
    omega
  right
  rw [ht, map_reverse, map_reverse, sum_reverse, sum_reverse,
    map_map, map_map] at h
  simpa [Function.comp_def] using h

theorem put_next (hc : Consecutive Entry.index f es) (ha : a ≤ b) (hx : x < y)
    (hn : x = b ∨ (y = a ∧ b = es.length)) : put Entry.index (put Entry.index log (slice es a b))
    (slice es x y) = put Entry.index log (slice es (min a x) (max b y)) := by
  rcases hn with rfl | ⟨rfl, _⟩
  · have hj := slice_append es ha hx.le
    have hcj : Consecutive Entry.index (f + a) (slice es a x ++ slice es x y) :=
      hj ▸ hc.slice a y
    rw [(put_append log hcj).1, hj, Nat.min_eq_left ha, Nat.max_eq_right hx.le]
  have hj := slice_append es hx.le ha
  have hcj : Consecutive Entry.index (f + x) (slice es x y ++ slice es y b) :=
    hj ▸ hc.slice x b
  rw [(put_append log hcj).2, hj, Nat.min_eq_right hx.le, Nat.max_eq_left ha]

theorem appendTurn_ok (hs : Sound X B S s log)
    (ha : Appendable X s es (committedWrites es commitLocal))
    (ho : commitLocal = true → es.length = 1) (hc : Consecutive Entry.index f es)
    (hp : Progress X B S s log es commitLocal a b state) :
    (appendTurn X es (es.map (writesOf X s.controls)) commitLocal state = .ok none ∧ a = 0 ∧
    b = es.length) ∨ ∃ next x y,
    appendTurn X es (es.map (writesOf X s.controls)) commitLocal state = .ok (some next) ∧ x ≤ a ∧
    b ≤ y ∧ y - x > b - a ∧ Progress X B S s log es commitLocal x y next := by
  obtain ⟨hab, hb⟩ := hp.order
  unfold appendTurn
  rw [hp.batches]
  rcases nextRange_spec ha ho hab hb with ⟨⟨h0, hl⟩, hno⟩ |
      ⟨x, y, hx, hy, hr, hn, hf⟩
  · left
    rw [hno]
    exact ⟨rfl, h0, hl⟩
  right
  have hcp := hc.slice x y
  have hme : ∀ e ∈ slice es x y, e ∈ es := fun e he => mem_of_mem_slice he
  have hac : ∀ e ∈ slice es x y, Acceptable X s.controls e :=
    fun e he => ha.acceptable e (hme e he)
  obtain ⟨span, hspa, hsp, _⟩ := including_ok hp.spans hcp
    (fun e he => (hac e he).word.2.2) (slice_ne_nil hx hy)
    (touches_next hs ha hc hp hx hy hn)
  obtain ⟨hco, hpu⟩ := committed_batch es commitLocal state.1.rows hac
  refine ⟨({ state.1 with
      rows := state.1.rows.applyAll
        (batchOps X s.controls (slice es x y) (committedWrites es commitLocal))
      retained := some span }, ⟨max b y, es.length, min a x⟩),
    min a x, max b y, ?_, Nat.min_le_left _ _, Nat.le_max_left _ _, ?_, ?_⟩
  · rw [hr]
    dsimp only
    rw [show ((es.map (writesOf X s.controls)).take y).drop x =
        slice (es.map (writesOf X s.controls)) x y from rfl, slice_map,
      show (es.take y).drop x = slice es x y from rfl, ok_bind hspa,
      ok_bind (writeBatch_ok hf (gather_custody hac))]
    rfl
  · omega
  constructor
  · omega
  · rfl
  · rw [← put_next hc hab hx hn]
    exact represents_batch hp.represents hac hcp
      (target_committedWrites es commitLocal)
  · rw [← put_next hc hab hx hn]
    exact hsp
  · intro heq
    omega
  · exact hp.boundary
  · exact hp.controls
  · intro bd hbd
    exact seed_batch ha hme hcp (target_committedWrites es commitLocal) hp.seed hbd
  · rcases hco with hsa | hm
    · rcases hp.committed with hold | hold
      · exact .inl (hsa.trans hold)
      · exact .inr ⟨hold.1, hsa.trans hold.2⟩
    · exact .inr hm
  · exact hpu.trans hp.purged

theorem Progress.sound (hs : Sound X B S s log) (hc : commitLocal = true →
    CommitAccepted X s (es.head?.map Entry.logId))
    (hp : Progress X B S s log es commitLocal a b state) :
    Sound X B S state.1 (put Entry.index log (slice es a b)) := by
  constructor
  · exact hp.represents
  · exact hp.spans
  · apply retiredBoundary_kept hs.boundary hp.boundary hp.controls hp.seed
    rcases hp.committed with hsa | ⟨hl, hm⟩
    · exact .inl hsa
    right
    rw [hm]
    exact hc hl
  · rw [hp.boundary]
    exact hs.mode

theorem progress_start (es : List (Entry M)) (commitLocal : Bool) (hs : Sound X B S s log) :
    Progress X B S s log es commitLocal (pivotOf s.retained es) (pivotOf s.retained es)
    (s, ⟨pivotOf s.retained es, es.length, pivotOf s.retained es⟩) := by
  have hl : pivotOf s.retained es ≤ es.length := by
    cases s.retained with
    | none => exact Nat.zero_le _
    | some span => exact (takeWhile_sublist _).length_le
  constructor
  · exact ⟨le_rfl, hl⟩
  · rfl
  · rw [slice_self, put_nil]
    exact hs.represents
  · rw [slice_self, put_nil]
    exact hs.spans
  · intro _
    exact ⟨rfl, rfl⟩
  · rfl
  · rfl
  · intro _ _
    rfl
  · exact .inl rfl
  · rfl

/-- An append never fails, wherever it is cut, and leaves a run of the entries written: all of
them if it returns. -/
theorem append_ok (hs : Sound X B S s log) (ha : Appendable X s es (committedWrites es commitLocal))
    (ho : commitLocal = true → es.length = 1) (had : commitLocal = true →
    positionLt s.rows.committed (es.head?.map Entry.logId) = true) (hco : commitLocal = true →
    CommitAccepted X s (es.head?.map Entry.logId)) (cut : ℕ) : ∃ s' fin a b,
    append X es commitLocal cut s = .ok (s', fin) ∧
    Sound X B S s' (put Entry.index log (slice es a b)) ∧ (fin = true → slice es a b = es) ∧
    (es.length < cut → fin = true) ∧ s'.boundary = s.boundary := by
  obtain ⟨f, hc⟩ := ha.consecutive
  have hlo : (!commitLocal || es.length == 1) = true := by
    cases hb : commitLocal with
    | false => rfl
    | true => simpa using ho hb
  obtain ⟨state, fin, hr, ⟨a, b, hp⟩, hd, hsi⟩ :=
    CutLoops.run_spec
      (appendTurn X es (es.map (writesOf X s.controls)) commitLocal)
      (fun state => ∃ a b, Progress X B S s log es commitLocal a b state)
      (fun state => state.2 = ⟨es.length, es.length, 0⟩)
      (fun state => state.2.forwardEnd - state.2.forwardStart + state.2.backwardEnd)
      (by
        rintro state ⟨a, b, hp⟩
        rcases appendTurn_ok hs ha ho hc hp with ⟨hno, h0, hl⟩ |
            ⟨next, x, y, ht, hx, hby, hm, hn⟩
        · left
          refine ⟨hno, ?_⟩
          rw [hp.batches, h0, hl]
        right
        refine ⟨next, ht, ⟨x, y, hn⟩, ?_⟩
        rw [hp.batches, hn.batches]
        dsimp only
        have := hp.order
        have := hn.order
        omega)
      cut _ ⟨_, _, progress_start es commitLocal hs⟩
  refine ⟨state.1, fin, a, b, ?_, hp.sound hs hco, ?_, ?_, hp.boundary⟩
  · rw [append, ok_bind (check_true hlo), ok_bind (entryWrites_ok ha.acceptable),
      ok_bind (checkAppend_ok hs ha had), ok_bind (new_ok hs ha), ok_bind hr]
    rfl
  · intro hf
    have := hd hf
    rw [hp.batches] at this
    injection this with h1 _ h3
    rw [h1, h3, slice_all]
  intro hlt
  apply hsi
  dsimp only
  have := (progress_start es commitLocal hs).order
  omega

end RaftLogAppend
