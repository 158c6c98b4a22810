import Kasumi.RaftLogImage

/-! The writes of the entries of one batch: which rows they leave, and when the store takes
them together. -/
namespace RaftLogEntries

open FallibleSteps RaftLogTypes RaftLogStore RaftLogRows RaftLogImage IndexedLog List

variable {M K : Type} {X : Node M K}

/-- An entry that may be logged: its input is not bound elsewhere, the initialization of the
group admits it, its header is valid and the domain it needs is there. -/
structure Acceptable (X : Node M K) (k : K) (e : Entry M) : Prop where
  word : e.logId.Word
  bound : bindApplication X e = .ok ()
  associated : X.validateEntry k e = .ok ()
  described : ∃ h seed, LogHeader.build X.toFormats e (encodeEntry X.toFormats e) = .ok (h, seed) ∧
    h.validate X.toFormats = .ok () ∧ (seed ≠ none → X.bootstrapSha256 k ≠ none) ∧
    (X.serving = true ∨ h.payload.closed = true ∨ e.payload.isNormal = false)

def writesOf (X : Node M K) (k : K) (e : Entry M) : EntryWrites M :=
  match entryWrite X k e with
  | .ok writes => writes
  | .error _ => (none, [])

section OneEntry

variable {k : K} {e : Entry M}

theorem seedRecord_ok (hb : seed ≠ none →
    X.bootstrapSha256 k ≠ none) : ∃ record, seedRecord X k h seed = .ok record ∧
    record.map (fun s => (s.header, s.seed)) = seed.map (Prod.mk h) := by
  cases seed with
  | none => exact ⟨none, rfl, rfl⟩
  | some bs =>
    obtain ⟨digest, hd⟩ := Option.ne_none_iff_exists'.mp (hb (by simp))
    refine ⟨some ⟨h, bs, digest, X.storageBindingSha256 k⟩, ?_, rfl⟩
    rw [seedRecord, ok_bind (demand_some hd)]
    rfl

theorem entryWrite_ok (ha : Acceptable X k e) : ∃ h seed record,
    LogHeader.build X.toFormats e (encodeEntry X.toFormats e) = .ok (h, seed) ∧
    h.validate X.toFormats = .ok () ∧ seedRecord X k h seed = .ok record ∧
    record.map (fun s => (s.header, s.seed)) = seed.map (Prod.mk h) ∧ (X.serving = true ∨
    h.payload.closed = true ∨ e.payload.isNormal = false) ∧
    entryWrite X k e = .ok (recordWrites X e.index h record (encodeEntry X.toFormats e)) := by
  obtain ⟨h, seed, hb, hv, hbo, hdo⟩ := ha.described
  obtain ⟨record, hr, hm⟩ := seedRecord_ok hbo
  refine ⟨h, seed, record, hb, hv, hr, hm, hdo, ?_⟩
  have hc : (X.serving || h.payload.closed || !e.payload.isNormal) = true := by
    rcases hdo with hd | hd | hd <;> simp [hd]
  rw [entryWrite, ok_bind ha.associated, ok_bind hb]
  dsimp only
  rw [ok_bind hv, ok_bind hr, ok_bind (check_true hc)]
  rfl

theorem writesOf_eq (h : entryWrite X k e = .ok w) : writesOf X k e = w := by
  rw [writesOf, h]

theorem entryWrites_ok (ha : ∀ e ∈ es, Acceptable X k e) :
    entryWrites X k es = .ok (es.map (writesOf X k)) := by
  have hwr : ∀ e ∈ es, entryWrite X k e = .ok (writesOf X k e) := by
    intro e he
    obtain ⟨_, _, _, _, _, _, _, _, hw⟩ := entryWrite_ok (ha e he)
    rw [hw, writesOf_eq hw]
  rw [entryWrites, ok_bind (forM_ok fun e he => (ha e he).bound), mapM_ok hwr]

section

variable (ha : Acceptable X k e)

include ha

theorem targets_writesOf :
    ∀ op ∈ (writesOf X k e).1.toList ++ (writesOf X k e).2, target op = some e.index := by
  obtain ⟨h, seed, record, _, _, _, _, _, hw⟩ := entryWrite_ok ha
  rw [writesOf_eq hw]
  intro op ho
  simp only [recordWrites, mem_append, Option.mem_toList, mem_cons, not_mem_nil, or_false] at ho
  rcases ho with ho | ho | ho | ho
  · split at ho
    · cases ho
      split <;> rfl
    · cases ho
  · subst ho
    rfl
  · subst ho
    cases record <;> rfl
  · subst ho
    split <;> rfl

theorem writesOf_custody (hs : X.serving = false) : (writesOf X k e).1 = none := by
  obtain ⟨h, seed, record, _, _, _, _, _, hw⟩ := entryWrite_ok ha
  rw [writesOf_eq hw]
  simp [recordWrites, hs]

theorem edit_writesOf (r : EntryRows M) : ∃ h seed record, LogHeader.build X.toFormats e
    (encodeEntry X.toFormats e) = .ok (h, seed) ∧ seedRecord X k h seed = .ok record ∧ Holds X e h
    seed (((writesOf X k e).1.toList ++ (writesOf X k e).2).foldl edit r) ∧
    (((writesOf X k e).1.toList ++ (writesOf X k e).2).foldl edit r).seed = record := by
  obtain ⟨h, seed, record, hb, hv, hr, hm, hdo, hw⟩ := entryWrite_ok ha
  refine ⟨h, seed, record, hb, hr, ?_, ?_⟩
  · rw [writesOf_eq hw]
    constructor
    · exact hb
    · exact hv
    · cases hc : h.payload.closed <;> cases hs : X.serving <;> cases record <;>
        simp [recordWrites, hc, hs, edit]
    · cases hc : h.payload.closed <;> cases hs : X.serving <;> cases record <;>
        simp [recordWrites, hc, hs, edit]
    · intro hs
      cases hc : h.payload.closed <;> cases record <;> simp [recordWrites, hc, hs, edit]
    · intro hs
      rcases hdo with hd | hd | hd
      · rw [hs] at hd
        cases hd
      · exact .inl hd
      · exact .inr hd
    rw [← hm]
    cases hc : h.payload.closed <;> cases hs : X.serving <;> cases record <;>
      simp [recordWrites, hc, hs, edit]
  rw [writesOf_eq hw]
  cases hc : h.payload.closed <;> cases hs : X.serving <;> cases record <;>
    simp [recordWrites, hc, hs, edit]

theorem body_writesOf (hs : X.serving = false) (r : EntryRows M) :
    (((writesOf X k e).1.toList ++ (writesOf X k e).2).foldl edit r).body = r.body := by
  obtain ⟨h, seed, record, _, _, _, _, _, hw⟩ := entryWrite_ok ha
  rw [writesOf_eq hw]
  cases hc : h.payload.closed <;> cases record <;> simp [recordWrites, hc, hs, edit]

end

end OneEntry

section Part

variable {f : ℕ} {part : List (Entry M)}

theorem nodup_of_consecutive (hc : Consecutive Entry.index f part) :
    (part.map Entry.index).Nodup := by
  rw [nodup_iff_injective_getElem]
  intro a b ha
  have hl : ∀ c : Fin (part.map Entry.index).length, c.val < part.length := by
    intro c
    simpa using c.isLt
  simp only [getElem_map] at ha
  have h1 := hc a.val _ (getElem?_eq_getElem (hl a))
  have h2 := hc b.val _ (getElem?_eq_getElem (hl b))
  apply Fin.ext
  omega

abbrev batchOps (X : Node M K) (k : K) (part : List (Entry M)) (extra : List (WriteOp M)) :
    List (WriteOp M) :=
  (gather (part.map (writesOf X k))).1 ++ ((gather (part.map (writesOf X k))).2 ++ extra)

theorem gather_custody (ha : ∀ e ∈ part, Acceptable X k e) (hs : X.serving = false) :
    (gather (part.map (writesOf X k))).1 = [] := by
  simp only [gather, flatMap_map, flatMap_eq_nil_iff]
  intro e he
  rw [writesOf_custody (ha e he) hs]
  rfl

theorem filter_gather (ha : ∀ e ∈ part, Acceptable X k e) (hc : Consecutive Entry.index f part)
    (hex : ∀ op ∈ extra, target op = none) (i : ℕ) :
    (batchOps X k part extra).filter (fun op => target op == some i) =
      ((part.find? fun e => e.index == i).map fun e =>
        (writesOf X k e).1.toList ++ (writesOf X k e).2).getD [] := by
  have hn := nodup_of_consecutive hc
  have hon := filter_flatMap Entry.index (fun e => (writesOf X k e).1.toList)
    (fun e he op ho => targets_writesOf (ha e he) op (mem_append_left _ ho)) hn i
  have ht := filter_flatMap Entry.index (fun e => (writesOf X k e).2)
    (fun e he op ho => targets_writesOf (ha e he) op (mem_append_right _ ho)) hn i
  have hno : extra.filter (fun op => target op == some i) = [] := by
    rw [filter_eq_nil_iff]
    intro op ho
    rw [hex op ho]
    simp
  simp only [gather, flatMap_map, filter_append, hno, append_nil]
  rw [hon, ht]
  cases part.find? fun e => e.index == i with
  | none => rfl
  | some e => rfl

theorem rowsAt_batch (rows : Rows M) (ha : ∀ e ∈ part, Acceptable X k e)
    (hc : Consecutive Entry.index f part) (he : ∀ op ∈ extra, target op = none) (i : ℕ) :
    rowsAt (rows.applyAll (batchOps X k part extra)) i =
      match part.find? (fun e => e.index == i) with
      | some e => ((writesOf X k e).1.toList ++ (writesOf X k e).2).foldl edit (rowsAt rows i)
      | none => rowsAt rows i := by
  rw [rowsAt_applyAll, filter_gather ha hc he]
  cases part.find? (fun e => e.index == i) with
  | none => rfl
  | some e => rfl

theorem represents_batch (hr : Represents X B S rows log) (ha : ∀ e ∈ part, Acceptable X k e)
    (hc : Consecutive Entry.index f part) (hex : ∀ op ∈ extra, target op = none) :
    Represents X B S (rows.applyAll (batchOps X k part extra)) (put Entry.index log part) := by
  rw [represents_iff] at hr ⊢
  intro i
  rw [rowsAt_batch rows ha hc hex, put]
  cases hf : part.find? (fun e => e.index == i) with
  | none => exact hr i
  | some e =>
    have hac := ha e (mem_of_find?_eq_some hf)
    obtain ⟨h, seed, _, _, _, hh, _⟩ := edit_writesOf hac (rowsAt rows i)
    constructor
    · intro e' he
      cases he
      exact ⟨by simpa using find?_some hf, hac.word, h, seed, hh⟩
    · intro hn
      cases hn
    · intro hn
      cases hn
    · exact fun hs => (body_writesOf hac hs _).trans ((hr i).domain hs)

end Part

section Batching

variable {f : ℕ} {es : List (Entry M)} {α : Type}

theorem pivot_eq (hc : Consecutive Entry.index f es) (p : ℕ) :
    (es.takeWhile fun e => e.index < p).length = min es.length (p - f) := by
  induction es generalizing f with
  | nil => simp
  | cons e es ih =>
    have hh : e.index = f := hc.head
    have hr := ih hc.tail
    rw [takeWhile_cons]
    by_cases he : e.index < p
    · rw [if_pos (decide_eq_true he), length_cons, length_cons, hr]
      omega
    · rw [if_neg (by simpa using he), length_nil, length_cons]
      omega

theorem slice_map (g : α → β) (l : List α) (a b : ℕ) :
    slice (l.map g) a b = (slice l a b).map g := by
  unfold slice
  rw [← map_take, ← map_drop]

theorem slice_ends (hc : Consecutive Entry.index f es) (ha : a < b) (hb : b ≤ es.length)
    (hx : (slice es a b).head? = some x) (hy : (slice es a b).getLast? = some y) :
    x.index = f + a ∧ y.index = f + b - 1 := by
  obtain ⟨h1, h2, _⟩ := (hc.slice a b).endpoints hx hy
  rw [length_slice hb] at h2
  exact ⟨h1, by omega⟩

theorem slice_ne_nil (ha : a < b) (hb : b ≤ l.length) : slice l a b ≠ [] := by
  intro h
  have := length_slice (a := a) hb
  rw [h] at this
  simp at this
  omega

def FitsAlone (X : Node M K) (k : K) (extra : List (WriteOp M)) (e : Entry M) : Prop :=
  Fits X.toFormats ((writesOf X k e).1.toList ++ ((writesOf X k e).2 ++ extra))

theorem fits_batch (hf : ∀ e ∈ part, FitsAlone X k extra e) (hs : part.length ≤ 1 ∨ (extra = [] ∧
      (part.map fun e => EntryWrites.bytes X.toFormats (writesOf X k e)).sum ≤ appendBatchBytes ∧
      (part.map fun e => EntryWrites.count (writesOf X k e)).sum ≤ maxOperations))
    (hn : part ≠ []) : Fits X.toFormats (batchOps X k part extra) := by
  rcases hs with hon | ⟨rfl, hb, hc⟩
  · have hl : part.length = 1 := by
      have := length_pos_iff.mpr hn
      omega
    obtain ⟨e, rfl⟩ := length_eq_one_iff.mp hl
    have := hf e mem_cons_self
    simpa [FitsAlone, batchOps, gather] using this
  rw [batchOps, append_nil]
  constructor
  · intro op ho
    have hm : ∃ e ∈ part, op ∈ (writesOf X k e).1.toList ++ (writesOf X k e).2 := by
      simp only [gather, flatMap_map, mem_append, mem_flatMap] at ho
      rcases ho with ⟨e, he, ho⟩ | ⟨e, he, ho⟩
      · exact ⟨e, he, mem_append_left _ ho⟩
      · exact ⟨e, he, mem_append_right _ ho⟩
    obtain ⟨e, he, ho⟩ := hm
    have := (hf e he).records op
    rw [append_nil] at this
    exact this ho
  · rw [gather_bytes, map_map]
    have : appendBatchBytes ≤ maxBatch := by decide
    exact le_trans hb this
  · rw [gather_count, map_map]
    exact hc

end Batching

end RaftLogEntries
