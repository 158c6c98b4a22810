import Kasumi.RaftLogStore

/-! What a batch leaves at one index. The operations of a batch that concern an index are those
of one entry, so a batch is read index by index, and its size is the sum of the sizes of its
entries. -/
namespace RaftLogRows

open FallibleSteps RaftLogTypes RaftLogStore List

variable {M K : Type}

structure EntryRows (M : Type) where
  header : Option (LogHeader M)
  seed : Option (RetainedSeed M)
  custody : Option Bytes
  body : Option Bytes

def rowsAt (rows : Rows M) (i : ℕ) : EntryRows M :=
  ⟨rows.headers.get i, rows.seeds.get i, rows.custodyLog.get i, rows.log.get i⟩

def target : WriteOp M → Option ℕ
  | .putHeader index _ => some index
  | .putSeed index _ => some index
  | .putCustody index _ => some index
  | .putLog index _ => some index
  | .putPurged _ => none
  | .putCommitted _ => none
  | .deleteHeader index => some index
  | .deleteSeed index => some index
  | .deleteCustody index => some index
  | .deleteLog index => some index

def edit (r : EntryRows M) : WriteOp M → EntryRows M
  | .putHeader _ header => { r with header := some header }
  | .putSeed _ seed => { r with seed := some seed }
  | .putCustody _ body => { r with custody := some body }
  | .putLog _ body => { r with body := some body }
  | .putPurged _ => r
  | .putCommitted _ => r
  | .deleteHeader _ => { r with header := none }
  | .deleteSeed _ => { r with seed := none }
  | .deleteCustody _ => { r with custody := none }
  | .deleteLog _ => { r with body := none }

theorem mem_indices_iff : i ∈ indices start stop ↔ start ≤ i ∧ i ≤ stop := by
  rw [indices, mem_range'_1]
  omega

theorem rowsAt_apply_same (rows : Rows M) (h : target op = some i) :
    rowsAt (rows.apply op) i = edit (rowsAt rows i) op := by
  cases op <;> cases h <;>
    simp [rowsAt, Rows.apply, edit, OrdMap.get_insert_self, OrdMap.get_remove_self]

theorem rowsAt_apply_other (rows : Rows M) (h : target op ≠ some i) :
    rowsAt (rows.apply op) i = rowsAt rows i := by
  cases op with
  | putPurged id => rfl
  | putCommitted id => rfl
  | _ =>
    have hn : i ≠ _ := fun hi => h (congrArg some hi.symm)
    simp [rowsAt, Rows.apply, OrdMap.get_insert_of_ne _ _ hn, OrdMap.get_remove_of_ne _ hn]

theorem rowsAt_applyAll (ops : List (WriteOp M)) (rows : Rows M) (i : ℕ) : rowsAt (rows.applyAll
    ops) i = (ops.filter fun op => target op == some i).foldl edit (rowsAt rows i) := by
  induction ops generalizing rows with
  | nil => rfl
  | cons op ops ih =>
    have hs : rows.applyAll (op :: ops) = (rows.apply op).applyAll ops := rfl
    rw [hs, ih, filter_cons]
    by_cases h : target op = some i
    · rw [beq_iff_eq.mpr h, if_pos rfl, foldl_cons, rowsAt_apply_same rows h]
    · rw [beq_eq_false_iff_ne.mpr h, if_neg Bool.false_ne_true, rowsAt_apply_other rows h]

theorem committed_applyAll (h : ∀ op ∈ ops, target op ≠ none) (rows : Rows M) :
    (rows.applyAll ops).committed = rows.committed ∧ (rows.applyAll ops).purged = rows.purged := by
  induction ops generalizing rows with
  | nil => exact ⟨rfl, rfl⟩
  | cons op ops ih =>
    have hr := ih (fun o ho => h o (mem_cons_of_mem _ ho)) (rows.apply op)
    have hop := h op mem_cons_self
    have hs : rows.applyAll (op :: ops) = (rows.apply op).applyAll ops := rfl
    rw [hs, hr.1, hr.2]
    cases op with
    | putPurged id => exact absurd rfl hop
    | putCommitted id => exact absurd rfl hop
    | _ => exact ⟨rfl, rfl⟩

theorem applyAll_append (rows : Rows M) (a b : List (WriteOp M)) :
    rows.applyAll (a ++ b) = (rows.applyAll a).applyAll b := foldl_append

theorem filter_of_targets (h : ∀ op ∈ ops, target op = some j)
    (i : ℕ) : ops.filter (fun op => target op == some i) = if j = i then ops else [] := by
  by_cases hi : j = i
  · rw [if_pos hi, filter_eq_self]
    intro op ho
    rw [h op ho, hi, beq_self_eq_true]
  rw [if_neg hi, filter_eq_nil_iff]
  intro op ho
  rw [h op ho]
  simpa using hi

/-- Where every item brings operations on an index of its own, those on one index are brought by
the one item that has it. -/
theorem filter_flatMap (key : α → ℕ) (ops : α → List (WriteOp M)) {items : List α}
    (ho : ∀ a ∈ items, ∀ op ∈ ops a, target op = some (key a))
    (hn : (items.map key).Nodup) (i : ℕ) :
    (items.flatMap ops).filter (fun op => target op == some i) =
      ((items.find? fun a => key a == i).map ops).getD [] := by
  induction items with
  | nil => rfl
  | cons a items ih =>
    rw [map_cons, nodup_cons] at hn
    have hr := ih (fun b hb => ho b (mem_cons_of_mem _ hb)) hn.2
    rw [flatMap_cons, filter_append, hr, filter_of_targets (ho a mem_cons_self), find?_cons]
    by_cases ha : key a = i
    · have hno : items.find? (fun b => key b == i) = none := by
        rw [find?_eq_none]
        intro b hb hbi
        exact hn.1 (ha ▸ beq_iff_eq.mp hbi ▸ mem_map_of_mem hb)
      rw [if_pos ha, beq_iff_eq.mpr ha, hno]
      exact append_nil _
    · rw [if_neg ha, beq_eq_false_iff_ne.mpr ha]
      rfl

section Sizes

variable {a b : List (WriteOp M)} {X : Node M K} {rows : Rows M}

theorem validateOperations_ok (hr : ∀ op ∈ ops, validateRecord F op = .ok ())
    (hb : bs + (ops.map (WriteOp.size F)).sum ≤ maxBatch) :
    validateOperations F ops bs = .ok (bs + (ops.map (WriteOp.size F)).sum) := by
  induction ops generalizing bs with
  | nil => rfl
  | cons op ops ih =>
    rw [map_cons, sum_cons] at hb ⊢
    rw [validateOperations, ok_bind (hr op mem_cons_self),
      ok_bind (check_true (decide_eq_true (by omega))),
      ih (fun o ho => hr o (mem_cons_of_mem _ ho)) (by omega), Nat.add_assoc]

structure Fits (F : Formats M) (ops : List (WriteOp M)) : Prop where
  records : ∀ op ∈ ops, validateRecord F op = .ok ()
  bytes : (ops.map (WriteOp.size F)).sum ≤ maxBatch
  count : ops.length ≤ maxOperations

theorem Fits.left (h : Fits F (a ++ b)) : Fits F a := by
  constructor
  · intro op ho
    exact h.records op (mem_append_left _ ho)
  · have := h.bytes
    rw [map_append, sum_append] at this
    omega
  have := h.count
  rw [length_append] at this
  omega

theorem validateBatch_one (h : Fits F ops) : validateBatch F [ops] = .ok () := by
  have hb := h.bytes
  have hc := h.count
  rw [validateBatch, validateDomains, ok_bind (check_true (decide_eq_true (by omega))),
    ok_bind (validateOperations_ok h.records (by omega))]
  rfl

theorem validateBatch_two (h : Fits F (a ++ b)) : validateBatch F [a, b] = .ok () := by
  have hb := h.bytes
  have hc := h.count
  rw [map_append, sum_append] at hb
  rw [length_append] at hc
  have hr : ∀ op ∈ a, validateRecord F op = .ok () := h.left.records
  have hrb : ∀ op ∈ b, validateRecord F op = .ok () :=
    fun op ho => h.records op (mem_append_right _ ho)
  rw [validateBatch, validateDomains, ok_bind (check_true (decide_eq_true (by omega))),
    ok_bind (validateOperations_ok hr (by omega)), validateDomains,
    ok_bind (check_true (decide_eq_true (by omega))),
    ok_bind (validateOperations_ok hrb (by omega))]
  rfl

theorem writeCustody_ok (h : Fits X.toFormats ops) :
    rows.writeCustody X ops = .ok (rows.applyAll ops) := by
  rw [Rows.writeCustody, ok_bind (validateBatch_one h)]
  rfl

theorem writeBatch_ok (h : Fits X.toFormats (a ++ b)) (hd : X.serving = false → a = []) :
    rows.writeBatch X a b = .ok (rows.applyAll (a ++ b)) := by
  unfold Rows.writeBatch
  by_cases hs : X.serving = true
  · rw [if_pos hs, ok_bind (validateBatch_two h)]
    rfl
  have ha := hd (Bool.eq_false_of_not_eq_true hs)
  subst ha
  rw [if_neg hs, ok_bind (check_true isEmpty_nil)]
  exact writeCustody_ok h

theorem namespaceName_bounds (op : WriteOp M) :
    op.namespaceName.isEmpty = false ∧ op.namespaceName.utf8ByteSize ≤ 21 := by
  cases op <;> simp only [WriteOp.namespaceName] <;> decide

theorem keyLength_le (op : WriteOp M) : op.keyLength ≤ 9 := by
  cases op <;> simp only [WriteOp.keyLength] <;> decide

theorem validateRecord_of_small (h : op.valueLength F ≤ maxRecord) :
    validateRecord F op = .ok () := by
  obtain ⟨hn, hsi⟩ := namespaceName_bounds op
  have hk := keyLength_le op
  have hs : (!op.namespaceName.isEmpty && decide (op.namespaceName.utf8ByteSize ≤ 1024)) =
      true := by
    rw [hn, decide_eq_true (by omega)]
    rfl
  rw [validateRecord, ok_bind (check_true hs),
    ok_bind (check_true (decide_eq_true (by omega)))]
  exact check_true (decide_eq_true h)

end Sizes

theorem gather_sum (f : WriteOp M → ℕ) (ws : List (EntryWrites M)) :
    (((gather ws).1 ++ (gather ws).2).map f).sum =
      (ws.map fun w => ((w.1.toList ++ w.2).map f).sum).sum := by
  induction ws with
  | nil => rfl
  | cons w ws ih =>
    simp only [gather, flatMap_cons, map_append, sum_append, map_cons, sum_cons] at ih ⊢
    omega

theorem gather_bytes (F : Formats M) (ws : List (EntryWrites M)) :
    (((gather ws).1 ++ (gather ws).2).map (WriteOp.size F)).sum =
      (ws.map (EntryWrites.bytes F)).sum := gather_sum _ ws

theorem gather_count (ws : List (EntryWrites M)) :
    ((gather ws).1 ++ (gather ws).2).length = (ws.map EntryWrites.count).sum := by
  have ho : ∀ ops : List (WriteOp M), (ops.map fun _ => 1).sum = ops.length := by
    intro ops
    simp
  have h := gather_sum (fun _ : WriteOp M => 1) ws
  rw [ho] at h
  rw [h]
  congr 1
  exact map_congr_left fun w _ => ho _

theorem takeFitting_spec (F : Formats M) (ws : List (EntryWrites M)) (bs count taken : ℕ) :
    ∃ n, takeFitting F ws bs count taken = taken + n ∧ n ≤ ws.length ∧
      (taken = 0 → ws ≠ [] → 0 < n) ∧ (taken + n ≤ 1 ∨
        (n = 0 ∨ (bs + ((ws.take n).map (EntryWrites.bytes F)).sum ≤ appendBatchBytes ∧
          count + ((ws.take n).map EntryWrites.count).sum ≤ maxOperations))) := by
  induction ws generalizing bs count taken with
  | nil => exact ⟨0, rfl, le_rfl, fun _ h => absurd rfl h, Or.inr (Or.inl rfl)⟩
  | cons w ws ih =>
    rw [takeFitting]
    by_cases hs : taken ≠ 0 ∧ (bs + EntryWrites.bytes F w > appendBatchBytes ∨
        count + EntryWrites.count w > maxOperations)
    · rw [if_pos hs]
      exact ⟨0, rfl, Nat.zero_le _, fun h => absurd h hs.1, Or.inr (Or.inl rfl)⟩
    rw [if_neg hs]
    obtain ⟨n, hn, hl, _, hf⟩ := ih (bs + EntryWrites.bytes F w)
      (count + EntryWrites.count w) (taken + 1)
    refine ⟨n + 1, by rw [hn]; omega, Nat.succ_le_succ hl, fun _ _ => Nat.succ_pos n, ?_⟩
    rw [take_succ_cons, map_cons, map_cons, sum_cons, sum_cons]
    by_cases ht : taken = 0
    · rcases hf with ho | hz | hf
      · left
        omega
      · left
        omega
      right
      right
      omega
    right
    right
    have hr : bs + EntryWrites.bytes F w ≤ appendBatchBytes ∧
        count + EntryWrites.count w ≤ maxOperations := by
      by_contra hno
      exact hs ⟨ht, by omega⟩
    rcases hf with ho | hz | hf
    · omega
    · subst hz
      simp only [take_zero, map_nil, sum_nil]
      omega
    · omega

theorem takeFitting_all (F : Formats M) (ws : List (EntryWrites M)) (bs count taken : ℕ)
    (hb : bs + (ws.map (EntryWrites.bytes F)).sum ≤ appendBatchBytes)
    (hc : count + (ws.map EntryWrites.count).sum ≤ maxOperations) :
    takeFitting F ws bs count taken = taken + ws.length := by
  induction ws generalizing bs count taken with
  | nil => rfl
  | cons w ws ih =>
    rw [map_cons, sum_cons] at hb hc
    rw [takeFitting, if_neg (by omega), ih _ _ _ (by omega) (by omega), length_cons]
    omega

end RaftLogRows
