import Kasumi.DocumentCommits

/-! Ordinary mutations over a run. The receipts of every generation extend those of the one
before, so a pair of principal and idempotency key is recorded at most once. A mutation of a
recorded pair is answered by its row, and no document moves. -/
namespace ReceiptHistory

open TenantTypes PermanentRows FallibleSteps TenantFrames EffectFrames PublicationExits Publications
  Rejections DocumentCommits Genesis Engine List

variable {Idx Acc : Type} (X : Externals Idx Acc)

def rowPair (row : ReceiptRow) : String × String :=
  (row.receipt.scope.principal, row.receipt.idempotencyKey)

def mutationPair (command : Command) (batch : MutationBatch) : String × String :=
  (command.context.principal, batch.idempotencyKey)

/-- The receipts of a generation are `rows`, each of which its state accepts. -/
structure Receipts (g : Generation Idx Acc) (rows : List ReceiptRow) : Prop where
  selected : ChainTable.Selected (ReceiptView.layout X g.receipts)
    (X.sha (.receiptRoot g.state.tenant g.receipts.head.originIncarnation)) g.receipts.table rows
  count : g.receipts.head.count = rows.length
  digest : g.receipts.head.sha256 = ChainTable.lastDigest (ReceiptView.layout X g.receipts)
    (X.sha (.receiptRoot g.state.tenant g.receipts.head.originIncarnation)) rows
  last : ∀ row, rows.getLast? = some row →
    row.applied.revision = g.receipts.head.lastAppliedRevision
  head : g.state.mutationReceiptHead = g.receipts.head
  valid : ∀ row ∈ rows, ∃ bytes, ReceiptRow.validate X row g.state = .ok bytes

structure Unmoved (g g' : Generation Idx Acc) : Prop where
  collections : g'.state.collections = g.state.collections
  documentCount : g'.state.documentCount = g.state.documentCount
  logicalBytes : g'.state.logicalBytes = g.state.logicalBytes
  changeFeed : g'.state.changeFeed = g.state.changeFeed
  head : g'.state.mutationReceiptHead = g.state.mutationReceiptHead
  indexes : g'.indexes = g.indexes
  receipts : g'.receipts = g.receipts

variable {X} {contents : StoredDocument → Document} {g : Generation Idx Acc}
  {rows : List ReceiptRow}

theorem position_later (hg : grounds t = grounds (atRevision s r)) (hle : s.revision ≤ r)
    (h : AppliedIdentity.validateOriginalPosition applied s = .ok pos) : ∃ latest,
    AppliedIdentity.validateOriginalPosition applied t = .ok (pos.1, latest) ∧ pos.2 ≤ latest := by
  have hi : t.incarnation = s.incarnation := congrArg Fixed.incarnation hg
  have hba : t.revisionBase = s.revisionBase := congrArg Fixed.revisionBase hg
  have hl : t.restoreLineage = s.restoreLineage := congrArg Fixed.restoreLineage hg
  have hr : t.revision = r := congrArg Fixed.revision hg
  unfold AppliedIdentity.validateOriginalPosition at h ⊢
  obtain ⟨_, hv, h⟩ := bind_ok h
  obtain ⟨found, hb, h⟩ := bind_ok h
  obtain ⟨_, hin, h⟩ := bind_ok h
  obtain ⟨_, hsu, h⟩ := bind_ok h
  cases h
  have hin := ensure_ok hin
  simp only [Bool.and_eq_true, decide_eq_true_eq] at hin
  -- The last revision moves for rows of the present incarnation only.
  have hlat : ∃ latest, AppliedIdentity.bounds applied t = .ok (pos.1, latest) ∧
      pos.2 ≤ latest := by
    unfold AppliedIdentity.bounds at hb ⊢
    rw [hi, hba, hr, hl]
    by_cases hs : applied.incarnation = s.incarnation
    · rw [if_pos hs] at hb ⊢
      cases hb
      exact ⟨r, rfl, hle⟩
    · rw [if_neg hs] at hb ⊢
      exact ⟨pos.2, hb, le_rfl⟩
  obtain ⟨latest, hb, hla⟩ := hlat
  have hin' : (decide (applied.revision > pos.1) && decide (applied.revision ≤ latest)) =
      true := by
    simp only [Bool.and_eq_true, decide_eq_true_eq]
    omega
  refine ⟨latest, ?_, hla⟩
  rw [ok_bind hv, ok_bind hb]
  unfold PermanentRows.ensure at hsu ⊢
  rw [if_pos hin']
  exact ok_bind hsu

theorem identity_later (hl : most ≤ n)
    (h : StoredReceipt.validateIdentity X rcpt key tenant genesis most = .ok ()) :
    StoredReceipt.validateIdentity X rcpt key tenant genesis n = .ok () := by
  unfold StoredReceipt.validateIdentity at h ⊢
  obtain ⟨_, h₁, h⟩ := bind_ok h
  obtain ⟨_, h₂, h⟩ := bind_ok h
  obtain ⟨_, h₃, h⟩ := bind_ok h
  obtain ⟨_, h₄, h⟩ := bind_ok h
  obtain ⟨_, h₅, h⟩ := bind_ok h
  rw [ok_bind h₁, ok_bind h₂, ok_bind h₃, ok_bind h₄, ok_bind h₅]
  have h := require_ok h
  apply if_pos
  simp only [Bool.not_or, Bool.and_eq_true, Bool.not_eq_true', decide_eq_false_iff_not] at h ⊢
  exact ⟨⟨h.1.1, by omega⟩, h.2⟩

theorem validate_later (hg : grounds t = grounds (atRevision s r)) (hle : s.revision ≤ r)
    (h : ReceiptRow.validate X row s = .ok bs) : ReceiptRow.validate X row t = .ok bs := by
  have ht : t.tenant = s.tenant := congrArg Fixed.tenant hg
  unfold ReceiptRow.validate at h ⊢
  obtain ⟨_, hk, h⟩ := bind_ok h
  obtain ⟨pos, hp, h⟩ := bind_ok h
  obtain ⟨_, hi, h⟩ := bind_ok h
  obtain ⟨latest, hp, hl⟩ := position_later hg hle hp
  have hi := identity_later hl (lift_ok hi)
  rw [ok_bind hk, ok_bind hp, ht, hi]
  exact h

section

variable (h : Receipts X g rows)

include h

theorem Receipts.key_eq (hr : row ∈ rows) :
    X.sha (.identity row.receipt.scope.principal row.receipt.idempotencyKey) = row.key := by
  obtain ⟨bs, hv⟩ := h.valid row hr
  obtain ⟨_, _, _, pos, _, hi⟩ := receiptRow_ok hv
  exact (receiptIdentity_ok hi).2.1

theorem Receipts.get_row (hro : row ∈ rows) :
    ReceiptView.get X g.receipts row.key = .ok (some row) := by
  have hr := h.selected.get_mem hro fun last hl => decide_eq_true (h.last last hl)
  rw [← h.count, ← h.digest] at hr
  have hk : (ReceiptView.layout X g.receipts).key row = row.key := rfl
  rw [hk] at hr
  rw [ReceiptView.get, hr]
  rfl

theorem Receipts.unique (hro : row ∈ rows) (ho : other ∈ rows)
    (hpa : rowPair row = rowPair other) : row = other := by
  obtain ⟨hp, hi⟩ := Prod.mk.inj hpa
  have hk : row.key = other.key := by
    rw [← h.key_eq hro, ← h.key_eq ho, hp, hi]
  have hr := h.get_row hro
  rw [hk, h.get_row ho] at hr
  exact (Option.some.inj (Except.ok.inj hr)).symm

theorem Receipts.get_pair (hr : row ∈ rows) (hpa : mutationPair cmd batch = rowPair row) :
    ReceiptView.get X g.receipts (batchKey X cmd batch) = .ok (some row) := by
  obtain ⟨hp, hi⟩ := Prod.mk.inj hpa
  rw [batchKey, hp, hi, h.key_eq hr]
  exact h.get_row hr

end

theorem selected_layout (h : ChainTable.Selected (receiptLayout X origin a) root tab rows) :
    ChainTable.Selected (receiptLayout X origin b) root tab rows :=
  ⟨h.ordinal, h.linked, h.rooted, h.valid, h.stored, h.point, h.beyond⟩

theorem advanceReceipt_ok {head : MutationReceiptHead}
    (h : advanceReceipt X head row bs = .ok new) :
    row.ordinal = head.count + 1 ∧ row.previousSha256 = head.sha256 ∧ new = { head with
        encodedBytes := head.encodedBytes + bs
        count := row.ordinal
        lastAppliedRevision := row.applied.revision
        sha256 := X.sha (.receiptRow row) } := by
  obtain ⟨count, hco, h⟩ := bind_ok h
  obtain ⟨_, hc, h⟩ := bind_ok h
  obtain ⟨encoded, he, h⟩ := bind_ok h
  cases h
  have hco := (checkedAdd_some (context_ok hco)).1
  have he := (checkedAdd_some (context_ok he)).1
  have hc := ensure_ok hc
  simp only [Bool.and_eq_true, decide_eq_true_eq] at hc
  exact ⟨by rw [hc.1.1, hco], hc.1.2, by rw [he]⟩

section

variable (h : Receipts X g rows)

include h

theorem Receipts.kept {r : ℕ} (hr : g'.receipts = g.receipts) (hf : fixed g'.state = fixed
    (atRevision g.state r)) (hl : g.state.revision ≤ r) : Receipts X g' rows := by
  have ht : g'.state.tenant = g.state.tenant := congrArg Fixed.tenant hf
  have hh : g'.state.mutationReceiptHead = g.state.mutationReceiptHead :=
    congrArg Fixed.mutationReceiptHead hf
  constructor
  · rw [hr, ht]
    exact h.selected
  · rw [hr]
    exact h.count
  · rw [hr, ht]
    exact h.digest
  · rw [hr]
    exact h.last
  · rw [hr, hh]
    exact h.head
  intro row hro
  obtain ⟨bs, hv⟩ := h.valid row hro
  exact ⟨bs, validate_later (grounds_of_fixed hf) hl hv⟩

theorem Receipts.recorded (hl : g.state.revision ≤ site.applied.revision) {batch : MutationBatch}
    (hr : Recorded X site g cmd batch changed start out g'.state pend g'.accounting)
    (hst : fixed start = fixed (atRevision g.state site.applied.revision))
    (hs : stageReceipt X g.receipts pend = .ok g'.receipts) :
    Receipts X g' (rows ++ [pend.row]) ∧ rowPair pend.row = mutationPair cmd batch := by
  obtain ⟨hh, _, hre, bs, hv, ha⟩ :=
    recorded_receipt hr (congrArg Fixed.mutationReceiptHead hst)
  rw [h.head] at ha
  obtain ⟨ho, hp, hn⟩ := advanceReceipt_ok ha
  obtain ⟨hk, _, _, pos, _, hi⟩ := receiptRow_ok hv
  have hg : grounds g'.state = grounds (atRevision g.state site.applied.revision) := by
    have hf := congrArg grounds (recorded_frame hr)
    have hgr := grounds_of_fixed hst
    exact hf.trans hgr
  have ht : g'.state.tenant = g.state.tenant := congrArg Fixed.tenant hg
  have hsta : start.tenant = g.state.tenant := congrArg Fixed.tenant hst
  have hro : pend.row.receipt.scope.tenant = g.state.tenant :=
    (receiptIdentity_ok hi).1.trans hsta
  obtain ⟨tab, hta, hs⟩ := bind_ok hs
  replace hs := then_ok hs
  have hvi : g'.receipts = ⟨tab, pend.head⟩ := (Except.ok.inj hs).symm
  have hor : pend.head.originIncarnation = g.receipts.head.originIncarnation := by
    rw [hn]
  have hse := h.selected.advance (by rw [← h.count]; exact ho)
    (by rw [← h.digest]; exact hp)
    (congrArg (fun tenant => X.sha (.receiptRoot tenant g.receipts.head.originIncarnation))
      hro) ⟨hk, X.sha_valid _⟩ (chained_ok hta)
  refine ⟨?_, by rw [rowPair, hre]; rfl⟩
  constructor
  · rw [hvi, ht, ReceiptView.layout]
    rw [hor]
    exact selected_layout hse
  · rw [hvi, hn, length_append, ← h.count]
    exact ho
  · rw [hvi, hn, ChainTable.lastDigest, getLast?_append_cons]
    rfl
  · intro row hrow
    rw [getLast?_append_cons] at hrow
    have hne : pend.row = row := Option.some.inj hrow
    rw [hvi, hn, hne]
  · rw [hvi, hh]
  intro row hrow
  rcases mem_append.mp hrow with hold | hne
  · obtain ⟨n, hold⟩ := h.valid row hold
    exact ⟨n, validate_later hg hl hold⟩
  rw [mem_singleton.mp hne]
  have hsa : grounds g'.state = grounds (atRevision start start.revision) :=
    hg.trans (grounds_of_fixed hst).symm
  exact ⟨bs, validate_later hsa le_rfl hv⟩

/-- Every exit keeps the rows; a mutation that moves anything adds the row of its pair. -/
theorem Receipts.exit (hl : g.state.revision ≤ site.applied.revision) (he : Exit X site g cmd
    ⟨some g', changed, out⟩) : (Receipts X g' rows ∧
    (isMutation cmd.operation = true → Unmoved g g')) ∨ ∃ batch row, cmd.operation = .mutate
    batch ∧ rowPair row = mutationPair cmd batch ∧ ReceiptView.get X g.receipts (batchKey X
    cmd batch) = .ok none ∧ Receipts X g' (rows ++ [row]) := by
  rcases exit_fixed he with ⟨hfi, hr, ha⟩ |
    ⟨batch, start, pend, hre, hs, ho, hst⟩
  · refine .inl ⟨h.kept hr hfi hl, fun hm => ?_⟩
    obtain ⟨hf, hi⟩ := ha hm
    have hc := congrArg TenantState.collections hf
    have hco := congrArg TenantState.documentCount hf
    have hb := congrArg TenantState.logicalBytes hf
    have hfe := congrArg TenantState.changeFeed hf
    have hh := congrArg TenantState.mutationReceiptHead hf
    exact ⟨hc, hco, hb, hfe, hh, hi, hr⟩
  · obtain ⟨hn, hp⟩ := h.recorded hl hre hs hst
    exact .inr ⟨batch, pend.row, ho, hp, hre.absent, hn⟩

theorem Receipts.placed {placed : TenantState} (hp : Placed X contents g.state placed) :
    Receipts X { g with state := placed } rows := by
  have hf := congrArg fixed hp.frame
  exact h.kept rfl hf (Nat.le_refl g.state.revision)

theorem Receipts.step (hst : Step X contents g g') : ∃ added, Receipts X g' (rows ++ added) := by
  have hsa : Receipts X g (rows ++ []) := by
    rw [append_nil]
    exact h
  cases hst with
  | publish hp =>
    obtain ⟨cand, changed, placed, hpr, hpl, rfl⟩ := hp.prepared
    obtain ⟨hl, he⟩ := prepareCommand_exit hpr
    rcases h.exit hl.le he with ⟨hk, _⟩ | ⟨_, row, _, _, _, hn⟩
    · exact ⟨[], (by rw [append_nil]; exact hk.placed hpl)⟩
    · exact ⟨[row], hn.placed hpl⟩
  | metadata hl => exact ⟨[], hsa.kept rfl rfl hl.le⟩
  | receiptAhead ha hs =>
    rw [h.count, ← append_nil rows] at ha
    exact ⟨[], hsa.selected.ahead ha hs, hsa.count, hsa.digest, hsa.last, hsa.head, hsa.valid⟩
  | terminalAhead =>
    exact ⟨[], hsa.selected, hsa.count, hsa.digest, hsa.last, hsa.head, hsa.valid⟩

theorem Receipts.run (hru : Run X contents g g') : ∃ added, Receipts X g' (rows ++ added) := by
  induction hru with
  | refl => exact ⟨[], by rw [append_nil]; exact h⟩
  | tail _ hs ih =>
    obtain ⟨added, hr⟩ := ih
    obtain ⟨more, hm⟩ := hr.step hs
    exact ⟨added ++ more, by rw [← append_assoc]; exact hm⟩

end

/-- A mutation of a recorded pair moves nothing, whatever it is answered. -/
theorem Receipts.unmoved (h : Receipts X g rows) (hr : row ∈ rows)
    (hop : cmd.operation = .mutate batch) (hpa : mutationPair cmd batch = rowPair row)
    (hp : prepareCommandOrdered X site g cmd = .ok ⟨some g', changed, out⟩) : Unmoved g g' := by
  obtain ⟨hl, he⟩ := prepareCommand_exit hp
  rcases h.exit hl.le he with ⟨_, hu⟩ | ⟨other, _, ho, _, hn, _⟩
  · exact hu (by rw [hop]; rfl)
  rw [hop] at ho
  cases ho
  rw [h.get_pair hr hpa] at hn
  cases hn

theorem Receipts.answers (h : Receipts X g rows) (hr : row ∈ rows)
    (hp : mutationPair cmd batch = rowPair row)
    (ha : authorizeMutation X g.state cmd batch = .ok ()) :
    prepareMutationOrdered X site g cmd batch =
      prepareMutationObservation X g cmd site.applied.revision
        (replayOutcome row (X.sha (.batch batch))) := by
  obtain ⟨bs, hv⟩ := h.valid row hr
  have hf := h.get_pair hr hp
  rw [batchKey] at hf
  rw [prepareMutationOrdered, ha]
  rw [ok_bind hf]
  dsimp only
  rw [ok_bind hv]

theorem observation_outcome
    (h : prepareMutationObservation X g cmd r asked = .ok p) : p.outcome = asked ∨
    p.outcome = .error unobserved ∧ observed X g cmd r asked.isOk = .ok none := by
  obtain ⟨found, hf, h⟩ := bind_ok h
  cases found with
  | some gen =>
    cases h
    exact .inl rfl
  | none =>
    obtain ⟨rejected, _, h⟩ := bind_ok h
    cases h
    exact .inr ⟨rfl, lift_ok hf⟩

theorem prepareCommand_mutation (ho : cmd.operation = .mutate batch)
    (hs : p.generation.isSome = true) (h : prepareCommandOrdered X site g cmd = .ok p) :
    prepareMutationOrdered X site g cmd batch = .ok p := by
  replace h := then_ok h
  replace h := then_ok h
  split at h
  · cases h
    cases hs
  · rw [ho] at h
    exact h

/-- Over every history of published commands the receipts only grow and a pair has at most one
row. A mutation of a recorded pair is answered by that row or, when its observation does not
fit, with no answer at all; it leaves documents, indexes and receipts as they are. So a pair
whose mutation has moved the documents moves them never again. -/
theorem mutations_are_idempotent {g₀ : Generation Idx Acc} (hstart : Receipts X g₀ rows)
    (hrun : Run X contents g₀ g) :
    ∃ added, Receipts X g (rows ++ added) ∧
      (∀ row ∈ rows ++ added, ∀ other ∈ rows ++ added, rowPair row = rowPair other →
        row = other) ∧
      (∀ row ∈ rows ++ added, ReceiptView.get X g.receipts row.key = .ok (some row) ∧
        ∀ (site : Site) (command : Command) (batch : MutationBatch),
          command.operation = .mutate batch → mutationPair command batch = rowPair row →
          (authorizeMutation X g.state command batch = .ok () →
            prepareMutationOrdered X site g command batch =
              prepareMutationObservation X g command site.applied.revision
                (replayOutcome row (X.sha (.batch batch)))) ∧
          ∀ (g' : Generation Idx Acc) (changed : ChangedIds) (outcome : Outcome),
            prepareCommandOrdered X site g command = .ok ⟨some g', changed, outcome⟩ →
            Unmoved g g' ∧ (authorizeMutation X g.state command batch = .ok () →
              outcome = replayOutcome row (X.sha (.batch batch)) ∨
              outcome = .error unobserved ∧ observed X g command site.applied.revision
                (replayOutcome row (X.sha (.batch batch))).isOk = .ok none)) ∧
      ∀ (site : Site) (command : Command) (batch : MutationBatch) (g' : Generation Idx Acc)
        (changed : ChangedIds) (outcome : Outcome) (placed : TenantState),
        command.operation = .mutate batch →
        prepareCommandOrdered X site g command = .ok ⟨some g', changed, outcome⟩ →
        ¬Unmoved g g' → Placed X contents g'.state placed →
        ∀ (h : Generation Idx Acc) (site' : Site) (again : Command) (batch' : MutationBatch)
          (h' : Generation Idx Acc) (changed' : ChangedIds) (outcome' : Outcome),
          Run X contents { g' with state := placed } h → again.operation = .mutate batch' →
          mutationPair again batch' = mutationPair command batch →
          prepareCommandOrdered X site' h again = .ok ⟨some h', changed', outcome'⟩ →
          Unmoved h h' := by
  obtain ⟨added, hr⟩ := hstart.run hrun
  refine ⟨added, hr, fun _ hrow _ ho => hr.unique hrow ho, ?_, ?_⟩
  · intro row hrow
    refine ⟨hr.get_row hrow, ?_⟩
    intro site command batch hop hpa
    refine ⟨fun ha => hr.answers hrow hpa ha, ?_⟩
    intro g' changed outcome hp
    constructor
    · exact hr.unmoved hrow hop hpa hp
    intro ha
    have hm := prepareCommand_mutation hop rfl hp
    rw [hr.answers hrow hpa ha] at hm
    exact observation_outcome hm
  intro site command batch g' changed outcome placed hop hp hmo hpl h site' again
    batch' h' changed' outcome' hl hag hpa han
  obtain ⟨hre, he⟩ := prepareCommand_exit hp
  rcases hr.exit hre.le he with ⟨_, hu⟩ | ⟨_, row, ho, hro, _, hn⟩
  · exact absurd (hu (by rw [hop]; rfl)) hmo
  rw [hop] at ho
  cases ho
  obtain ⟨more, hmor⟩ := (hn.placed hpl).run hl
  have hrow : row ∈ rows ++ added ++ [row] ++ more :=
    mem_append_left _ (mem_append_right _ (mem_singleton_self row))
  exact hmor.unmoved hrow hag (hpa.trans hro.symm) han

/-- The batch is sent again, and its key with another batch: neither moves the documents. -/
theorem pair_replays : ∃ g₁ g₂ g₃ g₄ g₅ g₆ g₇ g₈, SampleRun g₁ g₂ g₃ g₄ g₅ g₆ g₇ g₈ ∧
    ¬ Unmoved g₁ g₂ ∧ Unmoved g₂ g₃ ∧ Unmoved g₃ g₄ := by
  obtain ⟨g₁, g₂, g₃, g₄, g₅, g₆, g₇, g₈, h⟩ := sample_run
  have hs : Receipts (sampleExternals 8) sampleStart [] :=
    ⟨ChainTable.Selected.nil _, rfl, rfl, nofun, rfl, nofun⟩
  have hm : ¬ Unmoved g₁ g₂ := by
    intro hu
    have hl : ledgerOf g₂ = ledgerOf g₁ := by
      unfold ledgerOf
      rw [hu.collections]
    rw [h.pair, h.first] at hl
    cases hl
  obtain ⟨_, _, _, _, hn⟩ := mutations_are_idempotent hs h.created.run
  obtain ⟨_, hw⟩ := h.written
  obtain ⟨_, hp⟩ := h.replayed
  obtain ⟨_, he⟩ := h.reused
  have hn := hn _ _ _ _ _ _ _ rfl hw hm (placed_refl g₂.state)
  exact ⟨g₁, g₂, g₃, g₄, g₅, g₆, g₇, g₈, h, hm, hn _ _ _ _ _ _ _ .refl rfl rfl hp,
    hn _ _ (rootCommand (.mutate (ledgerBatch ["c"]))) _ _ _ _ h.replayed.run rfl rfl he⟩

end ReceiptHistory
