import Kasumi.EffectFrames

/-! The exits of ordered application: every generation a command can publish, with what was
checked before it. A mutation ends in an observation, a recorded rejection or a commit; any
other command ends in the candidate its operation built, in a resource rejection rebuilt from
the previous state, or in the previous state at the new revision. -/
namespace PublicationExits

open TenantTypes TenantAccess Mutations Staging PermanentRows FallibleSteps TenantFrames
  OperationEffects EffectFrames Engine

variable {Idx Acc : Type} (X : Externals Idx Acc)

/-- Where the operation of an admitted caller starts: the previous state at the new revision,
with the ended record that the command names shown again. -/
structure Started (site : Site) (g : Generation Idx Acc) (command : Command)
    (start : TenantState) : Prop where
  caller : checkCaller X (atRevision g.state site.applied.revision) command = .ok ()
  shown : reinsertTerminal X g.terminals g.state (atRevision g.state site.applied.revision)
    command = .ok start

/-- What running an operation yields: a refused caller, or the effect of the operation. -/
inductive Operated (site : Site) (g : Generation Idx Acc) (command : Command) :
    Except ReadFailure Applied → TenantState → Prop where
  | stranger (e : Error) : Operated site g command (.error (.query e))
      (atRevision g.state site.applied.revision)
  | refused {start t : TenantState} {f : ReadFailure} : Started X site g command start →
      Effect X command site.applied.revision g.indexes site.resolver start (.error f) t →
      Operated site g command (.error f) t
  | answered {start t : TenantState} {a : Applied} : Started X site g command start →
      Answers (X := X) command site.applied.revision g.indexes site.resolver start a t →
      Operated site g command (.ok a) t

structure Ran (site : Site) (g : Generation Idx Acc) (command : Command) (outcome : Outcome)
    (changedDocuments : Bool) (result : Except ReadFailure Applied) (operated next : TenantState) :
    Prop where
  ran : runOperation X site g command = .ok (result, operated)
  settled : settleOperation result = .ok (outcome, changedDocuments)
  audited : auditCommand X operated command outcome = .ok next
  fits : auditFits next = true

def batchKey (command : Command) (batch : MutationBatch) : String :=
  X.sha (.identity command.context.principal batch.idempotencyKey)

/-- A receipt row was finalized for an admitted identity, audited and fits. -/
structure Recorded (site : Site) (g : Generation Idx Acc) (command : Command)
    (batch : MutationBatch) (changed : ChangedIds) (start : TenantState) (outcome : Outcome)
    (next : TenantState) (pending : ReceiptPending) (accounting : Acc) : Prop where
  absent : ReceiptView.get X g.receipts (batchKey X command batch) = .ok none
  finalized : ∃ q recorded,
    permit X (atRevision g.state site.applied.revision) command batch site.applied = .ok q ∧
    Permit.finalize X q g.receipts (batchKey X command batch) start outcome site.applied =
      .ok (recorded, pending) ∧
    appendAudit X recorded (commandEvent command recorded (auditOutcome outcome.isOk)) = .ok next
  updated : X.updated g.accounting g.state next changed OrdMap.empty = .ok accounting
  fits : auditedFits X accounting next = .ok true

/-- The outcome of a mutation that records no identity: a refusal or the answer of its row. -/
inductive Observation (g : Generation Idx Acc) (command : Command) : Outcome → Prop where
  | refused (e : Error) : Observation g command (.error e)
  | replayed {batch : MutationBatch} {row : ReceiptRow} {bytes : ℕ} :
      command.operation = .mutate batch →
      authorizeMutation X g.state command batch = .ok () →
      ReceiptView.get X g.receipts (batchKey X command batch) = .ok (some row) →
      ReceiptRow.validate X row g.state = .ok bytes →
      Observation g command (replayOutcome row (X.sha (.batch batch)))

def isMutation : Operation → Bool
  | .mutate _ => true
  | _ => false

inductive Exit (site : Site) (g : Generation Idx Acc) (command : Command) :
    Prepared Idx Acc → Prop where
  | frozen : g.state.retired = true →
      Exit site g command ⟨none, OrdMap.empty, .error frozen⟩
  | skipped {e : Error} : e.code = .auditUnavailable →
      Exit site g command ⟨some { g with state := atRevision g.state site.applied.revision },
        OrdMap.empty, .error e⟩
  | observed {outcome : Outcome} {event : AuditEvent} {next : TenantState} {accounting : Acc} :
      isMutation command.operation = true → Observation X g command outcome →
      appendAudit X (atRevision g.state site.applied.revision) event = .ok next →
      X.updated g.accounting g.state next OrdMap.empty OrdMap.empty = .ok accounting →
      auditedFits X accounting next = .ok true →
      Exit site g command ⟨some { g with
        state := next
        accounting := accounting }, OrdMap.empty, outcome⟩
  | recorded {batch : MutationBatch} {e : Error} {next : TenantState} {pending : ReceiptPending}
      {accounting : Acc} {receipts : ReceiptView} :
      command.operation = .mutate batch →
      authorizeMutation X g.state command batch = .ok () →
      Recorded X site g command batch OrdMap.empty (atRevision g.state site.applied.revision)
        (.error e) next pending accounting →
      stageReceipt X g.receipts pending = .ok receipts →
      Exit site g command ⟨some { g with
        state := next
        receipts := receipts
        accounting := accounting }, OrdMap.empty, .error e⟩
  | committed {batch : MutationBatch} {receipt : WriteReceipt} {applied next : TenantState}
      {pending : ReceiptPending} {accounting : Acc} {receipts : ReceiptView} {indexes : Idx} :
      command.operation = .mutate batch →
      authorizeMutation X g.state command batch = .ok () →
      attemptBatch X site g command batch = .ok (applied, receipt) →
      Recorded X site g command batch (batchChanges batch) applied (.ok receipt) next pending
        accounting →
      updatedIndexes X site g next (batchChanges batch) = .ok indexes →
      stageReceipt X g.receipts pending = .ok receipts →
      Exit site g command ⟨some { g with
        state := next
        receipts := receipts
        indexes := indexes
        accounting := accounting }, batchChanges batch, .ok receipt⟩
  | published {result : Except ReadFailure Applied} {operated next moved final : TenantState}
      {outcome : Outcome} {changedDocuments : Bool} {pending : TerminalPending}
      {changed : ChangedIds} {accounting : Acc} {indexes : Idx} {terminals : TerminalView} :
      isMutation command.operation = false →
      Ran X site g command outcome changedDocuments result operated next →
      prepareTerminals X g.terminals g.state next site.applied = .ok (moved, pending) →
      validateBudget moved moved.limits = .ok () →
      candidateChanges X g.state command changedDocuments = .ok changed →
      candidateFeed X g.state moved changed (changedDocuments && !isArchive command.operation) =
        .ok final →
      X.updated g.accounting g.state final changed (stagedChanges X g.state command) =
        .ok accounting →
      budgetFits X accounting final = .ok true →
      stageTerminals X g.terminals pending = .ok terminals →
      candidateIndexes X site g final changed (changedDocuments && !isArchive command.operation) =
        .ok indexes →
      Exit site g command ⟨some { g with
        state := final
        terminals := terminals
        indexes := indexes
        accounting := accounting }, changed, outcome⟩
  | rejected {result : Except ReadFailure Applied}
      {operated next moved candidate rejected : TenantState}
      {outcome : Outcome} {changedDocuments : Bool} {pending rows : TerminalPending} {e : Error}
      {accounting : Acc} {terminals : TerminalView} :
      isMutation command.operation = false → isAudit command.operation = false →
      Ran X site g command outcome changedDocuments result operated next →
      prepareTerminals X g.terminals g.state next site.applied = .ok (moved, pending) →
      forgetFeed candidate = forgetFeed moved →
      rejectedState X site g candidate command e pending = .ok (rejected, rows) →
      X.updated g.accounting g.state rejected OrdMap.empty (stagedChanges X g.state command) =
        .ok accounting →
      rejectedFits X accounting rejected = .ok true →
      stageTerminals X g.terminals rows = .ok terminals →
      Exit site g command ⟨some { g with
        state := rejected
        terminals := terminals
        accounting := accounting }, OrdMap.empty, .error e⟩

variable {X}
variable {site : Site} {g : Generation Idx Acc} {cmd : Command} {p : Prepared Idx Acc}

theorem auditUnavailable_skipped (msg : String) :
    Exit X site g cmd (revisionOnly g site.applied.revision msg) :=
  Exit.skipped rfl

variable {result : Except ReadFailure Applied} {operated next t : TenantState} {out : Outcome}
  {pend : TerminalPending} {applied : AppliedIdentity} {changedDocuments : Bool}

theorem rejection_exit {failure : Option Error} (hop : isMutation cmd.operation = false)
    (hra : Ran X site g cmd out changedDocuments result operated next)
    (hm : prepareTerminals X g.terminals g.state next site.applied = .ok (moved, pend))
    (hc : forgetFeed cand = forgetFeed moved) (hr : cand.revision = site.applied.revision)
    (h : prepareResourceRejection X site g cand cmd failure pend = .ok p) :
    Exit X site g cmd p := by
  unfold prepareResourceRejection at h
  rw [hr] at h
  split at h
  · cases h
    exact auditUnavailable_skipped _
  next hau =>
  obtain ⟨⟨rejected, rows⟩, hre, h⟩ := bind_ok h
  obtain ⟨acct, ha, h⟩ := bind_ok h
  obtain ⟨fits, hf, h⟩ := bind_ok h
  split at h
  · next hy =>
    subst hy
    obtain ⟨terminals, ht, h⟩ := bind_ok h
    cases h
    exact Exit.rejected hop (Bool.eq_false_of_not_eq_true hau) hra hm hc
      hre (lift_ok ha) (lift_ok hf) ht
  · cases h
    exact auditUnavailable_skipped _

theorem moveNew_frame (h : moveNew X prev applied next pend key st = .ok (t, pending')) :
    forgetStaged t = forgetStaged next := by
  obtain ⟨_, _, h⟩ := bind_ok h
  obtain ⟨_, _, h⟩ := bind_ok h
  replace h := then_ok h
  obtain ⟨_, _, h⟩ := bind_ok h
  replace h := then_ok h
  obtain ⟨_, _, h⟩ := bind_ok h
  obtain ⟨_, _, h⟩ := bind_ok h
  cases h
  rfl

theorem moveOne_frame (h : moveOne X view prev applied next pend key = .ok (t, pending')) :
    forgetStaged t = forgetStaged next := by
  obtain ⟨_, _, h⟩ := bind_ok h
  obtain ⟨existing, _, h⟩ := bind_ok h
  cases existing with
  | some row =>
    replace h := then_ok h
    cases h
    rfl
  | none =>
    have hf := moveNew_frame h
    exact hf

theorem moveEach_frame : ∀ {next t : TenantState} {pend pending' : TerminalPending},
      moveEach X view prev applied keys next pend = .ok (t, pending') →
      forgetStaged t = forgetStaged next := by
  induction keys with
  | nil =>
    intro next t pend pending' h
    cases h
    rfl
  | cons key keys ih =>
    intro next t pend pending' h
    obtain ⟨moved, hm, h⟩ := bind_ok h
    rw [ih h, moveOne_frame hm]

theorem prepareTerminals_ok (h : prepareTerminals X view prev next applied = .ok (t, pend)) :
    ∃ moved, moveEach X view prev applied (endedKeys next) next ⟨view.head, []⟩ =
        .ok (moved, pend) ∧ t = { moved with stagedTerminalHead := pend.head } ∧
      view.head = prev.stagedTerminalHead ∧ next.stagedTerminalHead = view.head := by
  obtain ⟨_, hh, h⟩ := bind_ok h
  replace h := then_ok h
  obtain ⟨⟨moved, last⟩, hm, h⟩ := bind_ok h
  cases h
  have hh := ensure_ok hh
  simp only [Bool.and_eq_true, decide_eq_true_eq] at hh
  exact ⟨moved, hm, rfl, hh⟩

theorem prepareTerminals_frame (h : prepareTerminals X view prev next applied = .ok (t, pend)) :
    forgetStaged t = forgetStaged next := by
  obtain ⟨moved, hm, rfl, _⟩ := prepareTerminals_ok h
  have hf := moveEach_frame hm
  exact hf

theorem candidateFeed_frame {s : TenantState} {feeds : Bool}
    (h : candidateFeed X prev s changed feeds = .ok t) : forgetFeed t = forgetFeed s := by
  unfold candidateFeed at h
  split at h
  · exact append_ok h
  · cases h
    rfl

theorem publish_exit (hop : isMutation cmd.operation = false)
    (hra : Ran X site g cmd out changedDocuments result operated next)
    (hre : next.revision = site.applied.revision)
    (h : publishOperation X site g next cmd out changedDocuments = .ok p) :
    Exit X site g cmd p := by
  obtain ⟨⟨moved, pend⟩, hmo, h⟩ := bind_ok h
  have hm : moved.revision = site.applied.revision := by
    have hr := congrArg TenantState.revision (prepareTerminals_frame hmo)
    dsimp only [forgetStaged] at hr
    rw [hr, hre]
  dsimp only at h
  split at h
  · exact rejection_exit hop hra hmo rfl hm h
  next hb =>
  obtain ⟨changed, hc, h⟩ := bind_ok h
  split at h
  · exact rejection_exit hop hra hmo rfl hm h
  next final hfi =>
  have hfr := candidateFeed_frame hfi
  have hf : final.revision = site.applied.revision := by
    have hr := congrArg TenantState.revision hfr
    dsimp only [forgetFeed] at hr
    rw [hr, hm]
  obtain ⟨acct, ha, h⟩ := bind_ok h
  obtain ⟨fits, hfit, h⟩ := bind_ok h
  split at h
  · next hy =>
    subst hy
    obtain ⟨idx, hi, h⟩ := bind_ok h
    obtain ⟨terminals, ht, h⟩ := bind_ok h
    cases h
    exact Exit.published hop hra hmo hb (lift_ok hc) hfi (lift_ok ha)
      (lift_ok hfit) ht hi
  · exact rejection_exit hop hra hmo hfr hf h

theorem runOperation_operated (h : runOperation X site g cmd = .ok (result, operated)) :
    Operated X site g cmd result operated := by
  unfold runOperation at h
  dsimp only at h
  split at h
  · cases h
    exact Operated.stranger _
  next hc =>
  obtain ⟨start, hs, h⟩ := bind_ok h
  have hr := (Except.ok.inj h)
  have he := (operation_effects (X := X) cmd site.applied.revision g.state.revision
    g.indexes site.resolver start).run hr
  cases result with
  | ok a => exact Operated.answered ⟨hc, hs⟩ he
  | error f => exact Operated.refused ⟨hc, hs⟩ he

theorem reinsertTerminal_frame (h : reinsertTerminal X terminals prev next cmd = .ok t) :
    forgetStaged t = forgetStaged next := by
  unfold reinsertTerminal at h
  split at h
  · cases h
    rfl
  obtain ⟨key, _, h⟩ := bind_ok h
  split at h
  · cases h
    rfl
  obtain ⟨found, _, h⟩ := bind_ok h
  split at h
  · cases h
    rfl
  replace h := then_ok h
  cases h
  rfl

theorem started_fixed (h : Started X site g cmd start) :
    fixed start = fixed (atRevision g.state site.applied.revision) := by
  have hf := congrArg fixed (reinsertTerminal_frame h.shown)
  exact hf

theorem operated_fixed (h : Operated X site g cmd result operated) :
    fixed operated = fixed (atRevision g.state site.applied.revision) := by
  cases h with
  | stranger => rfl
  | refused hs he => exact (effect_fixed he).trans (started_fixed hs)
  | answered hs ha => exact (effect_fixed ha.2).trans (started_fixed hs)

theorem auditCommand_frame (h : auditCommand X s cmd out = .ok t) :
    forgetAudits t = forgetAudits s := by
  unfold auditCommand at h
  split at h
  · cases h
    rfl
  · exact appendAudit_frame h

theorem prepareOperation_exit (hop : isMutation cmd.operation = false)
    (h : prepareOperation X site g cmd = .ok p) : Exit X site g cmd p := by
  obtain ⟨⟨result, operated⟩, hr, h⟩ := bind_ok h
  obtain ⟨⟨out, changedDocuments⟩, hs, h⟩ := bind_ok h
  obtain ⟨next, hn, h⟩ := bind_ok h
  have hn := lift_ok hn
  split at h
  · next hf =>
    refine publish_exit hop ⟨hr, hs, hn, hf⟩ ?_ h
    have hk := congrArg Fixed.revision (operated_fixed (runOperation_operated hr))
    have ha := congrArg TenantState.revision (auditCommand_frame hn)
    exact ha.trans hk
  · cases h
    exact auditUnavailable_skipped _

theorem observed_ok {committed : Bool} {o : Option (Generation Idx Acc)}
    (h : observed X g cmd site.applied.revision committed = .ok o) :
    o = none ∨ ∃ event next acct,
      appendAudit X (atRevision g.state site.applied.revision) event = .ok next ∧
      X.updated g.accounting g.state next OrdMap.empty OrdMap.empty = .ok acct ∧
      auditedFits X acct next = .ok true ∧
      o = some { g with
        state := next
        accounting := acct } := by
  obtain ⟨next, hn, h⟩ := bind_ok h
  obtain ⟨acct, ha, h⟩ := bind_ok h
  obtain ⟨fits, hf, h⟩ := bind_ok h
  cases h
  cases fits with
  | false => exact .inl rfl
  | true => exact .inr ⟨_, next, acct, hn, ha, hf, rfl⟩

theorem observation_exit (hop : isMutation cmd.operation = true) (ho : Observation X g cmd out)
    (h : prepareMutationObservation X g cmd site.applied.revision out = .ok p) :
    Exit X site g cmd p := by
  obtain ⟨found, hf, h⟩ := bind_ok h
  rcases observed_ok (lift_ok hf) with hn | ⟨_, _, _, ha, hu, hfi, hs⟩
  · subst hn
    obtain ⟨rejected, hr, h⟩ := bind_ok h
    cases h
    rcases observed_ok (lift_ok hr) with hn | ⟨_, _, _, ha, hu, hfi, hs⟩
    · subst hn
      exact Exit.skipped rfl
    · subst hs
      exact Exit.observed hop (Observation.refused _) ha hu hfi
  subst hs
  cases h
  exact Exit.observed hop ho ha hu hfi

section Mutation

variable {batch : MutationBatch} (hop : cmd.operation = .mutate batch)
  (hauthorized : authorizeMutation X g.state cmd batch = .ok ())
  (hnew : ReceiptView.get X g.receipts (batchKey X cmd batch) = .ok none)
  (hpm : permit X (atRevision g.state site.applied.revision) cmd batch site.applied = .ok q)

include hnew hpm in
theorem recordOutcome_ok {pend : ReceiptPending}
    (h : recordOutcome X site g cmd changed q (batchKey X cmd batch) start out =
      .ok (next, pend, acct, fits)) (hy : fits = true) :
    Recorded X site g cmd batch changed start out next pend acct := by
  obtain ⟨⟨recorded, written⟩, hf, h⟩ := bind_ok h
  obtain ⟨audited, ha, h⟩ := bind_ok h
  obtain ⟨total, ht, h⟩ := bind_ok h
  obtain ⟨fit, hfi, h⟩ := bind_ok h
  cases h
  subst hy
  exact ⟨hnew, ⟨q, recorded, hpm, hf, lift_ok ha⟩, lift_ok ht, lift_ok hfi⟩

include hop hauthorized hnew hpm

theorem rejectMutation_exit
    (h : rejectMutation X site g cmd q (batchKey X cmd batch) e = .ok p) : Exit X site g cmd p := by
  obtain ⟨⟨rejected, pend, acct, fits⟩, hre, h⟩ := bind_ok h
  obtain ⟨_, hf, h⟩ := bind_ok h
  obtain ⟨receipts, hr, h⟩ := bind_ok h
  cases h
  exact Exit.recorded hop hauthorized
    (recordOutcome_ok hnew hpm hre (require_ok (lift_ok hf))) hr

theorem commitMutation_exit {applied : TenantState}
    (ha : attemptBatch X site g cmd batch = .ok (applied, rcpt))
    (h : commitMutation X site g cmd batch q (batchKey X cmd batch) applied rcpt =
      .ok p) : Exit X site g cmd p := by
  obtain ⟨⟨next, pend, acct, fits⟩, hre, h⟩ := bind_ok h
  dsimp only at h
  split at h
  · next hy =>
    obtain ⟨idx, hi, h⟩ := bind_ok h
    obtain ⟨receipts, hr, h⟩ := bind_ok h
    cases h
    exact Exit.committed hop hauthorized ha (recordOutcome_ok hnew hpm hre hy)
      hi hr
  · exact rejectMutation_exit hop hauthorized hnew hpm h

theorem applyAdmitted_exit (h : applyAdmitted X site g cmd batch q (batchKey X cmd batch) = .ok p) :
    Exit X site g cmd p := by
  unfold applyAdmitted at h
  split at h
  · cases h
  · split at h
    · cases h
    · exact rejectMutation_exit hop hauthorized hnew hpm h
  · next ha => exact commitMutation_exit hop hauthorized hnew hpm ha h

end Mutation

theorem mutation_exit (hop : cmd.operation = .mutate batch)
    (h : prepareMutationOrdered X site g cmd batch = .ok p) : Exit X site g cmd p := by
  have hm : isMutation cmd.operation = true := by
    rw [hop]
    rfl
  unfold prepareMutationOrdered at h
  split at h
  · exact observation_exit hm (Observation.refused _) h
  next hauthorized =>
  obtain ⟨found, hf, h⟩ := bind_ok h
  split at h
  · obtain ⟨bs, hv, h⟩ := bind_ok h
    exact observation_exit hm (Observation.replayed hop hauthorized hf hv) h
  unfold admitMutation at h
  dsimp only at h
  split at h
  · split at h
    · exact observation_exit hm (Observation.refused _) h
    · cases h
  next q hpm =>
  obtain ⟨fits, _, h⟩ := bind_ok h
  split at h
  · exact applyAdmitted_exit hop hauthorized hf hpm h
  · exact observation_exit hm (Observation.refused _) h

theorem prepareCommand_exit (h : prepareCommandOrdered X site g cmd = .ok p) :
    g.state.revision < site.applied.revision ∧ Exit X site g cmd p := by
  replace h := then_ok h
  obtain ⟨_, hr, h⟩ := bind_ok h
  have hr := require_ok (lift_ok hr)
  simp only [Bool.not_eq_true', decide_eq_false_iff_not, not_le] at hr
  refine ⟨hr, ?_⟩
  split at h
  · next hre =>
    cases h
    exact Exit.frozen hre
  split at h
  · next batch hop => exact mutation_exit hop h
  next hop =>
  apply prepareOperation_exit _ h
  cases hc : cmd.operation with
  | mutate batch => exact absurd hc (hop batch)
  | _ => rfl

section Frames

def forgetReceipts (s : TenantState) : TenantState :=
  { forgetAudits s with mutationReceiptHead := ⟨"", 0, 0, 0, ""⟩ }

variable {next : TenantState}

variable {changed : ChangedIds} {out : Outcome}

theorem finalize_ok {pend : ReceiptPending}
    (h : Permit.finalize X q view absent s out applied = .ok (t, pend)) :
    prepareReceipt X view s { q.template with outcome := out } absent applied = .ok pend ∧
      t = { s with mutationReceiptHead := pend.head } := by
  obtain ⟨row, hp, h⟩ := bind_ok h
  obtain ⟨_, _, h⟩ := bind_ok h
  replace h := then_ok h
  cases h
  exact ⟨hp, rfl⟩

theorem recorded_frame {batch : MutationBatch} {pend : ReceiptPending}
    (h : Recorded X site g cmd batch changed start out next pend acct) :
    forgetReceipts next = forgetReceipts start := by
  obtain ⟨q, recorded, _, hf, ha⟩ := h.finalized
  rw [(appendAudit_ok ha).2]
  rw [(finalize_ok hf).2]
  rfl

variable {s : TenantState}

theorem activation_rejectBudget_frame
    (h : SchemaActivation.rejectBudget X prev next s cmd e = .ok t) :
    forgetActivations t = forgetActivations s := by
  unfold SchemaActivation.rejectBudget at h
  split at h
  · dsimp only at h
    split at h
    · exact (store_activation_ok h).1
    · cases h
      rfl
  · cases h
    rfl

theorem retirement_rejectBudget_frame (h : Retirement.rejectBudget X prev next s cmd e = .ok t) :
    forgetRetirements t = forgetRetirements s := by
  unfold Retirement.rejectBudget at h
  split at h
  · cases h
    rfl
  obtain ⟨ref, _, h⟩ := bind_ok h
  obtain ⟨key, _, h⟩ := bind_ok h
  split at h
  · exact (store_retirement_ok h).1
  · cases h
    rfl

variable {pend : TerminalPending} {g' : Generation Idx Acc}

theorem rejectFinalize_frame (h : rejectFinalize X g s cmd pend e = .ok t) :
    forgetStaged t = forgetStaged s := by
  unfold rejectFinalize at h
  split at h
  · dsimp only at h
    split at h
    · obtain ⟨found, _, h⟩ := bind_ok h
      split at h
      · split at h
        · cases h
          rfl
        · exact (replaceRecord_ok (lift_ok h)).1
      · cases h
        rfl
    · cases h
      rfl
  · cases h
    rfl

theorem rejectedState_steps (h : rejectedState X site g next cmd e pend = .ok (t, rows)) :
    ∃ s₁ s₂ s₃ event s₄,
    SchemaActivation.rejectBudget X g.state next (atRevision g.state next.revision) cmd e = .ok s₁ ∧
    Retirement.rejectBudget X g.state next s₁ cmd e = .ok s₂ ∧
    rejectFinalize X g s₂ cmd pend e = .ok s₃ ∧ appendAudit X s₃ event = .ok s₄ ∧
    prepareTerminals X g.terminals g.state s₄ site.applied = .ok (t, rows) := by
  obtain ⟨s₁, h₁, h⟩ := bind_ok h
  obtain ⟨s₂, h₂, h⟩ := bind_ok h
  obtain ⟨s₃, h₃, h⟩ := bind_ok h
  obtain ⟨event, _, h⟩ := bind_ok h
  obtain ⟨s₄, h₄, h⟩ := bind_ok h
  exact ⟨s₁, s₂, s₃, _, s₄, lift_ok h₁, lift_ok h₂, h₃, lift_ok h₄, h⟩

theorem rejectedState_logs (h : rejectedState X site g next cmd e pend = .ok (t, rows)) :
    forgetLogs t = forgetLogs (atRevision g.state next.revision) := by
  obtain ⟨s₁, s₂, s₃, event, s₄, h₁, h₂, h₃, h₄, h⟩ := rejectedState_steps h
  have ha := congrArg forgetLogs (activation_rejectBudget_frame h₁)
  have hr := congrArg forgetLogs (retirement_rejectBudget_frame h₂)
  have hf := congrArg forgetLogs (rejectFinalize_frame h₃)
  have hau := congrArg forgetLogs (appendAudit_ok h₄).2
  have ht := congrArg forgetLogs (prepareTerminals_frame h)
  exact ht.trans (hau.trans (hf.trans (hr.trans ha)))

theorem rejectedState_content (h : rejectedState X site g next cmd e pend = .ok (t, rows)) :
    content t = content g.state := by
  have hl := rejectedState_logs h
  unfold content
  rw [hl]
  rfl

theorem attemptBatch_ok (h : attemptBatch X site g cmd batch = .ok (t, rcpt)) :
    let start := atRevision g.state site.applied.revision
    ∃ next, forgetFeed t = forgetFeed next ∧
      validateReadAssertions start batch.readSet cmd.timestampMs 512 = .ok () ∧
      applyMutations X start batch.operations site.applied.revision true g.indexes
        start.limits.maxBatchBytes site.resolver = .ok (next, rcpt) := by
  unfold attemptBatch at h
  obtain ⟨⟨next, written⟩, hb, h⟩ := bind_ok h
  replace h := then_ok h
  obtain ⟨fed, hfe, h⟩ := bind_ok h
  cases h
  replace hb := then_ok hb
  obtain ⟨_, hre, hb⟩ := bind_ok hb
  exact ⟨next, append_ok (query_ok hfe), query_ok hre, hb⟩

theorem attemptBatch_frame {applied : TenantState}
    (h : attemptBatch X site g cmd batch = .ok (applied, rcpt)) :
    MutationEffects.forgetDocuments (forgetFeed applied) =
      MutationEffects.forgetDocuments (forgetFeed (atRevision g.state site.applied.revision)) := by
  obtain ⟨next, hfe, _, hb⟩ := attemptBatch_ok h
  have hf := congrArg forgetFeed (MutationEffects.applyMutations_ok hb).1
  rw [hfe]
  exact hf

def grounds (s : TenantState) : Fixed :=
  { fixed s with mutationReceiptHead := ⟨"", 0, 0, 0, ""⟩ }

theorem grounds_of_fixed (h : fixed t = fixed s) : grounds t = grounds s := by
  unfold grounds
  rw [h]

/-- Every exit publishes at the revision of its command and keeps what no operation changes; a
mutation is audited only, unless it is recorded and advances the receipts. -/
theorem exit_fixed (h : Exit X site g cmd ⟨some g', changed, out⟩) :
    (fixed g'.state = fixed (atRevision g.state site.applied.revision) ∧
        g'.receipts = g.receipts ∧ (isMutation cmd.operation = true →
          forgetAudits g'.state = forgetAudits (atRevision g.state site.applied.revision) ∧
            g'.indexes = g.indexes)) ∨ ∃ batch start pend,
        Recorded X site g cmd batch changed start out g'.state pend g'.accounting ∧
        fixed start = fixed (atRevision g.state site.applied.revision) ∧
        cmd.operation = .mutate batch ∧ stageReceipt X g.receipts pend = .ok g'.receipts := by
  cases h with
  | skipped => exact .inl ⟨rfl, rfl, fun _ => ⟨rfl, rfl⟩⟩
  | observed _ _ hap =>
    rw [(appendAudit_ok hap).2]
    exact .inl ⟨rfl, rfl, fun _ => ⟨rfl, rfl⟩⟩
  | recorded hop _ hr hs => exact .inr ⟨_, _, _, hr, rfl, hop, hs⟩
  | committed hop _ hatt hr _ hs =>
    have hat := congrArg fixed (attemptBatch_frame hatt)
    exact .inr ⟨_, _, _, hr, hat, hop, hs⟩
  | published hop hra hmo _ _ hfe =>
    have ha := congrArg fixed (auditCommand_frame hra.audited)
    have ht := congrArg fixed (prepareTerminals_frame hmo)
    have hf := congrArg fixed (candidateFeed_frame hfe)
    have hra := operated_fixed (runOperation_operated hra.ran)
    refine .inl ⟨hf.trans (ht.trans (ha.trans hra)), rfl, fun hm => ?_⟩
    rw [hop] at hm
    cases hm
  | rejected hop _ hra hmo hc hrej =>
    have ha := congrArg TenantState.revision (auditCommand_frame hra.audited)
    have ht := congrArg TenantState.revision (prepareTerminals_frame hmo)
    have hf := congrArg TenantState.revision hc
    have ho := congrArg Fixed.revision (operated_fixed (runOperation_operated hra.ran))
    have hre := hf.trans (ht.trans (ha.trans ho))
    have hl := congrArg fixed (rejectedState_logs hrej)
    dsimp only [forgetFeed, fixed, atRevision] at hre
    rw [hre] at hl
    refine .inl ⟨hl, rfl, fun hm => ?_⟩
    rw [hop] at hm
    cases hm

theorem exit_grounds (h : Exit X site g cmd ⟨some g', changed, out⟩) :
    grounds g'.state = grounds (atRevision g.state site.applied.revision) := by
  rcases exit_fixed h with ⟨hf, _⟩ | ⟨_, _, _, hr, hs, _⟩
  · exact grounds_of_fixed hf
  have hre := congrArg grounds (recorded_frame hr)
  have hg := grounds_of_fixed hs
  exact hre.trans hg

end Frames

end PublicationExits
