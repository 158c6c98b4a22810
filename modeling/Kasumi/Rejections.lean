import Kasumi.TerminalHistory

/-! What a command that is refused leaves behind. The operation works on the state in place,
so a refusal publishes whatever was written before it; all the same only logs change, with one
exception: a completed restore clears its mark before its audit event is measured. -/
namespace Rejections

open TenantTypes TenantAccess Staging PermanentRows FallibleSteps TenantFrames StagingEffects
  OperationEffects EffectFrames PublicationExits TerminalMoves StagedSteps StagedTotals
  TerminalHistory Engine

variable {Idx Acc : Type} (X : Externals Idx Acc)

inductive Refusal (command : Command) (revision : ℕ) (e : Error) (s : TenantState) :
    TenantState → Prop where
  | same : Refusal command revision e s s
  | lapsed {t : TenantState} : isStaged command.operation = true →
      Expires X command.timestampMs revision s t → Refusal command revision e s t
  | failed {key : String} {stage : StagedTransaction} {u t : TenantState} :
      isStaged command.operation = true → ownKey X command = some key →
      Expires X command.timestampMs revision s u →
      replaceRecord X u key (terminal stage (.error e)) = .ok t → Refusal command revision e s t
  | activation {request : SchemaChangeSet} {record : StoredSchemaActivation} {t : TenantState} :
      command.operation = .activateSchema request →
      SchemaActivation.store X s
        (X.sha (.identity command.context.principal request.activationId)) record = .ok t →
      Refusal command revision e s t
  | retirement {request : RetireSourceRequest} {record : StoredRetirement} {t : TenantState} :
      Retirement.retirementRequest command.operation = some request →
      Retirement.store X s (X.sha (.retirementIdentity request.expectedSourceIncarnation
        request.retirementId)) record = .ok t →
      Refusal command revision e s t
  | unrecorded {event : AuditEvent} : command.operation = .maintenanceAudit event →
      isRestoreCompletion event = true →
      validateMaintenance X s command event revision = .ok () →
      checkPendingRestore s event = .ok () → maxAuditEventBytes < X.len (.auditEvent event) →
      Refusal command revision e s { s with pendingRestore := none }

/-- A completed restore that passes every check, with an audit event above the record budget. -/
def OversizedRestore (command : Command) (revision : ℕ) (s : TenantState) : Prop :=
  ∃ event, command.operation = .maintenanceAudit event ∧ isRestoreCompletion event = true ∧
    checkCaller X s command = .ok () ∧
    validateMaintenance X s command event revision = .ok () ∧
    checkPendingRestore s event = .ok () ∧
    maxAuditEventBytes < X.len (.auditEvent event)

variable {X}
variable {command : Command} {rev : ℕ} {s t u : TenantState}

variable {e : Error} {changed : Bool}

theorem appendAudit_error (h : appendAudit X s event = .error e) (hc : e.code ≠ .corruption) :
    maxAuditEventBytes < X.len (.auditEvent event) := by
  rcases bind_error h with h | ⟨_, _, h⟩
  · rcases bind_error h with h | ⟨_, _, h⟩
    · simpa using (require_error h).1
    rcases bind_error h with h | ⟨_, _, h⟩
    · exact absurd (congrArg Error.code (orError_error h)) hc
    rcases bind_error h with h | ⟨_, _, h⟩
    · exact absurd (congrArg Error.code (orError_error h)) hc
    · cases h
  · cases h

theorem settled_error
    (h : settleOperation result = .ok (.error e, changed)) : e.code ≠ .corruption ∧
    (result = .ok (.error e, changed) ∨ (result = .error (.query e) ∧ changed = false)) := by
  unfold settleOperation at h
  split at h
  · cases h
  · split at h
    · cases h
    next hc =>
    cases h
    exact ⟨hc, Or.inl rfl⟩
  · split at h
    · cases h
    next hc =>
    cases h
    exact ⟨hc, Or.inr ⟨rfl, rfl⟩⟩
  · cases h

theorem stagedStep_refusal (hop : isStaged command.operation = true)
    (he : Expires X command.timestampMs rev s u)
    (h : StagedStep X command rev idx res u t (.error e, changed)) :
    changed = false ∧ Refusal X command rev e s t := by
  generalize ha : ((.error e, changed) : Applied) = a at h
  cases h with
  | replayed =>
    injection ha with _ hc
    exact ⟨hc, Refusal.lapsed hop he⟩
  | finished hf hg hope _ hs hr =>
    injection ha with ho hc
    rw [← ho] at hc hs hr
    rcases settle_cases hs with ⟨_, hok, _⟩ | ⟨_, _, hk⟩
    · cases hok
    · rw [hk] at hr
      exact ⟨hc, Refusal.failed hop (ownKey_some (by rw [hf]; rfl)) he hr⟩
  | _ => cases ha

/-- Every refusal of an operation is one of these, and claims no change of documents. -/
theorem effect_refusal (h : Effect X command rev idx res s result t)
    (hse : settleOperation result = .ok (.error e, changed)) :
    changed = false ∧ Refusal X command rev e s t := by
  obtain ⟨hco, hr⟩ := settled_error hse
  rcases hr with hr | ⟨hr, hch⟩
  · subst hr
    generalize ha : (Except.ok (.error e, changed) : Except ReadFailure Applied) = result at h
    cases h with
    | answered =>
      cases ha
      exact ⟨rfl, Refusal.same⟩
    | staged ho hex hst =>
      injection ha with ha
      subst ha
      exact stagedStep_refusal ho hex hst
    | activationRejected ho hs =>
      cases ha
      exact ⟨rfl, Refusal.activation ho hs⟩
    | retirementRecorded ho hs =>
      cases ha
      exact ⟨rfl, Refusal.retirement ho hs⟩
    | _ => cases ha
  refine ⟨hch, ?_⟩
  subst hr
  generalize ha : (Except.error (.query e) : Except ReadFailure Applied) = result at h
  cases h with
  | refused => exact Refusal.same
  | expired ho hex => exact Refusal.lapsed ho hex
  | restoreUnrecorded ho hc hv hp hap =>
    cases ha
    obtain ⟨e', he, hap⟩ := query_error hap
    cases he
    exact Refusal.unrecorded ho hc hv hp (appendAudit_error hap hco)
  | _ => cases ha

section Logs

variable (X)

def auditPart (s : TenantState) : List AuditEvent × AuditRetentionState :=
  (s.audits, s.auditRetention)

def activationPart (s : TenantState) : OrdMap String StoredSchemaActivation × ℕ :=
  (s.schemaActivations, s.schemaActivationBytes)

def retirementPart (s : TenantState) : OrdMap String StoredRetirement × ℕ :=
  (s.retirements, s.retirementBytes)

inductive AuditsGrow (s t : TenantState) : Prop where
  | none : auditPart t = auditPart s → AuditsGrow s t
  | one {event : AuditEvent} : auditPart t = (s.audits ++ [event], { s.auditRetention with
      nextSequence := s.auditRetention.nextSequence + 1
      hotBytes := s.auditRetention.hotBytes + X.len (.auditEvent event) }) → AuditsGrow s t

inductive RecordLeft (command : Command) (s t : TenantState) (key : String) : Prop where
  | kept : t.stagedTransactions.get key = s.stagedTransactions.get key →
      RecordLeft command s t key
  | own : ownKey X command = some key → t.stagedTransactions.get key = none →
      RecordLeft command s t key
  | expired {stage : StagedTransaction} : s.stagedTransactions.get key = some stage →
      leaseOver command.timestampMs stage = true → t.stagedTransactions.get key = none →
      RecordLeft command s t key

/-- A new row of the history belongs to the command's own identity or to an ended lease. -/
structure RowOf (site : Site) (command : Command) (s : TenantState) (row : TerminalRow) :
    Prop where
  applied : row.applied = site.applied
  source : ownKey X command = some row.key ∨ ∃ stage,
    s.stagedTransactions.get row.key = some stage ∧ leaseOver command.timestampMs stage = true ∧
    row.stage = Staging.expired stage site.applied.revision

/-- The staged records of a published generation: which of them changed, the rows that were
added, and the marks and totals that follow them. -/
structure StagedLeft (site : Site) (command : Command) (g g' : Generation Idx Acc) : Prop where
  records : ∀ key, RecordLeft X command g.state g'.state key
  marked : Marked g'.state
  history : ∃ pending, stageTerminals X g.terminals pending = .ok g'.terminals ∧
    g'.state.stagedTerminalHead = pending.head ∧
    (∀ row ∈ pending.rows, RowOf X site command g.state row) ∧
    Balanced X [] pending.rows g.state g'.state

inductive ReceiptsGrow (command : Command) (g g' : Generation Idx Acc) : Prop where
  | none : g'.receipts = g.receipts →
      g'.state.mutationReceiptHead = g.state.mutationReceiptHead → ReceiptsGrow command g g'
  | row {batch : MutationBatch} {pending : ReceiptPending} {bytes : ℕ} :
      command.operation = .mutate batch → pending.row.key = batchKey X command batch →
      ReceiptRow.framedBytes X pending.row = .ok bytes →
      advanceReceipt X g.state.mutationReceiptHead pending.row bytes = .ok pending.head →
      stageReceipt X g.receipts pending = .ok g'.receipts →
      g'.state.mutationReceiptHead = pending.head → ReceiptsGrow command g g'

/-- At most the activation record of the command's own identity is written. -/
inductive ActivationsGrow (command : Command) (s t : TenantState) : Prop where
  | none : activationPart t = activationPart s → ActivationsGrow command s t
  | record {request : SchemaChangeSet} {key : String} {record : StoredSchemaActivation}
      {old new : ℕ} : command.operation = .activateSchema request →
      key = X.sha (.identity command.context.principal request.activationId) →
      SchemaActivation.oldEntryBytes X s key = .ok old →
      SchemaActivation.entryBytes X key record = .ok new →
      t.schemaActivations = s.schemaActivations.insert key record →
      t.schemaActivationBytes + old = s.schemaActivationBytes + new → ActivationsGrow command s t

inductive RetirementsGrow (command : Command) (s t : TenantState) : Prop where
  | none : retirementPart t = retirementPart s → RetirementsGrow command s t
  | record {request : RetireSourceRequest} {key : String} {record : StoredRetirement}
      {old new : ℕ} : Retirement.retirementRequest command.operation = some request →
      key = X.sha (.retirementIdentity request.expectedSourceIncarnation request.retirementId) →
      Retirement.oldEntryBytes X s key = .ok old → Retirement.entryBytes X key record = .ok new →
      t.retirements = s.retirements.insert key record →
      t.retirementBytes + old = s.retirementBytes + new → RetirementsGrow command s t

/-- A published generation differs from the previous one in its logs only: its revision, at
most one audit event, ended leases and the permanent record of the command's own identity.
`content` is all the rest of the state. -/
structure OnlyLogs (site : Site) (command : Command) (g g' : Generation Idx Acc) : Prop where
  revision : g'.state.revision = site.applied.revision
  content : content g'.state = content g.state
  indexes : g'.indexes = g.indexes
  audits : AuditsGrow X g.state g'.state
  staged : StagedLeft X site command g g'
  unstaged : isStaged command.operation = false → stagedPart g'.state = stagedPart g.state ∧
    g'.terminals = g.terminals
  receipts : ReceiptsGrow X command g g'
  activations : ActivationsGrow X command g.state g'.state
  retirements : RetirementsGrow X command g.state g'.state

end Logs

theorem content_of (forget : TenantState → TenantState) (hf : ∀ u, content (forget u) = content u)
    (h : forget t = forget s) : content t = content s := by
  rw [← hf t, h, hf]

theorem content_of_staged (h : forgetStaged t = forgetStaged s) : content t = content s :=
  content_of forgetStaged (fun _ => rfl) h

theorem content_of_audits (h : forgetAudits t = forgetAudits s) : content t = content s :=
  content_of forgetAudits (fun _ => rfl) h

theorem content_of_receipts (h : forgetReceipts t = forgetReceipts s) : content t = content s := by
  refine content_of forgetReceipts (fun u => ?_) h
  dsimp only [forgetReceipts, content, forgetLogs, forgetRetirements, forgetActivations,
    forgetAudits, forgetStaged]

theorem content_atRevision (rev : ℕ) : content (atRevision s rev) = content s := rfl

theorem Refusal.content (h : Refusal X command rev e s t) :
    TenantFrames.content t = TenantFrames.content s ∨ ∃ event,
      command.operation = .maintenanceAudit event ∧ isRestoreCompletion event = true ∧
      validateMaintenance X s command event rev = .ok () ∧ checkPendingRestore s event = .ok () ∧
      maxAuditEventBytes < X.len (.auditEvent event) := by
  cases h with
  | same => exact .inl rfl
  | lapsed _ he => exact .inl (content_of_staged (expires_frame he))
  | failed _ _ he hr =>
    exact .inl (content_of_staged ((replaceRecord_ok hr).1.trans (expires_frame he)))
  | activation _ hs =>
    exact .inl (content_of forgetActivations (fun _ => rfl) (store_activation_ok hs).1)
  | retirement _ hs =>
    exact .inl (content_of forgetRetirements (fun _ => rfl) (store_retirement_ok hs).1)
  | unrecorded ho hc hv hp hl => exact .inr ⟨_, ho, hc, hv, hp, hl⟩

/-- What a refused operation leaves of a staged record: the record as it was, or an ended one. -/
theorem Refusal.record (h : Refusal X command rev e s t) (key : String) :
    t.stagedTransactions.get key = s.stagedTransactions.get key ∨
      ∃ st, t.stagedTransactions.get key = some st ∧ st.isActive = false := by
  have lapsed : ∀ {u}, Expires X command.timestampMs rev s u →
      u.stagedTransactions.get key = s.stagedTransactions.get key ∨
        ∃ st, u.stagedTransactions.get key = some st ∧ st.isActive = false := by
    intro u he
    rcases expires_cases he key with ⟨hk, _⟩ | ⟨st, _, _, _, hex, _⟩
    · exact .inl hk
    · exact .inr ⟨_, hex, rfl⟩
  cases h with
  | same => exact .inl rfl
  | lapsed _ he => exact lapsed he
  | @failed own _ u _ _ _ he hr =>
    rw [replaceRecord_get hr]
    by_cases hk : key = own
    · rw [if_pos hk]
      exact .inr ⟨_, rfl, rfl⟩
    · rw [if_neg hk]
      exact lapsed he
  | activation _ hs =>
    have hf := congrArg TenantState.stagedTransactions (store_activation_ok hs).1
    exact .inl (congrArg (OrdMap.get · key) hf)
  | retirement _ hs =>
    have hf := congrArg TenantState.stagedTransactions (store_retirement_ok hs).1
    exact .inl (congrArg (OrdMap.get · key) hf)
  | unrecorded => exact .inl rfl

theorem store_activation_grows (ho : command.operation = .activateSchema req)
    (h : SchemaActivation.store X s
      (X.sha (.identity command.context.principal req.activationId)) record = .ok t) :
    ActivationsGrow X command s t := by
  obtain ⟨_, hi, old, new, hold, hn, hb⟩ := store_activation_ok h
  exact ActivationsGrow.record ho rfl hold hn hi hb

theorem store_retirement_grows (ho : Retirement.retirementRequest command.operation = some req)
    (h : Retirement.store X s (X.sha (.retirementIdentity req.expectedSourceIncarnation
      req.retirementId)) record = .ok t) : RetirementsGrow X command s t := by
  obtain ⟨_, hi, old, new, hold, hn, hb⟩ := store_retirement_ok h
  exact RetirementsGrow.record ho rfl hold hn hi hb

theorem ActivationsGrow.congr (h : ActivationsGrow X command s t)
    (hs : activationPart s' = activationPart s) (ht : activationPart t' = activationPart t) :
    ActivationsGrow X command s' t' := by
  obtain ⟨hs1, hs2⟩ := Prod.mk.inj hs
  obtain ⟨ht1, ht2⟩ := Prod.mk.inj ht
  cases h with
  | none hsa => exact ActivationsGrow.none (ht.trans (hsa.trans hs.symm))
  | record ho hk hold hn hi hb =>
    unfold SchemaActivation.oldEntryBytes at hold
    rw [← hs1] at hold hi
    rw [← ht1] at hi
    rw [← hs2, ← ht2] at hb
    exact ActivationsGrow.record ho hk hold hn hi hb

theorem RetirementsGrow.congr (h : RetirementsGrow X command s t)
    (hs : retirementPart s' = retirementPart s) (ht : retirementPart t' = retirementPart t) :
    RetirementsGrow X command s' t' := by
  obtain ⟨hs1, hs2⟩ := Prod.mk.inj hs
  obtain ⟨ht1, ht2⟩ := Prod.mk.inj ht
  cases h with
  | none hsa => exact RetirementsGrow.none (ht.trans (hsa.trans hs.symm))
  | record ho hk hold hn hi hb =>
    unfold Retirement.oldEntryBytes at hold
    rw [← hs1] at hold hi
    rw [← ht1] at hi
    rw [← hs2, ← ht2] at hb
    exact RetirementsGrow.record ho hk hold hn hi hb

def logPart (s : TenantState) := (auditPart s, activationPart s, retirementPart s,
  s.mutationReceiptHead)

variable (X command) in
/-- The logs after a refused operation: they gained its own permanent record at most. -/
structure RefusedLogs (s t : TenantState) : Prop where
  audits : auditPart t = auditPart s
  activations : ActivationsGrow X command s t
  retirements : RetirementsGrow X command s t
  receipts : t.mutationReceiptHead = s.mutationReceiptHead

theorem RefusedLogs.congr {s' : TenantState} (h : RefusedLogs X command s t)
    (hs : logPart s' = logPart s) (ht : logPart t' = logPart t) : RefusedLogs X command s' t' := by
  simp only [logPart, Prod.mk.injEq] at hs ht
  obtain ⟨hs1, hs2, hs3, hs4⟩ := hs
  obtain ⟨ht1, ht2, ht3, ht4⟩ := ht
  exact ⟨ht1.trans (h.audits.trans hs1.symm), h.activations.congr hs2 ht2,
    h.retirements.congr hs3 ht3, ht4.trans (h.receipts.trans hs4.symm)⟩

theorem RefusedLogs.refl (s : TenantState) : RefusedLogs X command s s :=
  ⟨rfl, ActivationsGrow.none rfl, RetirementsGrow.none rfl, rfl⟩

theorem logPart_of_staged (h : forgetStaged t = forgetStaged s) : logPart t = logPart s := by
  have hp := congrArg logPart h
  exact hp

theorem Refusal.logs (h : Refusal X command rev e s t) : RefusedLogs X command s t := by
  cases h with
  | same => exact RefusedLogs.refl s
  | lapsed _ he =>
    exact (RefusedLogs.refl s).congr rfl (logPart_of_staged (expires_frame he))
  | failed _ _ he hrep =>
    have hf := (replaceRecord_ok hrep).1.trans (expires_frame he)
    exact (RefusedLogs.refl s).congr rfl (logPart_of_staged hf)
  | activation ho hs =>
    have hf := (store_activation_ok hs).1
    have ha := congrArg auditPart hf
    have hre := congrArg retirementPart hf
    have hr := congrArg TenantState.mutationReceiptHead hf
    exact ⟨ha, store_activation_grows ho hs, RetirementsGrow.none hre, hr⟩
  | retirement ho hs =>
    have hf := (store_retirement_ok hs).1
    have ha := congrArg auditPart hf
    have hac := congrArg activationPart hf
    have hr := congrArg TenantState.mutationReceiptHead hf
    exact ⟨ha, ActivationsGrow.none hac, store_retirement_grows ho hs, hr⟩
  | unrecorded => exact ⟨rfl, ActivationsGrow.none rfl, RetirementsGrow.none rfl, rfl⟩

section Exits

variable {site : Site} {g g' : Generation Idx Acc} {out : Outcome} {changed : ChangedIds}
  {rows : List TerminalRow} {next operated moved : TenantState} {pend : TerminalPending}
  {result : Except ReadFailure Applied} {applied : AppliedIdentity} {final : TenantState}
  {changedDocuments : Bool}

theorem operated_refusal (hru : Operated X site g command result operated)
    (hs : settleOperation result = .ok (.error e, changedDocuments)) :
    changedDocuments = false ∧ (operated = atRevision g.state site.applied.revision ∨
      ∃ start, Started X site g command start ∧
        Refusal X command site.applied.revision e start operated) := by
  cases hru with
  | stranger =>
    obtain ⟨_, hre⟩ := settled_error hs
    rcases hre with hre | ⟨_, hc⟩
    · cases hre
    · exact ⟨hc, .inl rfl⟩
  | refused hst he =>
    obtain ⟨hc, hr⟩ := effect_refusal he hs
    exact ⟨hc, .inr ⟨_, hst, hr⟩⟩
  | answered hst ha =>
    obtain ⟨hc, hr⟩ := effect_refusal ha.2 hs
    exact ⟨hc, .inr ⟨_, hst, hr⟩⟩

/-- A refused command leaves every record as it was, or ended. -/
theorem candidate_ended (h : History X g.state g.terminals rows)
    (hca : Candidate X site g command (.error e) next) (key : String) :
    next.stagedTransactions.get key = g.state.stagedTransactions.get key ∨
      ∃ st, next.stagedTransactions.get key = some st ∧ st.isActive = false := by
  generalize ho : (.error e : Outcome) = out at hca
  cases hca with
  | ran hop hs hp =>
    subst ho
    have hr := congrArg Prod.fst hp
    dsimp only [stagedPart] at hr
    rw [hr]
    obtain ⟨_, rfl | ⟨start, hst, hre⟩⟩ := operated_refusal hop hs
    · exact .inl rfl
    rcases hre.record key with hk | hen
    · rw [hk]
      rcases started_cases hst with ⟨rfl, _⟩ | ⟨own, row, _, _, hg, _, rfl⟩
      · exact .inl rfl
      by_cases hk : key = own
      · subst hk
        rcases h.get_cases hg with ⟨r, hr, _, hrow⟩ | ⟨hn, _⟩
        · cases hrow
          exact .inr ⟨_, OrdMap.get_insert_self _ _ _, h.ended _ hr⟩
        · cases hn
      · exact .inl (OrdMap.get_insert_of_ne _ _ hk)
    · exact .inr hen
  | kept hp =>
    have hr := congrArg Prod.fst hp
    dsimp only [stagedPart] at hr
    rw [hr]
    exact .inl rfl
  | @failed _ own _ _ _ _ _ _ _ _ _ hb hre ha =>
    have hr := congrArg Prod.fst ha
    have hs := congrArg Prod.fst hb
    dsimp only [stagedPart] at hr hs
    rw [hr, replaceRecord_get hre, hs]
    by_cases hk : key = own
    · rw [if_pos hk]
      exact .inr ⟨_, rfl, rfl⟩
    · rw [if_neg hk]
      exact .inl rfl

theorem candidate_record (hca : Candidate X site g command out next) (ho : ownKey
    X command ≠ some key) : next.stagedTransactions.get key = g.state.stagedTransactions.get key ∨
    ∃ st, g.state.stagedTransactions.get key = some st ∧ leaseOver command.timestampMs st =
    true ∧ next.stagedTransactions.get key = some (Staging.expired st site.applied.revision) :=
    by
  cases hca with
  | ran hop _ hp =>
    have hr := congrArg Prod.fst hp
    dsimp only [stagedPart] at hr
    rw [hr]
    have hc := operated_records hop (fun how => absurd how ho)
    revert hc
    generalize OrdMap.get _ key = record
    intro hc
    cases hc with
    | kept => exact .inl rfl
    | expired _ hg hl => exact .inr ⟨_, hg, hl, rfl⟩
    | begun _ how => exact absurd how ho
    | uploaded _ how => exact absurd how ho
    | finished _ how => exact absurd how ho
    | stopped _ how => exact absurd how ho
    | stoppedNew _ how => exact absurd how ho
  | kept hp =>
    have hr := congrArg Prod.fst hp
    dsimp only [stagedPart] at hr
    rw [hr]
    exact .inl rfl
  | failed _ how _ _ hb hre ha =>
    have hr := congrArg Prod.fst ha
    have hs := congrArg Prod.fst hb
    dsimp only [stagedPart] at hr hs
    rw [hr, replaceRecord_get hre, hs, if_neg]
    · exact .inl rfl
    intro hk
    rw [hk] at ho
    exact ho how

theorem exit_stagedLeft (h : History X g.state g.terminals rows)
    (hex : Exit X site g command ⟨some g', changed, .error e⟩) :
    StagedLeft X site command g g' := by
  have ht : g'.state.tenant = g.state.tenant := congrArg Fixed.tenant (exit_grounds hex)
  rcases exit_candidate h hex with ⟨hsa, hv⟩ |
      ⟨next, moved, pend, hc, hn, hm, hs, hfi⟩
  · have hre := congrArg Prod.fst hsa
    have hhe := congrArg (fun p => p.2.2.2.2) hsa
    dsimp only [stagedPart] at hre hhe
    refine ⟨?_, h.marked.of_part hsa, ⟨g.terminals.head, []⟩, by rw [hv]; rfl, hhe.trans h.head,
      ?_, Balanced.of_part hsa⟩
    · intro key
      apply RecordLeft.kept
      rw [hre]
    · intro row hrow
      cases hrow
  obtain ⟨hh, hb⟩ := h.move (hc.ready h hn) hm hs hfi ht
  obtain ⟨_, _, hhe, _, hne, _⟩ := prepareTerminals_rows hm
  have hg : ∀ key, g'.state.stagedTransactions.get key =
      (next.stagedTransactions.get key).filter StagedTransaction.isActive := by
    intro key
    have hsa := congrArg Prod.fst hfi
    dsimp only [stagedPart] at hsa
    rw [hsa, (prepareTerminals_records hm).2]
  have hf := congrArg (fun p => p.2.2.2.2) hfi
  refine ⟨?_, hh.marked, pend, hs, hf.trans hhe, ?_, hb⟩
  · intro key
    have kept : next.stagedTransactions.get key = g.state.stagedTransactions.get key →
        RecordLeft X command g.state g'.state key := by
      intro hk
      apply RecordLeft.kept
      rw [hg, hk]
      cases hhel : g.state.stagedTransactions.get key with
      | none => rfl
      | some st => rw [Option.filter_some, h.active key st hhel, if_pos rfl]
    by_cases ho : ownKey X command = some key
    · rcases candidate_ended h hc key with hk | ⟨st, he, hen⟩
      · exact kept hk
      apply RecordLeft.own ho
      rw [hg, he, Option.filter_some, hen]
      rfl
    rcases candidate_record hc ho with hk | ⟨st, hold, hl, he⟩
    · exact kept hk
    apply RecordLeft.expired hold hl
    rw [hg, he]
    rfl
  intro row hrow
  obtain ⟨hen, hro⟩ := hne row hrow
  refine ⟨hro.applied, ?_⟩
  by_cases ho : ownKey X command = some row.key
  · exact .inl ho
  right
  have hr := hro.ended
  rcases candidate_record hc ho with hk | ⟨st, hold, hl, he⟩
  · rw [hk] at hr
    rw [h.active row.key row.stage hr] at hen
    cases hen
  · rw [he] at hr
    exact ⟨st, hold, hl, (Option.some.inj hr).symm⟩

theorem prepareTerminals_idle (ha : AllActive next)
    (h : prepareTerminals X view prev next applied = .ok (moved, pend)) :
    moved = next ∧ pend = ⟨view.head, []⟩ := by
  have hn : endedKeys next = [] := by
    rw [List.eq_nil_iff_forall_not_mem]
    intro key hk
    obtain ⟨st, hg, he⟩ := mem_endedKeys.mp hk
    rw [ha key st hg] at he
    cases he
  obtain ⟨_, hm, rfl, _, hh⟩ := prepareTerminals_ok h
  rw [hn] at hm
  cases hm
  refine ⟨?_, rfl⟩
  rw [← hh]

theorem operated_unstaged (ho : isStaged command.operation = false)
    (hr : Operated X site g command result operated) :
    stagedPart operated = stagedPart g.state := by
  have ran : ∀ {start : TenantState} {result : Except ReadFailure Applied},
      Started X site g command start →
      Effect X command site.applied.revision g.indexes site.resolver start result
        operated → stagedPart operated = stagedPart g.state := by
    intro start result hs he
    have hp : stagedPart start = stagedPart g.state := by
      rcases started_cases hs with ⟨rfl, _⟩ | ⟨key, _, how, _⟩
      · rfl
      unfold ownKey stagedTransactionId at how
      unfold isStaged at ho
      split at ho <;> simp_all
    rcases effect_staged_cases he with hsa | ⟨hst, _⟩
    · exact hsa.trans hp
    · rw [ho] at hst
      cases hst
  cases hr with
  | stranger => rfl
  | refused hs he => exact ran hs he
  | answered hs ha => exact ran hs ha.2

theorem exit_unstaged (h : History X g.state g.terminals rows)
    (he : Exit X site g command ⟨some g', changed, out⟩) (hop : isStaged command.operation = false)
    : stagedPart g'.state = stagedPart g.state ∧ g'.terminals = g.terminals := by
  rcases exit_candidate h he with hsa |
      ⟨next, moved, pend, hc, _, hm, hs, hfi⟩
  · exact hsa
  have hn : stagedPart next = stagedPart g.state := by
    cases hc with
    | ran ho _ hp => exact hp.trans (operated_unstaged hop ho)
    | kept hp => exact hp
    | failed hf =>
      rw [hf] at hop
      cases hop
  have hr := congrArg Prod.fst hn
  obtain ⟨rfl, rfl⟩ := prepareTerminals_idle (allActive_of_records h.active hr) hm
  exact ⟨hfi.trans hn, (Except.ok.inj hs).symm⟩

theorem appendAudit_grows {event : AuditEvent} (h : appendAudit X s event = .ok t) :
    AuditsGrow X s t := by
  rw [(appendAudit_ok h).2]
  exact AuditsGrow.one rfl

theorem AuditsGrow.congr {s' : TenantState} (h : AuditsGrow X s t)
    (hs : auditPart s' = auditPart s) (ht : auditPart t' = auditPart t) : AuditsGrow X s' t' := by
  have hs1 := congrArg Prod.fst hs
  have hs2 := congrArg Prod.snd hs
  dsimp only [auditPart] at hs1 hs2
  cases h with
  | none hsa => exact AuditsGrow.none (ht.trans (hsa.trans hs.symm))
  | one ho =>
    rw [← hs1, ← hs2] at ho
    exact AuditsGrow.one (ht.trans ho)

theorem permit_template (h : permit X state command batch applied = .ok q) :
    q.template = receiptTemplate X state command batch := by
  unfold permit at h
  obtain ⟨_, _, h⟩ := bind_ok h
  obtain ⟨_, _, h⟩ := bind_ok h
  obtain ⟨_, _, h⟩ := bind_ok h
  obtain ⟨_, _, h⟩ := bind_ok h
  replace h := then_ok h
  cases h
  rfl

theorem recorded_receipt {changed : ChangedIds}
    {pend : ReceiptPending} (h : Recorded X site g command batch changed start out next pend acct)
    (hs : start.mutationReceiptHead = g.state.mutationReceiptHead) :
    next.mutationReceiptHead = pend.head ∧ pend.row.key = batchKey X command batch ∧
      pend.row.receipt = { receiptTemplate X (atRevision g.state site.applied.revision) command
        batch with outcome := out } ∧
      ∃ bs, ReceiptRow.validate X pend.row start = .ok bs ∧
        advanceReceipt X g.state.mutationReceiptHead pend.row bs = .ok pend.head := by
  obtain ⟨q, recorded, hpe, hf, hau⟩ := h.finalized
  rw [(appendAudit_ok hau).2]
  obtain ⟨hp, rfl⟩ := finalize_ok hf
  obtain ⟨_, hh, hp⟩ := bind_ok hp
  obtain ⟨_, hk, hp⟩ := bind_ok hp
  obtain ⟨ordinal, _, hp⟩ := bind_ok hp
  obtain ⟨bs, hv, hp⟩ := bind_ok hp
  obtain ⟨head, ha, hp⟩ := bind_ok hp
  replace hp := then_ok hp
  cases hp
  have hh : g.receipts.head = start.mutationReceiptHead := by
    simpa using ensure_ok hh
  have hk := ensure_ok hk
  simp only [decide_eq_true_eq] at hk
  refine ⟨rfl, hk.symm, by rw [permit_template hpe], bs, hv, ?_⟩
  rw [← hs, ← hh]
  exact ha

theorem recorded_audits {pend : ReceiptPending}
    (h : Recorded X site g command batch OrdMap.empty (atRevision g.state site.applied.revision)
      (.error e) next pend acct) : AuditsGrow X g.state next := by
  obtain ⟨q, recorded, _, hf, ha⟩ := h.finalized
  obtain ⟨_, rfl⟩ := finalize_ok hf
  exact (appendAudit_grows ha).congr rfl rfl

structure CandidateLogs (X : Externals Idx Acc) (command : Command) (s t : TenantState) : Prop where
  audits : AuditsGrow X s t
  activations : ActivationsGrow X command s t
  retirements : RetirementsGrow X command s t
  receipts : t.mutationReceiptHead = s.mutationReceiptHead

theorem RefusedLogs.audited (h : RefusedLogs X command s t) (hg : AuditsGrow X t u)
    (ha : forgetAudits u = forgetAudits t) (hs : forgetStaged final = forgetStaged u) :
    CandidateLogs X command s final := by
  have hf := logPart_of_staged hs
  simp only [logPart, Prod.mk.injEq] at hf
  obtain ⟨hau, hac, hr, hre⟩ := hf
  have p₁ := congrArg activationPart ha
  have p₂ := congrArg retirementPart ha
  have p₃ := congrArg TenantState.mutationReceiptHead ha
  exact ⟨hg.congr h.audits.symm hau, h.activations.congr rfl (hac.trans p₁),
    h.retirements.congr rfl (hr.trans p₂), hre.trans (p₃.trans h.receipts)⟩

theorem ran_logs (hra : Ran X site g command (.error e) changedDocuments result operated next)
    (hmo : prepareTerminals X g.terminals g.state next site.applied = .ok (moved, pend))
    (hfe : candidateFeed X g.state moved changed
      (changedDocuments && !isArchive command.operation) = .ok final) :
    changedDocuments = false ∧ CandidateLogs X command g.state final ∧
      (¬ OversizedRestore X command site.applied.revision
          (atRevision g.state site.applied.revision) →
        content final = content g.state) := by
  have ho := runOperation_operated hra.ran
  obtain ⟨hc, hr⟩ := operated_refusal ho hra.settled
  have hf : final = moved := by
    rw [hc] at hfe
    exact (Except.ok.inj hfe).symm
  have hm := prepareTerminals_frame hmo
  have hau := auditCommand_frame hra.audited
  have hg : AuditsGrow X operated next := by
    have ha := hra.audited
    unfold auditCommand at ha
    split at ha
    · cases ha
      exact AuditsGrow.none rfl
    · exact appendAudit_grows ha
  have hb : RefusedLogs X command g.state operated := by
    rcases hr with rfl | ⟨start, hst, hr⟩
    · exact (RefusedLogs.refl _).congr rfl rfl
    · exact hr.logs.congr (logPart_of_staged (reinsertTerminal_frame hst.shown)).symm rfl
  refine ⟨hc, ?_, ?_⟩
  · rw [hf]
    exact hb.audited hg hau hm
  intro hn
  rw [hf, content_of_staged hm, content_of_audits hau]
  rcases hr with rfl | ⟨start, hst, hr⟩
  · rfl
  have hs := content_of_staged (reinsertTerminal_frame hst.shown)
  rcases hr.content with hk | ⟨event, hop, hcom, hv, hp, hl⟩
  · exact hk.trans hs
  rcases started_cases hst with ⟨rfl, _⟩ | ⟨key, row, how, _⟩
  · exact absurd ⟨event, hop, hcom, hst.caller, hv, hp, hl⟩ hn
  · unfold ownKey stagedTransactionId at how
    rw [hop] at how
    cases how

theorem activation_rejectBudget_grows (h : SchemaActivation.rejectBudget X prev next s command e
    = .ok t) : ActivationsGrow X command s t := by
  unfold SchemaActivation.rejectBudget at h
  split at h
  · next req ho =>
    dsimp only at h
    split at h
    · exact store_activation_grows ho h
    · cases h
      exact ActivationsGrow.none rfl
  · cases h
    exact ActivationsGrow.none rfl

theorem retirement_rejectBudget_grows (h : Retirement.rejectBudget X prev next s command e = .ok
    t) : RetirementsGrow X command s t := by
  unfold Retirement.rejectBudget at h
  split at h
  · cases h
    exact RetirementsGrow.none rfl
  next req ho =>
  obtain ⟨ref, hr, h⟩ := bind_ok h
  obtain ⟨key, hk, h⟩ := bind_ok h
  have hk := retirement_key hr hk
  subst hk
  split at h
  · exact store_retirement_grows ho h
  · cases h
    exact RetirementsGrow.none rfl

theorem rejected_logs {pending' : TerminalPending} (hre : rejectedState X site g next command e
    pend = .ok (final, pending')) : CandidateLogs X command g.state final := by
  obtain ⟨s₁, s₂, s₃, event, s₄, h₁, h₂, h₃, h₄, hre⟩ := rejectedState_steps hre
  have ha := activation_rejectBudget_frame h₁
  have hr := retirement_rejectBudget_frame h₂
  have hrec : RefusedLogs X command g.state s₂ := by
    have a₁ := congrArg auditPart ha
    have a₂ := congrArg auditPart hr
    have r₁ := congrArg retirementPart ha
    have p₂ := congrArg activationPart hr
    have m₁ := congrArg TenantState.mutationReceiptHead ha
    have m₂ := congrArg TenantState.mutationReceiptHead hr
    exact ⟨a₂.trans a₁, (activation_rejectBudget_grows h₁).congr rfl p₂,
      (retirement_rejectBudget_grows h₂).congr r₁.symm rfl, m₂.trans m₁⟩
  have hf := hrec.congr rfl (logPart_of_staged (rejectFinalize_frame h₃))
  exact hf.audited (appendAudit_grows h₄) (appendAudit_frame h₄)
    (prepareTerminals_frame hre)

theorem exit_content (he : Exit X site g command ⟨some g', changed, .error e⟩)
    (hn : ¬ OversizedRestore X command site.applied.revision
      (atRevision g.state site.applied.revision)) :
    content g'.state = content g.state := by
  cases he with
  | skipped => rfl
  | observed _ _ ha =>
    exact (content_of_audits (appendAudit_frame ha)).trans (content_atRevision _)
  | recorded _ _ hr =>
    exact (content_of_receipts (recorded_frame hr)).trans (content_atRevision _)
  | published _ hra hm _ _ hf => exact (ran_logs hra hm hf).2.2 hn
  | rejected _ _ _ _ _ hre => exact rejectedState_content hre

/-- Every refused command leaves logs only, but for the one that loses a restore's mark. -/
theorem exit_onlyLogs (h : History X g.state g.terminals rows)
    (he : Exit X site g command ⟨some g', changed, .error e⟩)
    (hn : ¬ OversizedRestore X command site.applied.revision
      (atRevision g.state site.applied.revision)) :
    OnlyLogs X site command g g' := by
  have hr : g'.state.revision = site.applied.revision :=
    congrArg Fixed.revision (exit_grounds he)
  have hc := exit_content he hn
  have hs := exit_stagedLeft h he
  have hu := exit_unstaged h he
  cases he with
  | skipped =>
    exact ⟨hr, hc, rfl, AuditsGrow.none rfl, hs, hu,
      ReceiptsGrow.none rfl rfl, ActivationsGrow.none rfl, RetirementsGrow.none rfl⟩
  | observed _ _ hap =>
    have hf := appendAudit_frame hap
    have hh := congrArg TenantState.mutationReceiptHead hf
    have ha := congrArg activationPart hf
    have hre := congrArg retirementPart hf
    exact ⟨hr, hc, rfl, (appendAudit_grows hap).congr rfl rfl, hs, hu, ReceiptsGrow.none rfl hh,
      ActivationsGrow.none ha, RetirementsGrow.none hre⟩
  | recorded ho _ hrec hst =>
    have hf := recorded_frame hrec
    have ha := congrArg activationPart hf
    have hre := congrArg retirementPart hf
    obtain ⟨hh, hk, _, bs, hv, had⟩ := recorded_receipt hrec rfl
    obtain ⟨_, _, hb, _⟩ := receiptRow_ok hv
    exact ⟨hr, hc, rfl, recorded_audits hrec, hs, hu, ReceiptsGrow.row ho hk hb had hst hh,
      ActivationsGrow.none ha, RetirementsGrow.none hre⟩
  | published _ hra hm _ _ hfe _ _ _ hi =>
    obtain ⟨hch, hl, _⟩ := ran_logs hra hm hfe
    rw [hch] at hi
    exact ⟨hr, hc, (Except.ok.inj hi).symm, hl.audits, hs, hu,
      ReceiptsGrow.none rfl hl.receipts, hl.activations, hl.retirements⟩
  | rejected _ _ _ _ _ hrej =>
    have hl := rejected_logs hrej
    exact ⟨hr, hc, rfl, hl.audits, hs, hu,
      ReceiptsGrow.none rfl hl.receipts, hl.activations, hl.retirements⟩

end Exits

end Rejections
