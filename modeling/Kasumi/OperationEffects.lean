import Kasumi.StagingEffects

/-! What an operation can do to the state it runs on, in cases. Every refusal but one keeps
the state, apart from the uploads a staged command ended first; the exception is a completed
restore whose audit event cannot be recorded. -/
namespace OperationEffects

open TenantTypes TenantAccess Staging FallibleState FallibleSteps TenantFrames StagingEffects Engine

variable {Idx Acc : Type} (X : Externals Idx Acc)

def isStaged : Operation → Bool
  | .beginStaged _ => true
  | .appendStaged _ => true
  | .finalizeStaged _ => true
  | .stopStaged _ => true
  | _ => false

structure Activated (request : SchemaChangeSet) (resolver : Resolver) (s t : TenantState) :
    Prop where
  collections : ∃ u, SchemaActivation.activateEach X resolver request.changes s = .ok u ∧
    t = { u with
      schemaEpoch := s.schemaEpoch + 1
      policyEpoch := s.policyEpoch + 1 }

structure Archived (request : PublishHistoryArchive) (revision : ℕ) (resolver : Resolver)
    (s t : TenantState) : Prop where
  moved : ∃ collection rows archived logical bytes,
    s.collections.get request.manifest.collection = some collection ∧
    HistoryArchive.archivedRows X collection request.manifest resolver = .ok rows ∧
    HistoryArchive.archiveEach X rows collection s.logicalBytes = .ok (archived, logical) ∧
    t = { s with
      collections := s.collections.insert request.manifest.collection archived
      logicalBytes := logical
      historyArchiveBytes := bytes
      historyArchives := s.historyArchives.insert request.manifest.archiveId
        (HistoryArchive.retained request revision) }

section

variable (command : Command) (revision : ℕ) (indexes : Idx) (resolver : Resolver)
  (s : TenantState)

inductive Effect : Except ReadFailure Applied → TenantState → Prop where
  | refused (f : ReadFailure) : Effect (.error f) s
  | answered (outcome : Outcome) : isStaged command.operation = false →
      Effect (.ok (outcome, false)) s
  | expired {f : ReadFailure} {t : TenantState} :
      isStaged command.operation = true → Expires X command.timestampMs revision s t →
      Effect (.error f) t
  | staged {a : Applied} {u t : TenantState} :
      isStaged command.operation = true → Expires X command.timestampMs revision s u →
      StagedStep X command revision indexes resolver u t a →
      Effect (.ok a) t
  | audited {events : List AuditEvent} {next hot : ℕ} :
      isAudit command.operation = true →
      Effect (.ok (done revision)) (withAudits s events next hot)
  | restoreUnrecorded {event : AuditEvent} {f : ReadFailure} :
      command.operation = .maintenanceAudit event → isRestoreCompletion event = true →
      validateMaintenance X s command event revision = .ok () →
      checkPendingRestore s event = .ok () →
      query (appendAudit X { s with pendingRestore := none } event) = .error f →
      Effect (.error f) { s with pendingRestore := none }
  | restored {event : AuditEvent} {next hot : ℕ} :
      command.operation = .maintenanceAudit event →
      Effect (.ok (done revision)) (withAudits { s with pendingRestore := none } [event] next hot)
  | controlled {request : LifecycleControlCommand} {t : TenantState} :
      command.operation = .lifecycleControl request →
      LifecycleControl.applyCandidate X s command request revision = .ok (.proposed t) →
      LifecycleControl.validate X t = .ok () →
      Effect (.ok (LifecycleControl.receipt revision)) t
  | archived {request : PublishHistoryArchive} {t : TenantState} :
      command.operation = .publishHistoryArchive request →
      Archived X request revision resolver s t →
      Effect (.ok (.ok (emptyReceipt revision), true)) t
  | activated {request : SchemaChangeSet} {t u : TenantState} {record : StoredSchemaActivation} :
      command.operation = .activateSchema request → Activated X request resolver s u →
      SchemaActivation.store X u
        (X.sha (.identity command.context.principal request.activationId)) record = .ok t →
      Effect (.ok (.ok (emptyReceipt revision), true)) t
  | activationRejected {request : SchemaChangeSet} {t : TenantState} {e : Error}
      {record : StoredSchemaActivation} :
      command.operation = .activateSchema request →
      SchemaActivation.store X s
        (X.sha (.identity command.context.principal request.activationId)) record = .ok t →
      Effect (.ok (.error e, false)) t
  | collection {definition : CollectionDefinition} {create : Bool} {c : CollectionState} :
      SchemaActivation.prepareCollection X s (s.collections.get definition.name) definition create
        resolver = .ok c →
      LifecycleControl.isControlled command.operation = false →
      Effect (.ok (.ok (emptyReceipt revision), true))
        { s with
          collections := s.collections.insert definition.name c
          policyEpoch := s.policyEpoch + 1
          schemaEpoch := s.schemaEpoch + 1 }
  | policy {policy : Policy} :
      command.operation = .setPolicy policy →
      Effect (.ok (done revision))
        { s with
          policy := policy
          policyEpoch := s.policyEpoch + 1 }
  | limits {limits : Limits} {feed : ChangeFeedState} :
      command.operation = .setLimits limits →
      ChangeFeed.trim X s.changeFeed limits.history = .ok feed →
      Effect (.ok (done revision))
        { s with
          limits := limits
          policyEpoch := s.policyEpoch + 1
          changeFeed := feed }
  | suspended {suspended : Bool} :
      command.operation = .suspend suspended →
      Effect (.ok (done revision))
        { s with
          suspended := suspended
          policyEpoch := s.policyEpoch + 1 }
  | retired {prepared : PreparedRetirement} {t : TenantState} {record : StoredRetirement}
      {receipt : RetirementReceipt} :
      command.operation = .retireSource prepared →
      Retirement.store X s (X.sha (.retirementIdentity prepared.request.expectedSourceIncarnation
        prepared.request.retirementId)) record = .ok t →
      receipt.policyEpoch = s.policyEpoch + 1 →
      Effect (.ok (.ok (emptyReceipt revision), false)) (Retirement.freeze t (.ok receipt))
  | retirementRecorded {request : RetireSourceRequest} {t : TenantState}
      {record : StoredRetirement} {outcome : Outcome} :
      Retirement.retirementRequest command.operation = some request →
      Retirement.store X s (X.sha (.retirementIdentity request.expectedSourceIncarnation
        request.retirementId)) record = .ok t →
      Effect (.ok (outcome, false)) t

end

variable {X}

theorem lifecycle_effect (ho : cmd.operation = .lifecycleControl req)
    (h : LifecycleControl.apply X s cmd req rev = .ok (t, a)) :
    Effect X cmd rev idx res s (.ok a) t := by
  replace h := then_ok h
  obtain ⟨decision, hd, h⟩ := bind_ok h
  cases decision with
  | retained original =>
    cases h
    exact Effect.answered _ (by rw [ho]; rfl)
  | proposed cand =>
    obtain ⟨_, hv, h⟩ := bind_ok h
    cases h
    exact Effect.controlled ho hd hv

theorem publishNew_effect (ho : cmd.operation = .publishHistoryArchive req)
    (h : HistoryArchive.publishNew X s req rev res = .ok (t, a)) :
    Effect X cmd rev idx res s (.ok a) t := by
  obtain ⟨col, hc, h⟩ := bind_ok h
  obtain ⟨rows, hr, h⟩ := bind_ok h
  obtain ⟨⟨archived, logical⟩, ha, h⟩ := bind_ok h
  obtain ⟨_, _, h⟩ := bind_ok h
  obtain ⟨bs, _, h⟩ := bind_ok h
  cases h
  have hc := query_ok hc
  replace hc := then_ok hc
  replace hc := then_ok hc
  obtain ⟨found, hf, hc⟩ := bind_ok hc
  replace hc := then_ok hc
  replace hc := then_ok hc
  cases hc
  exact Effect.archived ho
    ⟨col, rows, archived, logical, bs, orError_ok hf, hr, query_ok ha, rfl⟩

theorem publish_effect (ho : cmd.operation = .publishHistoryArchive req)
    (h : HistoryArchive.publish X s cmd req rev res = .ok (t, a)) :
    Effect X cmd rev idx res s (.ok a) t := by
  replace h := then_ok h
  split at h
  · replace h := then_ok h
    cases h
    exact Effect.answered _ (by rw [ho]; rfl)
  · exact publishNew_effect ho h

theorem activateEach_frame {changes : List SchemaChange} :
    ∀ {s t : TenantState}, SchemaActivation.activateEach X res changes s = .ok t →
      forgetCollections t = forgetCollections s := by
  induction changes with
  | nil =>
    intro s t h
    cases h
    rfl
  | cons change changes ih =>
    intro s t h
    replace h := then_ok h
    obtain ⟨c, _, h⟩ := bind_ok h
    have hr := ih h
    exact hr

theorem activate_ok {req : SchemaChangeSet} (h : SchemaActivation.activate X s req res = .ok t) :
    Activated X req res s t := by
  replace h := then_ok h
  obtain ⟨u, hu, h⟩ := bind_ok h
  replace h := then_ok h
  obtain ⟨schemaEpoch, hs, h⟩ := bind_ok h
  obtain ⟨policyEpoch, hp, h⟩ := bind_ok h
  cases h
  have hk := activateEach_frame hu
  have hsc := congrArg TenantState.schemaEpoch hk
  have hpo := congrArg TenantState.policyEpoch hk
  dsimp only [forgetCollections] at hsc hpo
  rw [hsc] at hs
  rw [hpo] at hp
  have hs := nextPolicyEpoch_ok (query_ok hs)
  have hp := nextPolicyEpoch_ok (query_ok hp)
  subst hs hp
  exact ⟨u, hu, rfl⟩

theorem schema_effect (ho : cmd.operation = .activateSchema req)
    (h : SchemaActivation.apply X s cmd.context req rev cmd.timestampMs res = .ok (t, a)) :
    Effect X cmd rev idx res s (.ok a) t := by
  replace h := then_ok h
  obtain ⟨key, hk, h⟩ := bind_ok h
  have hk := identity_ok (query_ok hk)
  subst hk
  split at h
  · obtain ⟨out, _, h⟩ := bind_ok h
    cases h
    exact Effect.answered _ (by rw [ho]; rfl)
  replace h := then_ok h
  replace h := then_ok h
  obtain ⟨collections, _, h⟩ := bind_ok h
  obtain ⟨⟨u, out⟩, ha, h⟩ := bind_ok h
  obtain ⟨_, _, h⟩ := bind_ok h
  replace h := then_ok h
  obtain ⟨stored, hs, h⟩ := bind_ok h
  cases h
  have hs := query_ok hs
  unfold SchemaActivation.attempt at ha
  split at ha
  · next next hn =>
    cases ha
    replace hn := then_ok hn
    exact Effect.activated ho (activate_ok hn) hs
  · cases ha
    exact Effect.activationRejected ho hs
  · cases ha

theorem setCollection_effect (ho : LifecycleControl.isControlled cmd.operation = false)
    (h : setCollection X s cmd definition create rev res = .ok (t, a)) :
    Effect X cmd rev idx res s (.ok a) t := by
  replace h := then_ok h
  obtain ⟨c, hc, h⟩ := bind_ok h
  replace h := then_ok h
  obtain ⟨policyEpoch, hp, h⟩ := bind_ok h
  obtain ⟨schemaEpoch, hs, h⟩ := bind_ok h
  cases h
  have hs := nextPolicyEpoch_ok (query_ok hs)
  have hp := nextPolicyEpoch_ok (query_ok hp)
  subst hs hp
  exact Effect.collection hc ho

theorem setPolicy_effect (ho : cmd.operation = .setPolicy pol)
    (h : setPolicy X s cmd pol rev = .ok (t, a)) : Effect X cmd rev idx res s (.ok a) t := by
  replace h := then_ok h
  replace h := then_ok h
  obtain ⟨policyEpoch, hp, h⟩ := bind_ok h
  cases h
  have hp := nextPolicyEpoch_ok hp
  subst hp
  exact Effect.policy ho

theorem setLimits_effect (ho : cmd.operation = .setLimits limits)
    (h : setLimits X s cmd limits rev = .ok (t, a)) :
    Effect X cmd rev idx res s (.ok a) t := by
  replace h := then_ok h
  replace h := then_ok h
  replace h := then_ok h
  replace h := then_ok h
  replace h := then_ok h
  replace h := then_ok h
  obtain ⟨policyEpoch, hp, h⟩ := bind_ok h
  obtain ⟨feed, hf, h⟩ := bind_ok h
  cases h
  have hp := nextPolicyEpoch_ok hp
  subst hp
  exact Effect.limits ho hf

theorem suspend_effect (ho : cmd.operation = .suspend suspended)
    (h : suspend X s cmd suspended rev = .ok (t, a)) :
    Effect X cmd rev idx res s (.ok a) t := by
  replace h := then_ok h
  replace h := then_ok h
  obtain ⟨policyEpoch, hp, h⟩ := bind_ok h
  cases h
  have hp := nextPolicyEpoch_ok hp
  subst hp
  exact Effect.suspended ho

theorem retirement_key (hr : Retirement.RetireSourceRequest.reference X req = .ok ref)
    (hk : Retirement.identity X ref = .ok key) :
    key = X.sha (.retirementIdentity req.expectedSourceIncarnation req.retirementId) := by
  replace hr := then_ok hr
  cases hr
  replace hk := then_ok hk
  cases hk
  rfl

theorem decision_epoch (h : Retirement.decision X s cmd prepared prior rev = .ok rcpt) :
    rcpt.policyEpoch = s.policyEpoch + 1 ∧ rcpt.revision = rev := by
  replace h := then_ok h
  obtain ⟨_, _, h⟩ := bind_ok h
  replace h := then_ok h
  replace h := then_ok h
  replace h := then_ok h
  obtain ⟨_, _, h⟩ := bind_ok h
  obtain ⟨policyEpoch, hp, h⟩ := bind_ok h
  replace h := then_ok h
  cases h
  exact ⟨nextPolicyEpoch_ok hp, rfl⟩

theorem retire_effect (ho : cmd.operation = .retireSource prepared)
    (h : Retirement.apply X s cmd prepared prior rev = .ok (t, a)) :
    Effect X cmd rev idx res s (.ok a) t := by
  obtain ⟨admitted, _, h⟩ := bind_ok h
  cases admitted with
  | some record =>
    cases h
    exact Effect.answered _ (by rw [ho]; rfl)
  | none =>
    obtain ⟨ref, hre, h⟩ := bind_ok h
    obtain ⟨key, hk, h⟩ := bind_ok h
    obtain ⟨stored, hs, h⟩ := bind_ok h
    cases h
    have hk := retirement_key hre hk
    subst hk
    cases hd : Retirement.decision X s cmd prepared prior rev with
    | ok rcpt =>
      rw [hd] at hs
      obtain ⟨he, hr⟩ := decision_epoch hd
      rw [Retirement.writeOutcome, hr]
      exact Effect.retired ho hs he
    | error e =>
      rw [hd] at hs
      exact Effect.retirementRecorded (by rw [ho]; rfl) hs

theorem abort_effect (ho : cmd.operation = .abortRetirement req)
    (h : Retirement.abort X s cmd.context req rev = .ok (t, a)) :
    Effect X cmd rev idx res s (.ok a) t := by
  obtain ⟨ref, hr, h⟩ := bind_ok h
  obtain ⟨admitted, _, h⟩ := bind_ok h
  cases admitted with
  | some record =>
    cases h
    exact Effect.answered _ (by rw [ho]; rfl)
  | none =>
    obtain ⟨key, hk, h⟩ := bind_ok h
    obtain ⟨stored, hs, h⟩ := bind_ok h
    cases h
    have hk := retirement_key hr hk
    subst hk
    exact Effect.retirementRecorded (by rw [ho]; rfl) hs

theorem audit_effect (ho : cmd.operation = .audit event) (h : audit X s cmd event rev = .ok (t, a)) :
    Effect X cmd rev idx res s (.ok a) t := by
  replace h := then_ok h
  obtain ⟨u, hu, h⟩ := bind_ok h
  cases h
  obtain ⟨_, hu⟩ := appendAudit_ok hu
  subst hu
  exact Effect.audited (by rw [ho]; rfl)

theorem auditBatch_effect (ho : cmd.operation = .auditBatch evs)
    (h : auditBatch X s cmd evs rev = .ok (t, a)) : Effect X cmd rev idx res s (.ok a) t := by
  replace h := then_ok h
  obtain ⟨totals, _, h⟩ := bind_ok h
  cases h
  exact Effect.audited (by rw [ho]; rfl)

/-- The restore mark is cleared before the event is appended, so a refused append leaves the
state without it. -/
theorem maintenance_effects (ho : cmd.operation = .maintenanceAudit event) (s : TenantState) :
    Meets s (maintenanceAudit X cmd event rev)
    (fun f t => Effect X cmd rev idx res s (.error f) t)
    (fun a t => Effect X cmd rev idx res s (.ok a) t) := by
  apply meets_bind
  apply meets_get
  apply meets_bind
  apply meets_check_cases
  · intro _ hv
    split
    · next hc =>
      apply meets_bind
      apply meets_get
      apply meets_bind
      apply meets_check_cases
      · intro _ hp
        apply meets_bind
        apply meets_modify
        apply meets_install
        · intro t a h
          obtain ⟨u, hu, h⟩ := bind_ok h
          cases h
          obtain ⟨_, hu⟩ := appendAudit_ok (query_ok hu)
          subst hu
          exact Effect.restored ho
        intro f h
        rcases bind_error h with h | ⟨_, _, h⟩
        · exact Effect.restoreUnrecorded ho hc (query_ok hv) (query_ok hp) h
        · cases h
      · intro f _
        exact Effect.refused f
    apply meets_install
    · intro t a h
      obtain ⟨u, hu, h⟩ := bind_ok h
      cases h
      obtain ⟨_, hu⟩ := appendAudit_ok (query_ok hu)
      subst hu
      exact Effect.audited (by rw [ho]; rfl)
    · intro f _
      exact Effect.refused f
  · intro f _
    exact Effect.refused f

/-- An operation that answers did so past the guard of an installed control. -/
def Answers (command : Command) (revision : ℕ) (indexes : Idx)
    (resolver : Resolver) (s : TenantState) (a : Applied) (t : TenantState) : Prop :=
  LifecycleControl.guard s command.operation = .ok () ∧
    Effect X command revision indexes resolver s (.ok a) t

theorem operation_effects (cmd : Command) (rev prior : ℕ) (idx : Idx)
    (res : Resolver) (s : TenantState) : Meets s (applyOperation X cmd rev prior idx res)
      (fun f t => Effect X cmd rev idx res s (.error f) t)
      (fun a t => Answers (X := X) cmd rev idx res s a t) := by
  apply meets_bind
  apply meets_get
  apply meets_bind
  apply meets_check_cases
  case he => exact fun f _ => Effect.refused f
  intro _ _
  apply meets_bind
  apply meets_get
  apply meets_bind
  apply meets_check_cases
  case he => exact fun f _ => Effect.refused f
  intro _ hg
  have hg : LifecycleControl.guard s cmd.operation = .ok () := query_ok hg
  -- Every remaining operation installs the state its function returns, or keeps the old one.
  have installs : ∀ {x : TenantState → Except ReadFailure (TenantState × Applied)},
      (∀ t a, x s = .ok (t, a) →
        Effect X cmd rev idx res s (.ok a) t) →
      Meets s (install x)
        (fun f t => Effect X cmd rev idx res s (.error f) t)
        (fun a t => Answers (X := X) cmd rev idx res s a t) := by
    intro x hx
    exact meets_install (fun t a h => ⟨hg, hx t a h⟩) (fun f _ => Effect.refused f)
  have stages : isStaged cmd.operation = true →
      Meets s (Staging.apply X cmd rev idx res)
        (fun f t => Effect X cmd rev idx res s (.error f) t)
        (fun a t => Answers (X := X) cmd rev idx res s a t) := by
    intro ho
    apply meets_mono (apply_effects s)
    · intro f t ht
      exact Effect.expired ho ht
    intro a t ht
    obtain ⟨u, hu, hs⟩ := ht
    exact ⟨hg, Effect.staged ho hu hs⟩
  split
  · next req ho => exact installs fun t a h => lifecycle_effect ho (query_ok h)
  · next req ho => exact installs fun t a h => publish_effect ho h
  · next req ho => exact stages (by rw [ho]; rfl)
  · next req ho => exact stages (by rw [ho]; rfl)
  · next req ho => exact stages (by rw [ho]; rfl)
  · next req ho => exact stages (by rw [ho]; rfl)
  · exact meets_check_cases (fun _ h => by cases h) (fun f _ => Effect.refused f)
  · next req ho => exact installs fun t a h => schema_effect ho h
  · next definition ho =>
    exact installs fun t a h => setCollection_effect (by rw [ho]; rfl) h
  · next definition ho =>
    exact installs fun t a h => setCollection_effect (by rw [ho]; rfl) h
  · next pol ho => exact installs fun t a h => setPolicy_effect ho (query_ok h)
  · next limits ho => exact installs fun t a h => setLimits_effect ho (query_ok h)
  · next suspended ho => exact installs fun t a h => suspend_effect ho (query_ok h)
  · next prepared ho => exact installs fun t a h => retire_effect ho (query_ok h)
  · next req ho => exact installs fun t a h => abort_effect ho (query_ok h)
  · next event ho => exact installs fun t a h => audit_effect ho (query_ok h)
  · next evs ho => exact installs fun t a h => auditBatch_effect ho (query_ok h)
  next event ho =>
  apply meets_mono (maintenance_effects ho s)
  · exact fun _ _ h => h
  · exact fun _ _ h => ⟨hg, h⟩

end OperationEffects
