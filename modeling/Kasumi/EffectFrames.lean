import Kasumi.MutationEffects
import Kasumi.OperationEffects

/-! What no operation changes. A command runs inside the part of the state that fixes its
history: names, lineage, revisions, the restored target and the receipts of ordinary
mutations. -/
namespace EffectFrames

open TenantTypes Mutations Staging FallibleSteps TenantFrames StagingEffects MutationEffects
  OperationEffects Engine

structure Fixed where
  tenant : String
  incarnation : String
  revision : ℕ
  revisionBase : ℕ
  restoreLineage : List RestoreLineageLink
  targetLifecycle : OrdMap String TargetExecutionState
  mutationReceiptHead : MutationReceiptHead
  backupBindingBytes : ℕ
  targetCompletionHead : Option TargetCompletionHead

def fixed (s : TenantState) : Fixed :=
  { tenant := s.tenant
    incarnation := s.incarnation
    revision := s.revision
    revisionBase := s.revisionBase
    restoreLineage := s.restoreLineage
    targetLifecycle := s.targetLifecycle
    mutationReceiptHead := s.mutationReceiptHead
    backupBindingBytes := s.backupBindingBytes
    targetCompletionHead := s.targetCompletionHead }

def forgetControl (s : TenantState) : TenantState :=
  { s with
    lifecycleControl := none
    policy := ⟨[], false⟩
    policyEpoch := 0 }

variable {Idx Acc : Type}

theorem expires_frame (h : Expires X now rev s t) : forgetStaged t = forgetStaged s := by
  induction h with
  | done => rfl
  | expire _ _ _ hr _ ih => rw [ih, (replaceRecord_ok hr).1]

theorem settle_cases
    (h : settle u x = .ok (t, out)) : (∃ rcpt, out = .ok rcpt ∧ x = .ok (t, rcpt)) ∨ ∃ e,
    out = .error e ∧ t = u := by
  unfold settle at h
  split at h
  · cases h
    exact .inl ⟨_, rfl, rfl⟩
  · cases h
  next e =>
  split at h
  · cases h
  · cases h
    exact .inr ⟨e, rfl, rfl⟩

theorem attempt_ok (h : Staging.attempt X st now rev idx res u = .ok (t, rcpt)) :
    validateComplete X st = .ok () ∧
      validateReadAssertions u (stageAssertions st) now u.limits.atomic.maxReadAssertions =
        .ok () ∧ applyMutations X u (stageOperations st) rev false idx
        u.limits.atomic.maxTransactionBytes res = .ok (t, rcpt) := by
  obtain ⟨_, hc, h⟩ := bind_ok h
  obtain ⟨_, hr, h⟩ := bind_ok h
  obtain ⟨⟨staged, r⟩, ha, h⟩ := bind_ok h
  replace h := then_ok h
  cases h
  exact ⟨query_ok hc, query_ok hr, ha⟩

theorem stagedStep_frame (h : StagedStep X cmd rev idx res u t a) :
    forgetDocuments (forgetStaged t) = forgetDocuments (forgetStaged u) := by
  cases h with
  | replayed => rfl
  | repeated => rfl
  | begun _ _ _ hr => rw [(replaceRecord_ok hr).1]
  | uploaded _ _ _ _ _ hr => rw [(replaceRecord_ok hr).1]
  | stopped _ _ _ hr => rw [(replaceRecord_ok hr).1]
  | stoppedNew _ _ hr => rw [(replaceRecord_ok hr).1]
  | finished _ _ _ _ hs hr =>
    rw [(replaceRecord_ok hr).1]
    rcases settle_cases hs with ⟨rcpt, _, ha⟩ | ⟨_, _, hk⟩
    · obtain ⟨_, _, hap⟩ := attempt_ok ha
      have hf := congrArg forgetStaged (applyMutations_ok hap).1
      exact hf
    · rw [hk]

theorem candidate_frame (h : LifecycleControl.applyCandidate X s cmd req rev = .ok (.proposed t)) :
    forgetControl t = forgetControl s := by
  cases req with
  | install commandId installation =>
    replace h := then_ok h
    replace h := then_ok h
    split at h
    · split at h <;> cases h
    · cases h
      rfl
  | commitIntent req =>
    replace h := then_ok h
    obtain ⟨control, _, h⟩ := bind_ok h
    split at h
    · replace h := then_ok h
      cases h
    obtain ⟨expiry, _, h⟩ := bind_ok h
    cases h
    rfl
  | beginPolicyChange req =>
    replace h := then_ok h
    replace h := then_ok h
    obtain ⟨control, _, h⟩ := bind_ok h
    split at h
    · replace h := then_ok h
      cases h
    replace h := then_ok h
    cases h
    rfl
  | completePolicyChange req =>
    obtain ⟨control, _, h⟩ := bind_ok h
    obtain ⟨change, _, h⟩ := bind_ok h
    replace h := then_ok h
    split at h
    · replace h := then_ok h
      cases h
    replace h := then_ok h
    replace h := then_ok h
    obtain ⟨epoch, _, h⟩ := bind_ok h
    cases h
    rfl

theorem activated_frame (h : Activated X req res s t) : forgetCollections { t with
      schemaEpoch := 0
      policyEpoch := 0 } = forgetCollections { s with
      schemaEpoch := 0
      policyEpoch := 0 } := by
  obtain ⟨u, hu, ht⟩ := h.collections
  subst ht
  have hf := congrArg
    (fun state : TenantState => { state with
      schemaEpoch := 0
      policyEpoch := 0 }) (activateEach_frame hu)
  exact hf

theorem effect_fixed (h : Effect X cmd rev idx res s result t) : fixed t = fixed s := by
  cases h with
  | refused => rfl
  | answered => rfl
  | expired _ he =>
    have hf := congrArg fixed (expires_frame he)
    exact hf
  | staged _ he hst =>
    have h1 := congrArg fixed (expires_frame he)
    have h2 := congrArg fixed (stagedStep_frame hst)
    exact h2.trans h1
  | audited => rfl
  | restoreUnrecorded => rfl
  | restored => rfl
  | controlled _ hc _ =>
    have hf := congrArg fixed (candidate_frame hc)
    exact hf
  | archived _ har =>
    obtain ⟨_, _, _, _, _, _, _, _, ht⟩ := har.moved
    rw [ht]
    rfl
  | activated _ ha hs =>
    have h1 := congrArg fixed (store_activation_ok hs).1
    have h2 := congrArg fixed (activated_frame ha)
    exact h1.trans h2
  | activationRejected _ hs =>
    have hf := congrArg fixed (store_activation_ok hs).1
    exact hf
  | collection => rfl
  | policy => rfl
  | limits => rfl
  | suspended => rfl
  | retired _ hs _ =>
    have hf := congrArg fixed (store_retirement_ok hs).1
    exact hf
  | retirementRecorded _ hs =>
    have hf := congrArg fixed (store_retirement_ok hs).1
    exact hf

end EffectFrames
