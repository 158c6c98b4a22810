import Kasumi.TenantFrames

/-! What a staged command does: it first ends the uploads whose lease is over, and then
answers from a record that already ended, or writes the one record it names. Only a finalized
transaction changes documents. -/
namespace StagingEffects

open TenantTypes Staging FallibleState FallibleSteps TenantFrames

variable {Idx Acc : Type} (X : Externals Idx Acc)

theorem meets_install {Q : α → TenantState → Prop} (ho : ∀ t a, x s = .ok (t, a) → Q a t)
    (he : ∀ f, x s = .error f → E f s) : Meets s (install x) E Q := by
  apply meets_bind
  apply meets_get
  apply meets_bind
  apply meets_check_cases
  · intro result hr
    apply meets_bind
    apply meets_set
    exact meets_pure (ho result.1 result.2 hr)
  · exact he

/-- A run of uploads ended by their lease, each still in the record it was uploaded to. -/
inductive Expires (now revision : ℕ) : TenantState → TenantState → Prop where
  | done (s) : Expires now revision s s
  | expire {s t u : TenantState} {key : String} {stage : StagedTransaction} :
      s.activeStagedTransactions.contains key = true →
      s.stagedTransactions.get key = some stage →
      (stage.expiresAtMs.any fun expires => expires ≤ now) = true →
      replaceRecord X s key (expired stage revision) = .ok t →
      Expires now revision t u → Expires now revision s u

/-- The uploads still to be ended are resident, active and past their lease. -/
def Due (now : ℕ) (keys : List String) (s : TenantState) : Prop :=
  ∀ key ∈ keys, s.activeStagedTransactions.contains key = true ∧
    (s.stagedTransactions.get key).any (fun stage =>
      stage.expiresAtMs.any fun expires => expires ≤ now) = true

theorem expired_inactive (st : StagedTransaction) (rev : ℕ) :
    (expired st rev).isActive = false := rfl

variable {X} {rev : ℕ} {st : StagedTransaction}

theorem Due.replace (h : Due now (key :: keys) s) (hnew : key ∉ keys)
    (hr : replaceRecord X s key (expired st rev) = .ok t) : Due now keys t := by
  obtain ⟨_, hre, hac, _⟩ := replaceRecord_ok hr
  intro k hk
  have hn : k ≠ key := fun he => hnew (he ▸ hk)
  obtain ⟨ha, hg⟩ := h k (List.mem_cons_of_mem _ hk)
  rw [hre, hac, if_neg (by simp [expired_inactive]), OrdMap.get_insert_of_ne _ _ hn]
  unfold OrdMap.contains at ha ⊢
  rw [OrdMap.get_remove_of_ne _ hn]
  exact ⟨ha, hg⟩

theorem expireEach_effects (hn : keys.Nodup) : ∀ {s : TenantState},
    Due now keys s → Meets s (expireEach X rev keys) (fun _ t => Expires X now rev s t)
    (fun _ t => Expires X now rev s t) := by
  induction keys with
  | nil =>
    intro s _
    exact meets_pure (Expires.done s)
  | cons key keys ih =>
    intro s hd
    obtain ⟨hne, hn⟩ := List.nodup_cons.mp hn
    obtain ⟨ha, hl⟩ := hd key List.mem_cons_self
    cases hr : s.stagedTransactions.get key with
    | none =>
      rw [hr] at hl
      cases hl
    | some st =>
      rw [hr] at hl
      unfold expireEach
      apply meets_bind
      apply meets_get
      rw [hr]
      apply meets_bind
      apply meets_install
      · intro t a ht
        obtain ⟨u, hu, ht⟩ := bind_ok ht
        cases ht
        have hu := query_ok hu
        apply meets_mono (ih hn (hd.replace hne hu))
        · intro _ v hv
          exact Expires.expire ha hr hl hu hv
        · intro _ v hv
          exact Expires.expire ha hr hl hu hv
      · intro f _
        exact Expires.done s

theorem expireActive_effects (s : TenantState) : Meets s (expireActive X now rev) (fun _ t =>
    Expires X now rev s t) (fun _ t => Expires X now rev s t) := by
  apply meets_bind
  apply meets_get
  apply expireEach_effects
  · exact (OrdMap.keys_nodup s.activeStagedTransactions).filter _
  intro key hk
  obtain ⟨hm, hl⟩ := List.mem_filter.mp hk
  exact ⟨OrdMap.mem_keys.mp hm, hl⟩

variable (X)

section

variable (command : Command) (revision : ℕ) (indexes : Idx) (resolver : Resolver)
  (u : TenantState)

/-- What the named record of a staged command becomes, from the state after expiry. -/
inductive StagedStep : TenantState → Applied → Prop where
  | replayed {id : String} {stage : StagedTransaction} {outcome : Outcome} :
      Engine.stagedTransactionId command.operation = some id →
      u.stagedTransactions.get (X.sha (.identity command.context.principal id)) = some stage →
      stage.outcome.resolved = some outcome →
      StagedStep u (outcome, false)
  | repeated {id : String} {stage : StagedTransaction} :
      Engine.stagedTransactionId command.operation = some id →
      u.stagedTransactions.get (X.sha (.identity command.context.principal id)) = some stage →
      (∀ reference, command.operation ≠ .finalizeStaged reference) →
      StagedStep u (.ok (emptyReceipt revision), false)
  | begun {request : BeginStagedTransaction} {expires : ℕ} {t : TenantState} :
      command.operation = .beginStaged request →
      u.stagedTransactions.get (X.sha (.identity command.context.principal request.transactionId)) =
        none →
      validateManifest request.manifest u.limits = .ok () →
      replaceRecord X u (X.sha (.identity command.context.principal request.transactionId))
        (newRecord request (X.sha (.manifest request.manifest)) (some expires) .uploading) = .ok t →
      StagedStep t (.ok (emptyReceipt revision), false)
  | uploaded {request : AppendStagedChunk} {stage : StagedTransaction} {stored sent : ℕ}
      {t : TenantState} :
      command.operation = .appendStaged request →
      u.stagedTransactions.get
        (X.sha (.identity command.context.principal request.transaction.transactionId)) =
          some stage →
      stage.isActive = true →
      matchChunk X stage request.index request.chunk u.limits = .ok () →
      stage.chunks.contains request.index = false →
      replaceRecord X u
        (X.sha (.identity command.context.principal request.transaction.transactionId))
        (withChunk stage request.index request.chunk stored sent) = .ok t →
      StagedStep t (.ok (emptyReceipt revision), false)
  | finished {reference : StagedTransactionRef} {stage : StagedTransaction} {staged t : TenantState}
      {outcome : Outcome} :
      command.operation = .finalizeStaged reference →
      u.stagedTransactions.get
        (X.sha (.identity command.context.principal reference.transactionId)) = some stage →
      stage.isActive = true →
      stage.chunks.size = stage.manifest.chunkDigests.length →
      settle u (attempt X stage command.timestampMs revision indexes resolver u) =
        .ok (staged, outcome) →
      replaceRecord X staged
        (X.sha (.identity command.context.principal reference.transactionId))
        (terminal stage outcome) = .ok t →
      StagedStep t (outcome, outcome.isOk)
  | stopped {request : StopStagedTransaction} {stage : StagedTransaction} {t : TenantState} :
      command.operation = .stopStaged request →
      u.stagedTransactions.get
        (X.sha (.identity command.context.principal request.original.transactionId)) = some stage →
      stage.isActive = true →
      replaceRecord X u
        (X.sha (.identity command.context.principal request.original.transactionId))
        { clearPayload stage with outcome := .aborted (emptyReceipt revision) } = .ok t →
      StagedStep t (.ok (emptyReceipt revision), false)
  | stoppedNew {request : StopStagedTransaction} {t : TenantState} :
      command.operation = .stopStaged request →
      u.stagedTransactions.get
        (X.sha (.identity command.context.principal request.original.transactionId)) = none →
      replaceRecord X u
        (X.sha (.identity command.context.principal request.original.transactionId))
        (newRecord request.original (X.sha (.manifest request.original.manifest)) none
          (.aborted (emptyReceipt revision))) = .ok t →
      StagedStep t (.ok (emptyReceipt revision), false)

end

variable {X}

theorem identity_ok {id : String} (h : identity X principal id = .ok key) :
    key = X.sha (.identity principal id) := by
  replace h := then_ok h
  replace h := then_ok h
  cases h
  rfl

theorem isActive_of_unresolved (h : st.outcome.resolved = none) : st.isActive = true := by
  unfold StagedTransaction.isActive
  cases ho : st.outcome <;> rw [ho] at h <;> first | rfl | cases h

theorem beginStaged_step {req : BeginStagedTransaction} (hop : cmd.operation = .beginStaged req)
    (h : beginStaged X cmd req rev u = .ok (t, a)) : StagedStep X cmd rev idx res u t a := by
  have h := query_ok h
  replace h := then_ok h
  replace h := then_ok h
  obtain ⟨key, hk, h⟩ := bind_ok h
  have hk := identity_ok hk
  subst hk
  split at h
  · next existing hg =>
    replace h := then_ok h
    cases h
    cases hr : existing.outcome.resolved with
    | some out => exact StagedStep.replayed (by rw [hop]; rfl) hg hr
    | none =>
      exact StagedStep.repeated (by rw [hop]; rfl) hg fun _ ho => by
        rw [hop] at ho
        cases ho
  next hn =>
  obtain ⟨_, hm, h⟩ := bind_ok h
  obtain ⟨expires, _, h⟩ := bind_ok h
  obtain ⟨staged, hs, h⟩ := bind_ok h
  replace h := then_ok h
  cases h
  exact StagedStep.begun hop hn hm hs

theorem lookup_ok {state : TenantState} (h : lookup X state context ref = .ok st) :
    state.stagedTransactions.get (X.sha (.identity context.principal ref.transactionId)) = some st ∧
    st.scope = ref.scope ∧ st.manifestDigest = ref.manifestDigest := by
  replace h := then_ok h
  replace h := then_ok h
  obtain ⟨key, hk, h⟩ := bind_ok h
  obtain ⟨found, hf, h⟩ := bind_ok h
  replace h := then_ok h
  obtain ⟨_, hs, h⟩ := bind_ok h
  cases h
  have hk := identity_ok hk
  subst hk
  have hs := require_ok hs
  simp only [Bool.and_eq_true, decide_eq_true_eq] at hs
  exact ⟨orError_ok hf, hs⟩

theorem appendStaged_step {req : AppendStagedChunk} (hop : cmd.operation = .appendStaged req)
    (h : appendStaged X cmd req rev u = .ok (t, a)) : StagedStep X cmd rev idx res u t a := by
  have h := query_ok h
  obtain ⟨st, hst, h⟩ := bind_ok h
  obtain ⟨_, hm, h⟩ := bind_ok h
  obtain ⟨hg, _⟩ := lookup_ok hst
  split at h
  · next out hr =>
    cases h
    exact StagedStep.replayed (by rw [hop]; rfl) hg hr
  next hope =>
  split at h
  · cases h
    exact StagedStep.repeated (by rw [hop]; rfl) hg fun _ ho => by
      rw [hop] at ho
      cases ho
  next hf =>
  obtain ⟨sent, _, h⟩ := bind_ok h
  replace h := then_ok h
  obtain ⟨key, hk, h⟩ := bind_ok h
  obtain ⟨stored, _, h⟩ := bind_ok h
  obtain ⟨staged, hs, h⟩ := bind_ok h
  cases h
  have hk := identity_ok hk
  subst hk
  exact StagedStep.uploaded hop hg (isActive_of_unresolved hope) hm
    (Bool.eq_false_of_not_eq_true hf) hs

theorem finalizeStaged_step {ref : StagedTransactionRef} (hop : cmd.operation = .finalizeStaged ref)
    (h : finalizeStaged X cmd ref rev idx res u = .ok (t, a)) :
    StagedStep X cmd rev idx res u t a := by
  obtain ⟨st, hst, h⟩ := bind_ok h
  obtain ⟨hg, _⟩ := lookup_ok (query_ok hst)
  split at h
  · next out hr =>
    cases h
    exact StagedStep.replayed (by rw [hop]; rfl) hg hr
  next ho =>
  obtain ⟨_, hc, h⟩ := bind_ok h
  obtain ⟨key, hk, h⟩ := bind_ok h
  obtain ⟨⟨staged, out⟩, hs, h⟩ := bind_ok h
  obtain ⟨final, hf, h⟩ := bind_ok h
  cases h
  have hk := identity_ok (query_ok hk)
  subst hk
  exact StagedStep.finished hop hg (isActive_of_unresolved ho)
    (of_decide_eq_true (require_ok (query_ok hc))) hs (query_ok hf)

theorem stopStaged_step {req : StopStagedTransaction} (hop : cmd.operation = .stopStaged req)
    (h : stopStaged X cmd req rev u = .ok (t, a)) : StagedStep X cmd rev idx res u t a := by
  have h := query_ok h
  obtain ⟨ref, hr, h⟩ := bind_ok h
  obtain ⟨key, hk, h⟩ := bind_ok h
  have hk := identity_ok hk
  replace hr := then_ok hr
  replace hr := then_ok hr
  cases hr
  subst hk
  split at h
  · next st hg =>
    replace h := then_ok h
    replace h := then_ok h
    split at h
    · next ha =>
      obtain ⟨staged, hs, h⟩ := bind_ok h
      cases h
      exact StagedStep.stopped hop hg ha hs
    cases h
    exact StagedStep.repeated (by rw [hop]; rfl) hg fun _ ho => by
      rw [hop] at ho
      cases ho
  next hg =>
  obtain ⟨staged, hs, h⟩ := bind_ok h
  cases h
  exact StagedStep.stoppedNew hop hg hs

/-- A staged command that refuses leaves the state with some uploads expired; one that
answers goes on from there by one step of the record it names. -/
theorem apply_effects (s : TenantState) : Meets s (Staging.apply X cmd rev idx res)
    (fun _ t => Expires X cmd.timestampMs rev s t)
    (fun a t => ∃ u, Expires X cmd.timestampMs rev s u ∧ StagedStep X cmd rev idx res u t a) := by
  apply meets_bind
  apply meets_get
  apply meets_bind
  apply meets_check_cases
  · intro _ _
    apply meets_then (expireActive_effects s)
    intro _ u hu
    have refuse : ∀ f : ReadFailure, Expires X cmd.timestampMs rev s u := fun _ => hu
    split
    · next req ho =>
      exact meets_install (fun t a h => ⟨u, hu, beginStaged_step ho h⟩) (fun f _ => refuse f)
    · next req ho =>
      exact meets_install (fun t a h => ⟨u, hu, appendStaged_step ho h⟩) (fun f _ => refuse f)
    · next ref ho =>
      exact meets_install (fun t a h => ⟨u, hu, finalizeStaged_step ho h⟩) (fun f _ => refuse f)
    · next req ho =>
      exact meets_install (fun t a h => ⟨u, hu, stopStaged_step ho h⟩) (fun f _ => refuse f)
    · exact meets_check_cases (fun _ h => by cases h) (fun f _ => refuse f)
  · intro _ _
    exact Expires.done s

end StagingEffects
