import Kasumi.TerminalMoves

/-! How a command changes the record of each staged identity. A record is begun or stopped by
the command that names it, grows by uploads, and ends by that command's outcome or by the end
of its lease; no other record changes. -/
namespace StagedSteps

open TenantTypes Staging PermanentRows FallibleSteps TenantFrames StagingEffects MutationEffects
  OperationEffects EffectFrames PublicationExits Engine

variable {Idx Acc : Type} (X : Externals Idx Acc)

def ownKey (command : Command) : Option String :=
  (stagedTransactionId command.operation).map fun id =>
    X.sha (.identity command.context.principal id)

def leaseOver (now : ℕ) (stage : StagedTransaction) : Bool :=
  stage.expiresAtMs.any fun expires => expires ≤ now

section

variable (command : Command) (revision : ℕ) (s : TenantState) (key : String)

inductive RecordChange : Option StagedTransaction → Prop where
  | kept : RecordChange (s.stagedTransactions.get key)
  | expired {stage : StagedTransaction} :
      s.activeStagedTransactions.contains key = true →
      s.stagedTransactions.get key = some stage → leaseOver command.timestampMs stage = true →
      RecordChange (some (expired stage revision))
  | begun {request : BeginStagedTransaction} {expires : ℕ} :
      command.operation = .beginStaged request → ownKey X command = some key →
      s.stagedTransactions.get key = none → validateManifest request.manifest s.limits = .ok () →
      RecordChange
        (some (newRecord request (X.sha (.manifest request.manifest)) (some expires) .uploading))
  | uploaded {request : AppendStagedChunk} {stage : StagedTransaction} {stored sent : ℕ} :
      command.operation = .appendStaged request → ownKey X command = some key →
      s.stagedTransactions.get key = some stage → stage.isActive = true →
      matchChunk X stage request.index request.chunk s.limits = .ok () →
      stage.chunks.contains request.index = false →
      RecordChange (some (withChunk stage request.index request.chunk stored sent))
  | finished {reference : StagedTransactionRef} {stage : StagedTransaction} {outcome : Outcome} :
      command.operation = .finalizeStaged reference → ownKey X command = some key →
      s.stagedTransactions.get key = some stage → stage.isActive = true →
      RecordChange (some (terminal stage outcome))
  | stopped {request : StopStagedTransaction} {stage : StagedTransaction} :
      command.operation = .stopStaged request → ownKey X command = some key →
      s.stagedTransactions.get key = some stage → stage.isActive = true →
      RecordChange (some { clearPayload stage with outcome := .aborted (emptyReceipt revision) })
  | stoppedNew {request : StopStagedTransaction} :
      command.operation = .stopStaged request → ownKey X command = some key →
      s.stagedTransactions.get key = none →
      RecordChange
        (some (newRecord request.original (X.sha (.manifest request.original.manifest)) none
          (.aborted (emptyReceipt revision))))

end

variable {X}

theorem ownKey_some {id : String} (h : stagedTransactionId cmd.operation = some id) :
    ownKey X cmd = some (X.sha (.identity cmd.context.principal id)) := by
  unfold ownKey
  rw [h]
  rfl

theorem replaceRecord_get (h : replaceRecord X s key st = .ok t) (k : String) :
    t.stagedTransactions.get k = if k = key then some st else s.stagedTransactions.get k := by
  rw [(replaceRecord_ok h).2.1, OrdMap.get_insert]

theorem replaceRecord_marks (h : replaceRecord X s key st = .ok t) (k : String) :
    t.activeStagedTransactions.contains k =
      if k = key then st.isActive else s.activeStagedTransactions.contains k := by
  rw [(replaceRecord_ok h).2.2.1]
  by_cases hk : k = key
  · rw [if_pos hk, hk]
    cases ho : st.isActive with
    | true => simp [OrdSet.contains_add]
    | false => simp [OrdMap.contains]
  split
  · simp [OrdSet.contains_add, hk]
  · unfold OrdMap.contains
    rw [OrdMap.get_remove_of_ne _ hk]

/-- Expiry ends marked records whose lease is over, each at most once. -/
theorem expires_cases (h : Expires X now rev s t) (k : String) :
    (t.stagedTransactions.get k = s.stagedTransactions.get k ∧
    t.activeStagedTransactions.contains k = s.activeStagedTransactions.contains k) ∨ ∃ st,
    s.activeStagedTransactions.contains k = true ∧ s.stagedTransactions.get k = some st ∧
    leaseOver now st = true ∧ t.stagedTransactions.get k = some (Staging.expired st rev) ∧
    t.activeStagedTransactions.contains k = false := by
  induction h with
  | done => exact .inl ⟨rfl, rfl⟩
  | @expire s t u key st hm hg hl hre _ ih =>
    have hr := replaceRecord_get hre k
    have hmar := replaceRecord_marks hre k
    by_cases hk : k = key
    · rw [if_pos hk] at hr hmar
      rcases ih with ⟨hs, hma⟩ | ⟨_, ha, _⟩
      · refine .inr ⟨st, by rw [hk]; exact hm, by rw [hk]; exact hg, hl, ?_, ?_⟩
        · rw [hs, hr]
        · rw [hma, hmar]
          rfl
      · rw [hmar] at ha
        cases ha
    rw [if_neg hk] at hr hmar
    rw [hr, hmar] at ih
    exact ih

theorem expires_limits (h : Expires X now rev s t) : t.limits = s.limits := by
  have hl := congrArg TenantState.limits (expires_frame h)
  exact hl

theorem stagedStep_records (h : StagedStep X cmd rev idx res u t a) (k : String) :
    RecordChange X cmd rev u k (t.stagedTransactions.get k) := by
  -- Every step that writes replaces the record under the command's own key.
  have replaced : ∀ {key : String} {v : TenantState} {st : StagedTransaction},
      v.stagedTransactions = u.stagedTransactions → replaceRecord X v key st = .ok t →
      RecordChange X cmd rev u key (some st) →
      RecordChange X cmd rev u k (t.stagedTransactions.get k) := by
    intro key v st hsa hr hc
    rw [replaceRecord_get hr k]
    by_cases hk : k = key
    · rw [if_pos hk, hk]
      exact hc
    · rw [if_neg hk, hsa]
      exact RecordChange.kept
  cases h with
  | replayed => exact RecordChange.kept
  | repeated => exact RecordChange.kept
  | begun ho hn hv hr =>
    exact replaced rfl hr (RecordChange.begun ho (ownKey_some (by rw [ho]; rfl)) hn hv)
  | uploaded ho hg hope hm hf hr =>
    exact replaced rfl hr
      (RecordChange.uploaded ho (ownKey_some (by rw [ho]; rfl)) hg hope hm hf)
  | stopped ho hg hope hr =>
    exact replaced rfl hr (RecordChange.stopped ho (ownKey_some (by rw [ho]; rfl)) hg hope)
  | stoppedNew ho hn hr =>
    exact replaced rfl hr (RecordChange.stoppedNew ho (ownKey_some (by rw [ho]; rfl)) hn)
  | finished ho hg hope _ hs hr =>
    refine replaced ?_ hr (RecordChange.finished ho (ownKey_some (by rw [ho]; rfl)) hg hope)
    rcases settle_cases hs with ⟨_, _, ha⟩ | ⟨_, _, hke⟩
    · have hfr := (applyMutations_ok (attempt_ok ha).2.2).1
      have hre := congrArg TenantState.stagedTransactions hfr
      exact hre
    · rw [hke]

theorem RecordChange.congr (h : RecordChange X cmd rev u key record)
    (hs : u.stagedTransactions.get key = s.stagedTransactions.get key)
    (hmar : u.activeStagedTransactions.contains key = s.activeStagedTransactions.contains key)
    (hl : u.limits = s.limits) : RecordChange X cmd rev s key record := by
  cases h with
  | kept =>
    rw [hs]
    exact RecordChange.kept
  | expired hm hold hle =>
    rw [hmar] at hm
    rw [hs] at hold
    exact RecordChange.expired hm hold hle
  | begun ho hk hn hv =>
    rw [hs] at hn
    rw [hl] at hv
    exact RecordChange.begun ho hk hn hv
  | uploaded ho hk hold hope hma hf =>
    rw [hs] at hold
    rw [hl] at hma
    exact RecordChange.uploaded ho hk hold hope hma hf
  | finished ho hk hold hope =>
    rw [hs] at hold
    exact RecordChange.finished ho hk hold hope
  | stopped ho hk hold hope =>
    rw [hs] at hold
    exact RecordChange.stopped ho hk hold hope
  | stoppedNew ho hk hn =>
    rw [hs] at hn
    exact RecordChange.stoppedNew ho hk hn

theorem RecordChange.of_ended (h : RecordChange X cmd rev u key record)
    (hg : u.stagedTransactions.get key = some st) (he : st.isActive = false)
    (hd : u.activeStagedTransactions.contains key = false) : record = some st := by
  cases h with
  | kept => exact hg
  | expired hm =>
    rw [hd] at hm
    cases hm
  | begun _ _ hn =>
    rw [hg] at hn
    cases hn
  | uploaded _ _ hold ho =>
    rw [hg] at hold
    cases hold
    rw [he] at ho
    cases ho
  | finished _ _ hold ho =>
    rw [hg] at hold
    cases hold
    rw [he] at ho
    cases ho
  | stopped _ _ hold ho =>
    rw [hg] at hold
    cases hold
    rw [he] at ho
    cases ho
  | stoppedNew _ _ hn =>
    rw [hg] at hn
    cases hn

/-- Expiry followed by a step: a record that expired can only be read by the step. -/
theorem RecordChange.after_expiry (he : Expires X cmd.timestampMs rev s u)
    (h : RecordChange X cmd rev u key record) : RecordChange X cmd rev s key record := by
  rcases expires_cases he key with ⟨hs, hma⟩ | ⟨st, hm, hg, hl, hex, hd⟩
  · exact h.congr hs hma (expires_limits he)
  · rw [h.of_ended hex rfl hd]
    exact RecordChange.expired hm hg hl

def stagedPart (s : TenantState) :
    OrdMap String StagedTransaction × OrdSet String × ℕ × ℕ × StagedTerminalHead :=
  (s.stagedTransactions, s.activeStagedTransactions, s.permanentStagedBytes,
    s.reservedStagedTerminalBytes, s.stagedTerminalHead)

/-- Only staged commands touch the staged part: by expiry, and by a step after it. -/
theorem effect_staged_cases (h : Effect X cmd rev idx res s result t) :
    stagedPart t = stagedPart s ∨
    (isStaged cmd.operation = true ∧ ∃ u, Expires X cmd.timestampMs rev s u ∧
    (t = u ∨ ∃ a, result = .ok a ∧ StagedStep X cmd rev idx res u t a)) := by
  cases h with
  | refused => exact .inl rfl
  | answered => exact .inl rfl
  | expired hst he => exact .inr ⟨hst, t, he, Or.inl rfl⟩
  | staged hst he hste =>
    exact .inr ⟨hst, _, he, Or.inr ⟨_, rfl, hste⟩⟩
  | audited => exact .inl rfl
  | restoreUnrecorded => exact .inl rfl
  | restored => exact .inl rfl
  | controlled _ hc _ =>
    have hf := congrArg stagedPart (candidate_frame hc)
    exact .inl hf
  | archived _ har =>
    obtain ⟨_, _, _, _, _, _, _, _, ht⟩ := har.moved
    rw [ht]
    exact .inl rfl
  | activated _ ha hs =>
    have h1 := congrArg stagedPart (store_activation_ok hs).1
    have h2 := congrArg stagedPart (activated_frame ha)
    exact .inl (h1.trans h2)
  | activationRejected _ hs =>
    have hf := congrArg stagedPart (store_activation_ok hs).1
    exact .inl hf
  | collection => exact .inl rfl
  | policy => exact .inl rfl
  | limits => exact .inl rfl
  | suspended => exact .inl rfl
  | retired _ hs _ =>
    have hf := congrArg stagedPart (store_retirement_ok hs).1
    exact .inl hf
  | retirementRecorded _ hs =>
    have hf := congrArg stagedPart (store_retirement_ok hs).1
    exact .inl hf

/-- A staged command that answers expired some uploads and made one step. -/
theorem staged_answers (ho : isStaged cmd.operation = true)
    (h : Effect X cmd rev idx res s (.ok a) t) : ∃ u, Expires X cmd.timestampMs rev s u ∧
    StagedStep X cmd rev idx res u t a := by
  cases h with
  | staged _ he hs => exact ⟨_, he, hs⟩
  | _ =>
    cases hc : cmd.operation <;>
      simp_all [isStaged, isAudit, LifecycleControl.isControlled, Retirement.retirementRequest]

theorem effect_records (h : Effect X cmd rev idx res s result t) (k : String) :
    RecordChange X cmd rev s k (t.stagedTransactions.get k) := by
  rcases effect_staged_cases h with hs | ⟨_, u, he, hl | ⟨a, _, hst⟩⟩
  · have hr := congrArg Prod.fst hs
    change t.stagedTransactions = s.stagedTransactions at hr
    rw [hr]
    exact RecordChange.kept
  · rw [hl]
    exact RecordChange.kept.after_expiry he
  · exact (stagedStep_records hst k).after_expiry he

def Marked (s : TenantState) : Prop :=
  ∀ key, s.activeStagedTransactions.contains key =
    (s.stagedTransactions.get key).any StagedTransaction.isActive

theorem Marked.replace (h : Marked s) (hr : replaceRecord X s key st = .ok t) : Marked t := by
  intro k
  rw [replaceRecord_get hr, replaceRecord_marks hr]
  by_cases hk : k = key
  · rw [if_pos hk, if_pos hk]
    rfl
  · rw [if_neg hk, if_neg hk]
    exact h k

theorem Marked.of_part (h : Marked s) (hs : stagedPart t = stagedPart s) : Marked t := by
  intro k
  have h1 := congrArg Prod.fst hs
  have h2 := congrArg (fun p => p.2.1) hs
  change t.stagedTransactions = s.stagedTransactions at h1
  change t.activeStagedTransactions = s.activeStagedTransactions at h2
  rw [h1, h2]
  exact h k

/-- The state an operation starts in: the previous one at the new revision, where the ended
record of the named identity may be shown from the history. -/
theorem started_cases {start : TenantState} (h : Started X site g cmd start) :
    (start = atRevision g.state site.applied.revision ∧ ∀ key, ownKey X cmd = some key →
      g.state.stagedTransactions.contains key = true ∨
        TerminalView.get X g.terminals key = .ok none) ∨
      ∃ key row, ownKey X cmd = some key ∧ g.state.stagedTransactions.get key = none ∧
        TerminalView.get X g.terminals key = .ok (some row) ∧
        TerminalRow.validate X row g.state = .ok () ∧
        start = { atRevision g.state site.applied.revision with
          stagedTransactions := g.state.stagedTransactions.insert key row.stage } := by
  have hs := h.shown
  unfold reinsertTerminal at hs
  split at hs
  · next hi =>
    cases hs
    refine .inl ⟨rfl, ?_⟩
    intro key hk
    unfold ownKey at hk
    rw [hi] at hk
    cases hk
  next id hi =>
  obtain ⟨key, hk, hs⟩ := bind_ok hs
  have hk := identity_ok (lift_ok hk)
  subst hk
  have ho : ∀ key, ownKey X cmd = some key →
      key = X.sha (.identity cmd.context.principal id) := by
    intro key hk
    rw [ownKey_some hi] at hk
    exact (Option.some.inj hk).symm
  split at hs
  · next hh =>
    cases hs
    refine .inl ⟨rfl, ?_⟩
    intro key hk
    rw [ho key hk]
    exact .inl hh
  next hne =>
  obtain ⟨found, hf, hs⟩ := bind_ok hs
  split at hs
  · cases hs
    refine .inl ⟨rfl, ?_⟩
    intro key hk
    rw [ho key hk]
    exact .inr hf
  next row =>
  obtain ⟨_, hv, hs⟩ := bind_ok hs
  cases hs
  refine .inr ⟨_, row, ownKey_some hi, ?_, hf, hv, rfl⟩
  have hn : (atRevision g.state site.applied.revision).stagedTransactions.contains
      (X.sha (.identity cmd.context.principal id)) = false :=
    Bool.eq_false_of_not_eq_true hne
  exact Option.not_isSome_iff_eq_none.mp (by rw [Bool.not_eq_true]; exact hn)

end StagedSteps
