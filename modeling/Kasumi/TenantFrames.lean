import Kasumi.Engine
import Kasumi.FallibleSteps

/-! What the writers of a tenant leave alone. A state falls into its content and its logs: the
audit log, the staged records, the permanent records of schema activations and retirements and
the head of the receipts. Each writer of a log is shown to touch that log only. -/
namespace TenantFrames

open TenantTypes TenantAccess Staging PermanentRows FallibleSteps

section Inversion

variable {α : Type}

theorem require_ok (h : require c code m = .ok u) : c = true := by
  unfold require at h
  split at h
  · assumption
  · cases h

theorem require_error (h : require c code m = .error e) : c = false ∧ e = ⟨code, m⟩ := by
  unfold require fail at h
  split at h
  · cases h
  next hc =>
  cases h
  exact ⟨Bool.eq_false_of_not_eq_true hc, rfl⟩

theorem orError_ok (h : orError code m o = .ok a) : o = some a := by
  cases o with
  | none => cases h
  | some b =>
    cases h
    rfl

theorem orError_error (h : orError code m o = .error e) : e = ⟨code, m⟩ := by
  cases o with
  | none =>
    cases h
    rfl
  | some b => cases h

theorem query_ok (h : query x = .ok a) : x = .ok a := by
  cases x with
  | error e => cases h
  | ok b =>
    cases h
    rfl

theorem query_error (h : query x = .error f) : ∃ e, f = .query e ∧ x = .error e := by
  cases x with
  | ok b => cases h
  | error e =>
    cases h
    exact ⟨e, rfl, rfl⟩

theorem lift_ok (h : lift x = .ok a) : x = .ok a := by
  cases x with
  | error e => cases h
  | ok b =>
    cases h
    rfl

theorem chained_ok (h : chained x = .ok a) : x = .ok a := by
  cases x with
  | error e => cases h
  | ok b =>
    cases h
    rfl

theorem ensure_ok (h : ensure c m = .ok u) : c = true := by
  unfold ensure at h
  split at h
  · assumption
  · cases h

theorem context_ok (h : context m o = .ok a) : o = some a := by
  cases o with
  | none => cases h
  | some b =>
    cases h
    rfl

theorem checkedAdd_some (h : checkedAdd a b = some n) : n = a + b ∧ a + b < wordSize := by
  unfold checkedAdd at h
  split at h
  · cases h
    exact ⟨rfl, by assumption⟩
  · cases h

theorem checkedSub_some (h : checkedSub a b = some n) : n = a - b ∧ b ≤ a := by
  unfold checkedSub at h
  split at h
  · cases h
    exact ⟨rfl, by assumption⟩
  · cases h

theorem exchange_ok
    (h : orError code m ((checkedSub total old).bind fun n => checkedAdd n new) = .ok bs) :
    bs + old = total + new := by
  obtain ⟨n, hn, h⟩ := Option.bind_eq_some_iff.mp (orError_ok h)
  have hn := checkedSub_some hn
  have h := checkedAdd_some h
  omega

theorem receiptIdentity_ok
    (h : StoredReceipt.validateIdentity X rcpt key tenant genesis maximum = .ok ()) :
    rcpt.scope.tenant = tenant ∧ X.sha (.identity rcpt.scope.principal rcpt.idempotencyKey) = key ∧
    ∀ r, rcpt.outcome = .ok r → r.revision = rcpt.recordedRevision := by
  replace h := then_ok h
  replace h := then_ok h
  replace h := then_ok h
  replace h := then_ok h
  replace h := then_ok h
  have h := require_ok h
  simp only [ne_eq, Bool.not_or, Bool.and_eq_true, Bool.not_eq_true', decide_eq_false_iff_not,
    not_not] at h
  refine ⟨h.1.1.1.1, h.1.1.1.2, ?_⟩
  intro r hr
  have ho := h.2
  rw [hr] at ho
  simpa using ho

theorem receiptRow_ok (h : ReceiptRow.validate X row state = .ok bs) :
    validDigest row.key = true ∧ row.receipt.recordedRevision = row.applied.revision ∧
    ReceiptRow.framedBytes X row = .ok bs ∧ ∃ pos,
    AppliedIdentity.validateOriginalPosition row.applied state = .ok pos ∧
    StoredReceipt.validateIdentity X row.receipt row.key state.tenant pos.1 pos.2 = .ok () := by
  obtain ⟨_, hk, h⟩ := bind_ok h
  obtain ⟨pos, hp, h⟩ := bind_ok h
  obtain ⟨_, hi, h⟩ := bind_ok h
  obtain ⟨_, hr, h⟩ := bind_ok h
  replace h := then_ok h
  replace h := then_ok h
  replace h := then_ok h
  have hk := ensure_ok hk
  have hr := ensure_ok hr
  simp only [Bool.and_eq_true, decide_eq_true_eq] at hk hr
  exact ⟨hk.1.2, hr.2, h, pos, hp, lift_ok hi⟩

theorem nextPolicyEpoch_ok (h : nextPolicyEpoch epoch = .ok next) :
    next = epoch + 1 := (checkedAdd_some (orError_ok h)).1

end Inversion

def forgetStaged (s : TenantState) : TenantState :=
  { s with
    stagedTransactions := OrdMap.empty
    activeStagedTransactions := OrdMap.empty
    permanentStagedBytes := 0
    reservedStagedTerminalBytes := 0
    stagedTerminalHead := ⟨"", 0, 0, ""⟩ }

def forgetAudits (s : TenantState) : TenantState :=
  { s with
    audits := []
    auditRetention := ⟨0, 0, 0, 0, 0⟩ }

def forgetActivations (s : TenantState) : TenantState :=
  { s with
    schemaActivations := OrdMap.empty
    schemaActivationBytes := 0 }

def forgetRetirements (s : TenantState) : TenantState :=
  { s with
    retirements := OrdMap.empty
    retirementBytes := 0 }

def forgetFeed (s : TenantState) : TenantState :=
  { s with changeFeed := ⟨0, OrdMap.empty, 0, 0⟩ }

def forgetCollections (s : TenantState) : TenantState :=
  { s with collections := OrdMap.empty }

def forgetLogs (s : TenantState) : TenantState :=
  forgetRetirements (forgetActivations (forgetAudits (forgetStaged s)))

/-- A state without its logs, its receipt head and its revision: what commands are for. -/
def content (s : TenantState) : TenantState :=
  { forgetLogs s with
    revision := 0
    mutationReceiptHead := ⟨"", 0, 0, 0, ""⟩ }

variable {Idx Acc : Type}

theorem appendAudit_ok (h : appendAudit X s event = .ok t) :
    X.len (.auditEvent event) ≤ maxAuditEventBytes ∧
      t = withAudits s [event] (s.auditRetention.nextSequence + 1)
        (s.auditRetention.hotBytes + X.len (.auditEvent event)) := by
  obtain ⟨totals, ht, h⟩ := bind_ok h
  obtain ⟨_, hl, ht⟩ := bind_ok ht
  obtain ⟨next, hn, ht⟩ := bind_ok ht
  obtain ⟨ho, hh, ht⟩ := bind_ok ht
  have hl := require_ok hl
  have hn := (checkedAdd_some (orError_ok hn)).1
  have hh := (checkedAdd_some (orError_ok hh)).1
  cases ht
  cases h
  subst hn hh
  refine ⟨?_, rfl⟩
  simpa using hl

theorem appendAudit_frame (h : appendAudit X s event = .ok t) :
    forgetAudits t = forgetAudits s := by
  rw [(appendAudit_ok h).2]
  rfl

theorem replaceRecord_ok (h : replaceRecord X s key st = .ok t) : forgetStaged t = forgetStaged s ∧
      t.stagedTransactions = s.stagedTransactions.insert key st ∧
      t.activeStagedTransactions = (if st.isActive then s.activeStagedTransactions.add key
        else s.activeStagedTransactions.remove key) ∧
      t.stagedTerminalHead = s.stagedTerminalHead ∧ ∃ old new,
        chargeOf X key (s.stagedTransactions.get key) = .ok old ∧
        permanentCharge X key st = .ok new ∧
        t.permanentStagedBytes + old.1 = s.permanentStagedBytes + new.1 ∧
        t.reservedStagedTerminalBytes + old.2 = s.reservedStagedTerminalBytes + new.2 := by
  obtain ⟨old, hold, h⟩ := bind_ok h
  obtain ⟨new, hn, h⟩ := bind_ok h
  replace h := then_ok h
  obtain ⟨_, hu, h⟩ := bind_ok h
  obtain ⟨_, hr, h⟩ := bind_ok h
  replace h := then_ok h
  cases h
  exact ⟨rfl, rfl, rfl, rfl, old, new, hold, hn, exchange_ok hu, exchange_ok hr⟩

theorem append_ok
    (h : ChangeFeed.append X prev s changed = .ok t) : forgetFeed t = forgetFeed s := by
  obtain ⟨_, _, h⟩ := bind_ok h
  split at h
  · cases h
    rfl
  obtain ⟨_, _, h⟩ := bind_ok h
  replace h := then_ok h
  obtain ⟨_, _, h⟩ := bind_ok h
  obtain ⟨_, _, h⟩ := bind_ok h
  cases h
  rfl

theorem store_activation_ok (h : SchemaActivation.store X s key record = .ok t) :
    forgetActivations t = forgetActivations s ∧
      t.schemaActivations = s.schemaActivations.insert key record ∧ ∃ old new,
        SchemaActivation.oldEntryBytes X s key = .ok old ∧
        SchemaActivation.entryBytes X key record = .ok new ∧
        t.schemaActivationBytes + old = s.schemaActivationBytes + new := by
  obtain ⟨old, hold, h⟩ := bind_ok h
  obtain ⟨new, hn, h⟩ := bind_ok h
  obtain ⟨_, hb, h⟩ := bind_ok h
  replace h := then_ok h
  cases h
  exact ⟨rfl, rfl, old, new, hold, hn, exchange_ok hb⟩

theorem store_retirement_ok
    (h : Retirement.store X s key record = .ok t) : forgetRetirements t = forgetRetirements s ∧
    t.retirements = s.retirements.insert key record ∧ ∃ old new,
    Retirement.oldEntryBytes X s key = .ok old ∧ Retirement.entryBytes X key record = .ok new ∧
    t.retirementBytes + old = s.retirementBytes + new := by
  obtain ⟨old, hold, h⟩ := bind_ok h
  obtain ⟨new, hn, h⟩ := bind_ok h
  obtain ⟨_, hb, h⟩ := bind_ok h
  replace h := then_ok h
  cases h
  exact ⟨rfl, rfl, old, new, hold, hn, exchange_ok hb⟩

end TenantFrames
