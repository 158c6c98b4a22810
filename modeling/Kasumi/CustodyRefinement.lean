import Kasumi.CustodySizes

/-! The point tables of a retired source refine the reducer over its whole history. A custody
command moves the policy by the same transition in both; the head keeps the totals that the
full state has. -/
namespace CustodyRefinement

open TenantTypes TenantAccess Retirement JsonText CustodyReducer CustodyTables TenantFrames List
open FallibleSteps CustodySizes

variable {Idx Acc : Type} {X : CustodyExternals Idx Acc} {rev epoch : ℕ} {s : CustodyState}
  {r : CustodyReceipt} {id : String}

theorem require_true (h : c = true) (code : ErrorCode) (m : String) :
    require c code m = .ok () := by
  rw [h]
  rfl

structure Refers (commands : OrdMap String CustodyReceipt) (e : CustodyAudit)
    (r : CustodyReceipt) : Prop where
  shape : EventShape e
  found : commands.get e.commandId = some r
  digest : e.requestDigest = r.requestDigest
  accepted : e.accepted = r.outcome.isOk
  epoch : r.policyEpoch ≤ e.policyEpoch
  replayed : e.replay = true → r.revision < e.revision
  original : e.replay = false → e.revision = r.revision ∧ e.principal = r.principal ∧
    e.admittedAtMs = r.admittedAtMs ∧ e.policyEpoch = r.policyEpoch

def Ordered : ℕ → List CustodyAudit → Prop
  | _, [] => True
  | previous, e :: rest => previous < e.revision ∧ Ordered e.revision rest

structure Within (s : CustodyState) (r : CustodyReceipt) : Prop where
  shape : ReceiptShape r
  after : s.origin.revision < r.revision
  before : r.revision ≤ s.revision
  epoch : r.policyEpoch ≤ s.policyEpoch

variable (X) in
/-- Everything a custody state must satisfy apart from its byte budget. -/
structure Shaped (s : CustodyState) : Prop where
  origin : OriginShape X s.origin
  limits : s.limits.validate = .ok ()
  administrators : validateCustodyAdministrators s.administrators = .ok ()
  epoch : s.policyEpoch ≠ 0
  epochWord : s.policyEpoch < wordSize
  revision : s.origin.revision ≤ s.revision
  revisionWord : s.revision < wordSize
  keyed : Keyed s.commands
  receipts : ∀ id r, s.commands.get id = some r → Within s r
  ordered : Ordered s.origin.revision s.audit
  events : ∀ e ∈ s.audit, ∃ r, Refers s.commands e r ∧ e.revision ≤ s.revision ∧
    e.policyEpoch ≤ s.policyEpoch

theorem validateCommands_ok
    (h : ∀ id r, (id, r) ∈ l → r.validate = .ok () ∧ id = r.commandId ∧ r.revision ≤ rev ∧
      r.policyEpoch ≤ epoch) : validateCommands rev epoch l = .ok () := by
  induction l with
  | nil => rfl
  | cons entry rest ih =>
    obtain ⟨id, r⟩ := entry
    obtain ⟨hv, hi, hrv, he⟩ := h id r mem_cons_self
    rw [validateCommands, ok_bind hv, ok_bind]
    · exact ih fun id r hm => h id r (mem_cons_of_mem _ hm)
    · apply require_true
      simp [hi, hrv, he]

theorem validateAudit_ok (ho : Ordered old l)
    (h : ∀ e ∈ l, ∃ r, Refers cmds e r ∧ e.revision ≤ rev ∧ e.policyEpoch ≤ epoch) :
    validateAudit cmds rev epoch old l = .ok () := by
  induction l generalizing old with
  | nil => rfl
  | cons e rest ih =>
    obtain ⟨r, hr, hrv, he⟩ := h e mem_cons_self
    rw [validateAudit, ok_bind hr.shape.principal, ok_bind hr.shape.requestId, hr.found,
      orError, ok_bind rfl, ok_bind]
    · exact ih ho.2 fun e' hm => h e' (mem_cons_of_mem _ hm)
    · apply require_true
      simp [ho.1, hrv, he, hr.digest, hr.accepted]

theorem Shaped.validate_eq (h : Shaped X s) :
    s.validate X = require (size (stateJson X s) ≤ s.limits.maxStateBytes) .quotaExceeded
      "custody metadata byte budget exhausted" := by
  have hp : require (!(s.policyEpoch = 0 || s.revision < s.origin.revision)) .corruption
      "custody state position differs" = .ok () := by
    apply require_true
    simp [h.epoch, h.revision]
  have hc : validateCommands s.revision s.policyEpoch s.commands.entries = .ok () := by
    apply validateCommands_ok
    intro id r hm
    have hg := OrdMap.mem_entries.mp hm
    have hr := h.receipts id r hg
    exact ⟨hr.shape.valid, h.keyed id r hg, hr.before, hr.epoch⟩
  rw [CustodyState.validate, ok_bind h.limits, ok_bind h.administrators,
    ok_bind h.origin.request, ok_bind h.origin.receipt, ok_bind hp,
    ok_bind hc, ok_bind (validateAudit_ok h.ordered h.events)]

/-- What a command does to the policy, with the receipt it answers and its audit event. -/
structure Step where
  policy : CustodyState
  receipt : CustodyReceipt
  event : CustodyAudit

variable (X) in
def transition (p : CustodyState) (prior : Option CustodyReceipt) (context : RequestContext)
    (request : CustodyRequest) (admittedAtMs revision : ℕ) : Except Error Step := do
  p.authorize X context
  checkAdmittedAt context.authorization admittedAtMs
  request.validate
  let reference ← RetireSourceRequest.reference X.toExternals p.origin.request
  require (!(request.retirement ≠ reference || revision ≤ p.revision)) .conflict
    "custody source or applied revision differs"
  let digest ← request.digest X
  require (prior.all fun p => p.requestDigest = digest) .conflict
    "custody command identity differs"
  let (next, receipt) ← p.resolve context request digest admittedAtMs revision prior
  pure ⟨policy next, receipt,
    { principal := context.principal, requestId := context.requestId,
      commandId := request.commandId, requestDigest := digest, revision := revision,
      admittedAtMs := admittedAtMs, policyEpoch := next.policyEpoch, replay := prior.isSome,
      accepted := receipt.outcome.isOk }⟩

def extend (s : CustodyState) (step : Step) : CustodyState :=
  { step.policy with
    commands :=
      if step.event.replay then s.commands
      else s.commands.insert step.receipt.commandId step.receipt
    audit := s.audit ++ [step.event] }

theorem attempt_eq (s : CustodyState) (req : CustodyRequest) (ms rev : ℕ) :
    s.attempt req ms rev =
      ((policy s).attempt req ms rev).map fun a =>
        ({ a.1 with
            commands := s.commands
            audit := s.audit }, a.2) := by
  unfold CustodyState.attempt
  by_cases hd : ms > req.notAfterMs
  · rw [if_pos hd, if_pos hd]
    rfl
  rw [if_neg hd, if_neg hd]
  by_cases he : req.expectedPolicyEpoch ≠ s.policyEpoch
  · have hp : req.expectedPolicyEpoch ≠ (policy s).policyEpoch := he
    rw [if_pos he, if_pos hp]
    rfl
  have hp : ¬ req.expectedPolicyEpoch ≠ (policy s).policyEpoch := he
  have hsa : (policy s).policyEpoch = s.policyEpoch := rfl
  rw [if_neg he, if_neg hp, hsa]
  cases increment s.policyEpoch with
  | error e => rfl
  | ok epoch => cases req.action <;> rfl

theorem apply_eq (s : CustodyState) (context : RequestContext) (req : CustodyRequest)
    (ms rev : ℕ) :
    s.apply X context req ms rev = (do
      let step ← transition X (policy s) (s.commands.get req.commandId) context req
        ms rev
      (extend s step).validate X
      pure (extend s step, step.receipt)) := by
  unfold CustodyState.apply transition
  have ha : (policy s).authorize X context = s.authorize X context := rfl
  rw [ha]
  cases s.authorize X context with
  | error e => rfl
  | ok _ =>
  cases checkAdmittedAt context.authorization ms with
  | error e => rfl
  | ok _ =>
  cases req.validate with
  | error e => rfl
  | ok _ =>
  have ho : (policy s).origin = s.origin := rfl
  rw [ho]
  cases RetireSourceRequest.reference X.toExternals s.origin.request with
  | error e => rfl
  | ok ref =>
  have hp : (policy s).revision = s.revision := rfl
  rw [hp]
  simp only [bind, Except.bind]
  cases require (!(req.retirement ≠ ref || rev ≤ s.revision)) .conflict
    "custody source or applied revision differs" with
  | error e => rfl
  | ok _ =>
  cases req.digest X with
  | error e => rfl
  | ok digest =>
  dsimp only
  cases s.commands.get req.commandId with
  | some prior =>
    cases require ((some prior).all fun p => p.requestDigest = digest) .conflict
      "custody command identity differs" with
    | error e => rfl
    | ok _ => rfl
  | none =>
    simp only [CustodyState.resolve, attempt_eq s]
    cases (policy s).attempt req ms rev with
    | error e => rfl
    | ok a => rfl

structure Attempted (p next : CustodyState) (revision : ℕ) (outcome : Except Error Unit) :
    Prop where
  origin : next.origin = p.origin
  reached : next.revision = revision
  limits : next.limits.validate = .ok ()
  administrators : validateCustodyAdministrators next.administrators = .ok ()
  epoch : next.policyEpoch = p.policyEpoch ∨
    next.policyEpoch = p.policyEpoch + 1 ∧ p.policyEpoch + 1 < wordSize
  outcome : outcome = .ok () ∨
    outcome = .error ⟨.conflict, "custody action deadline expired"⟩ ∨
    outcome = .error ⟨.conflict, "custody policy changed"⟩

theorem attempt_ok
    (hl : p.limits.validate = .ok ()) (ha : validateCustodyAdministrators p.administrators = .ok ())
    (hr : req.validate = .ok ()) (h : p.attempt req ms rev = .ok (new, out)) :
    Attempted p new rev out := by
  unfold CustodyState.attempt at h
  split at h
  · cases h
    exact ⟨rfl, rfl, hl, ha, Or.inl rfl, Or.inr (Or.inl rfl)⟩
  split at h
  · cases h
    exact ⟨rfl, rfl, hl, ha, Or.inl rfl, Or.inr (Or.inr rfl)⟩
  obtain ⟨epoch, he, h⟩ := bind_ok h
  obtain ⟨rfl, hw⟩ := checkedAdd_some (orError_ok he)
  replace hr := then_ok hr
  replace hr := then_ok hr
  replace hr := then_ok hr
  cases hac : req.action with
  | replaceAdministrators administrators =>
    rw [hac] at h hr
    cases h
    exact ⟨rfl, rfl, hl, hr, Or.inr ⟨rfl, hw⟩, Or.inl rfl⟩
  | setLimits limits =>
    rw [hac] at h hr
    cases h
    exact ⟨rfl, rfl, hr, ha, Or.inr ⟨rfl, hw⟩, Or.inl rfl⟩

structure Moved (p : CustodyState) (prior : Option CustodyReceipt) (context : RequestContext)
    (request : CustodyRequest) (admittedAtMs revision : ℕ) (step : Step) : Prop where
  origin : step.policy.origin = p.origin
  reached : step.policy.revision = revision
  later : p.revision < revision
  limits : step.policy.limits.validate = .ok ()
  administrators : validateCustodyAdministrators step.policy.administrators = .ok ()
  epoch : p.policyEpoch ≤ step.policy.policyEpoch
  epochWord : step.policy.policyEpoch < wordSize
  bare : policy step.policy = step.policy
  principal : validateName step.event.principal = .ok ()
  requestId : validateName step.event.requestId = .ok ()
  commandId : validateName step.event.commandId = .ok ()
  digest : validDigest step.event.requestDigest = true
  identity : step.event.commandId = request.commandId
  position : step.event.revision = revision
  admitted : step.event.admittedAtMs = admittedAtMs
  eventEpoch : step.event.policyEpoch = step.policy.policyEpoch
  accepted : step.event.accepted = step.receipt.outcome.isOk
  linked : step.event.requestDigest = step.receipt.requestDigest
  replay : step.event.replay = prior.isSome
  kept : ∀ r, prior = some r → step.receipt = r
  fresh : prior = none → step.receipt.commandId = request.commandId ∧
    step.receipt.revision = revision ∧ step.receipt.principal = step.event.principal ∧
    step.receipt.admittedAtMs = admittedAtMs ∧
    step.receipt.policyEpoch = step.policy.policyEpoch ∧ ReceiptShape step.receipt

theorem transition_ok {context : RequestContext} (hl : p.limits.validate = .ok ())
    (ha : validateCustodyAdministrators p.administrators = .ok ()) (he : p.policyEpoch ≠ 0)
    (hw : p.policyEpoch < wordSize) (hadmitted : ms < wordSize) (hrv : rev < wordSize)
    (h : transition X p prior context req ms rev = .ok step) :
    Moved p prior context req ms rev step := by
  obtain ⟨_, hau, h⟩ := bind_ok h
  replace h := then_ok h
  obtain ⟨_, hreq, h⟩ := bind_ok h
  obtain ⟨ref, _, h⟩ := bind_ok h
  obtain ⟨_, hpo, h⟩ := bind_ok h
  obtain ⟨digest, hd, h⟩ := bind_ok h
  obtain ⟨_, hsa, h⟩ := bind_ok h
  obtain ⟨⟨next, rcpt⟩, hr, h⟩ := bind_ok h
  cases h
  replace hau := then_ok hau
  obtain ⟨_, hp, hau⟩ := bind_ok hau
  obtain ⟨_, hre, _⟩ := bind_ok hau
  replace hd := then_ok hd
  have hv : validDigest digest = true := by
    cases hd
    exact X.sha256_valid _
  obtain ⟨_, _, hn⟩ := bind_ok hreq
  obtain ⟨_, hn, _⟩ := bind_ok hn
  have hla : p.revision < rev := by
    have hc := require_ok hpo
    simp only [Bool.not_eq_true', Bool.or_eq_false_iff, decide_eq_false_iff_not, not_le] at hc
    exact hc.2
  cases prior with
  | some r =>
    cases hr
    have hdi : rcpt.requestDigest = digest := by
      have hc := require_ok hsa
      simpa using hc
    exact {
      origin := rfl, reached := rfl, later := hla, limits := hl, administrators := ha,
      epoch := le_refl _, epochWord := hw, bare := rfl, principal := hp,
      requestId := hre, commandId := hn, digest := hv, identity := rfl,
      position := rfl, admitted := rfl, eventEpoch := rfl, accepted := rfl,
      linked := hdi.symm, replay := rfl, kept := fun r h => Option.some.inj h,
      fresh := fun h => (nomatch h) }
  | none =>
    obtain ⟨⟨moved, out⟩, hat, hr⟩ := bind_ok hr
    cases hr
    have hm := attempt_ok hl ha hreq hat
    have hep : p.policyEpoch ≤ moved.policyEpoch ∧ moved.policyEpoch < wordSize ∧
        moved.policyEpoch ≤ p.policyEpoch + 1 := by
      rcases hm.epoch with heq | ⟨heq, hlt⟩ <;> omega
    have hva : CustodyReceipt.validate
        { commandId := req.commandId, requestDigest := digest,
          principal := context.principal, revision := rev, admittedAtMs := ms,
          previousPolicyEpoch := p.policyEpoch, policyEpoch := moved.policyEpoch,
          outcome := out } = .ok () := by
      have hsh : validateSha256 digest = .ok () := require_true hv _ _
      rw [CustodyReceipt.validate, ok_bind hn, ok_bind hp, ok_bind hsh]
      apply require_true
      simp only [Bool.not_eq_true', Bool.or_eq_false_iff, decide_eq_false_iff_not]
      omega
    exact {
      origin := hm.origin, reached := hm.reached, later := hla,
      limits := hm.limits, administrators := hm.administrators, epoch := hep.1,
      epochWord := hep.2.1, bare := rfl, principal := hp, requestId := hre,
      commandId := hn, digest := hv, identity := rfl, position := rfl,
      admitted := rfl, eventEpoch := rfl, accepted := rfl, linked := rfl, replay := rfl,
      kept := fun r h => (nomatch h),
      fresh := fun _ => ⟨rfl, rfl, rfl, rfl, rfl,
        ⟨hva, hrv, hadmitted, hw, hep.2.1, hm.outcome⟩⟩ }

theorem Within.mono {t : CustodyState} (h : Within s r) (ho : t.origin = s.origin)
    (hr : s.revision ≤ t.revision) (he : s.policyEpoch ≤ t.policyEpoch) :
    Within t r where
  shape := h.shape
  after := ho ▸ h.after
  before := le_trans h.before hr
  epoch := le_trans h.epoch he

theorem ordered_append (hp : old ≤ last) (ho : Ordered old l)
    (hl : ∀ a ∈ l, a.revision ≤ last) (he : last < e.revision) : Ordered old (l ++ [e]) := by
  induction l generalizing old with
  | nil => exact ⟨lt_of_le_of_lt hp he, trivial⟩
  | cons a rest ih =>
    refine ⟨ho.1, ih (hl a mem_cons_self) ho.2 ?_⟩
    intro b hb
    exact hl b (mem_cons_of_mem a hb)

section Extension

variable {s : CustodyState} {context : RequestContext} {req : CustodyRequest} {rev : ℕ}
  {step : Step} (hs : Shaped X s)
  (h : Moved (policy s) (s.commands.get req.commandId) context req ms rev step)
  (hadmitted : ms < wordSize) (hrv : rev < wordSize)
include h

theorem extend_cases : (s.commands.get req.commandId = some step.receipt ∧
    step.event.replay = true ∧ (extend s step).commands = s.commands) ∨
    (s.commands.get req.commandId = none ∧ step.event.replay = false ∧
    (extend s step).commands = s.commands.insert req.commandId step.receipt) := by
  have hr := h.replay
  cases hp : s.commands.get req.commandId with
  | some prior =>
    rw [hp] at hr
    exact .inl ⟨congrArg some (h.kept prior hp).symm, hr, if_pos hr⟩
  | none =>
    rw [hp] at hr
    refine .inr ⟨rfl, hr, ?_⟩
    rw [← (h.fresh hp).1]
    exact if_neg (Bool.eq_false_iff.mp hr)

variable {r : CustodyReceipt} {id : String}

theorem extend_get (hg : (extend s step).commands.get id = some r) : s.commands.get id = some r ∨
      s.commands.get req.commandId = none ∧ id = req.commandId ∧ r = step.receipt := by
  rcases extend_cases h with ⟨_, _, hm⟩ | ⟨hp, _, hm⟩
  · exact .inl (hm ▸ hg)
  rw [hm, OrdMap.get_insert] at hg
  by_cases hi : id = req.commandId
  · rw [if_pos hi] at hg
    exact .inr ⟨hp, hi, (Option.some.inj hg).symm⟩
  · rw [if_neg hi] at hg
    exact .inl hg

theorem extend_keeps (hg : s.commands.get id = some r) :
    (extend s step).commands.get id = some r := by
  rcases extend_cases h with ⟨_, _, hm⟩ | ⟨hp, _, hm⟩
  · rw [hm]
    exact hg
  rw [hm, OrdMap.get_insert_of_ne]
  · exact hg
  rintro rfl
  rw [hp] at hg
  cases hg

theorem extend_own : (extend s step).commands.get req.commandId = some step.receipt := by
  rcases extend_cases h with ⟨hp, _, hm⟩ | ⟨_, _, hm⟩
  · exact hm ▸ hp
  · rw [hm, OrdMap.get_insert, if_pos rfl]

theorem Refers.extend (hr : Refers s.commands e r) : Refers (extend s step).commands e r :=
  { hr with found := extend_keeps h hr.found }

include hs hadmitted hrv

theorem refers_own :
    Refers (CustodyRefinement.extend s step).commands step.event step.receipt where
  shape := {
    principal := h.principal
    requestId := h.requestId
    commandId := h.commandId
    digest := h.digest
    revision := by rw [h.position]; exact hrv
    admitted := by rw [h.admitted]; exact hadmitted
    epoch := by rw [h.eventEpoch]; exact h.epochWord }
  found := by
    rw [h.identity]
    exact extend_own h
  digest := h.linked
  accepted := h.accepted
  epoch := by
    rw [h.eventEpoch]
    cases hp : s.commands.get req.commandId with
    | some prior =>
      rw [h.kept prior hp]
      exact le_trans (hs.receipts _ _ hp).epoch h.epoch
    | none => exact le_of_eq (h.fresh hp).2.2.2.2.1
  replayed := by
    intro hr
    rw [h.replay, Option.isSome_iff_exists] at hr
    obtain ⟨prior, hp⟩ := hr
    rw [h.kept prior hp, h.position]
    exact lt_of_le_of_lt (hs.receipts _ _ hp).before h.later
  original := by
    intro hr
    rw [h.replay, Option.isSome_eq_false_iff, Option.isNone_iff_eq_none] at hr
    obtain ⟨_, hre, hpr, ha, he, _⟩ := h.fresh hr
    exact ⟨h.position.trans hre.symm, hpr.symm, h.admitted.trans ha.symm,
      h.eventEpoch.trans he.symm⟩

theorem Shaped.extend : Shaped X (extend s step) := by
  have ho : (CustodyRefinement.extend s step).origin = s.origin := h.origin
  have hm : (CustodyRefinement.extend s step).revision = rev := h.reached
  have hl : s.revision < rev := h.later
  have hep : s.policyEpoch ≤ (CustodyRefinement.extend s step).policyEpoch := h.epoch
  constructor
  · rw [ho]
    exact hs.origin
  · exact h.limits
  · exact h.administrators
  · have := hs.epoch
    omega
  · exact h.epochWord
  · rw [ho, hm]
    exact le_trans hs.revision (le_of_lt hl)
  · rw [hm]
    exact hrv
  · intro id r hg
    rcases extend_get h hg with hold | ⟨hp, rfl, rfl⟩
    · exact hs.keyed id r hold
    · exact (h.fresh hp).1.symm
  · intro id r hg
    rcases extend_get h hg with hold | ⟨hp, rfl, rfl⟩
    · exact (hs.receipts id r hold).mono ho (by rw [hm]; exact le_of_lt hl) hep
    obtain ⟨_, hrev, _, _, hre, hsh⟩ := h.fresh hp
    refine ⟨hsh, ?_, ?_, le_of_eq hre⟩
    · rw [ho, hrev]
      exact lt_of_le_of_lt hs.revision hl
    · rw [hm, hrev]
  · rw [ho]
    refine ordered_append hs.revision hs.ordered ?_ (by rw [h.position]; exact hl)
    intro e he
    obtain ⟨_, _, hle, _⟩ := hs.events e he
    exact hle
  intro e he
  rcases mem_append.mp he with hold | hn
  · obtain ⟨r, hr, hle, hepo⟩ := hs.events e hold
    exact ⟨r, hr.extend h, by rw [hm]; exact le_trans hle (le_of_lt hl),
      le_trans hepo hep⟩
  rw [mem_singleton.mp hn]
  refine ⟨step.receipt, refers_own hs h hadmitted hrv, ?_, ?_⟩
  · rw [hm, h.position]
  · exact le_of_eq h.eventEpoch

end Extension

/-! The head of a state and its totals. -/

def Counted (s : CustodyState) : Prop :=
  s.audit.countP (fun e => !e.replay) = s.commands.size

def headOf (s : CustodyState) : CustodyHead :=
  { version := 1, policy := policy s, commands := s.commands.size, audit := s.audit.length,
    historyBytes := historyTotal s }

theorem memberBytes_pos (r : CustodyReceipt) : 0 < memberBytes r := by
  rw [memberBytes, memberSize]
  omega

theorem size_eq_zero [LinearOrder K] {m : OrdMap K V} (h : m.size = 0) : m = OrdMap.empty := by
  obtain ⟨es, sorted⟩ := m
  cases es with
  | nil => rfl
  | cons e rest => cases h

theorem commandsTotal_insert (h : cmds.get id = none) : commandsTotal
    (cmds.insert id r) = commandsTotal cmds + memberBytes r + comma cmds.size := by
  have hw := OrdMap.weight_set (fun _ r => memberBytes r) cmds id (some r)
  have hsi := OrdMap.size_set cmds id (some r)
  rw [h] at hw hsi
  simp only [Option.map_none, Option.getD_none, Option.map_some, Option.getD_some,
    Option.toList_none, Option.toList_some, length_nil, length_singleton] at hw hsi
  unfold commandsTotal comma OrdMap.insert
  split <;> omega

theorem eventsTotal_append (l : List CustodyAudit) (e : CustodyAudit) :
    eventsTotal (l ++ [e]) = eventsTotal l + size (eventJson e) + comma l.length := by
  unfold eventsTotal comma
  rw [map_append, sum_append, length_append, map_singleton, sum_singleton, length_singleton]
  split <;> omega

theorem memberBytes_le_total (h : cmds.get id = some r) : memberBytes r ≤ commandsTotal cmds := by
  have hw := OrdMap.weight_set (fun _ r => memberBytes r) cmds id none
  rw [h] at hw
  simp only [Option.map_none, Option.getD_none, Option.map_some, Option.getD_some] at hw
  unfold commandsTotal
  omega

theorem limits_word {limits : CustodyLimits} (h : limits.validate = .ok ()) :
    limits.maxStateBytes * 16 + 64 * mib < wordSize := by
  have hc := require_ok h
  simp only [Bool.and_eq_true, decide_eq_true_eq, Option.isSome_iff_exists] at hc
  obtain ⟨_, n, hn⟩ := hc
  obtain ⟨m, hm, hn⟩ := Option.bind_eq_some_iff.mp hn
  obtain ⟨rfl, hl⟩ := checkedAdd_some hn
  unfold checkedMul at hm
  split at hm
  · cases hm
    exact hl
  · cases hm

theorem Shaped.maxWord (h : Shaped X s) : s.limits.maxStateBytes < wordSize := by
  have := limits_word h.limits
  omega

theorem Shaped.policy_le (h : Shaped X s) : size (stateJson X (policy s)) ≤ 1080000 :=
  policy_size h.origin (administrators_names h.administrators) h.revisionWord h.epochWord h.maxWord

theorem Shaped.policy (h : Shaped X s) : Shaped X (policy s) where
  origin := h.origin
  limits := h.limits
  administrators := h.administrators
  epoch := h.epoch
  epochWord := h.epochWord
  revision := h.revision
  revisionWord := h.revisionWord
  keyed := fun _ _ hg => (nomatch hg)
  receipts := fun _ _ hg => (nomatch hg)
  ordered := trivial
  events := fun _ he => (nomatch he)

theorem encodedLen_ok (h : size j < wordSize) : encodedLen j = .ok (size j) := if_pos h

theorem small_word (h : n ≤ 5000000) : n < wordSize :=
  lt_of_le_of_lt h (by decide)

theorem checkedAdd_of_lt (h : a + b < wordSize) : checkedAdd a b = some (a + b) :=
  if_pos h

theorem commandBytes_ok (h : ReceiptShape r) : commandBytes r = .ok (memberBytes r) := by
  have hsi : size (.obj [(r.commandId, receiptJson r)]) = 2 + memberBytes r := by
    rw [size_obj]
    rfl
  have hn := name_size h.names.1
  have hr := receipt_size h
  have he : memberBytes r ≤ 3000 := by
    rw [size, encode] at hn
    rw [memberBytes, memberSize]
    dsimp only
    omega
  have hw : size (.obj [(r.commandId, receiptJson r)]) < wordSize :=
    small_word (by omega)
  rw [commandBytes, ok_bind (encodedLen_ok hw), hsi]
  have hsu : checkedSub (2 + memberBytes r) 2 = some (memberBytes r) := by
    rw [checkedSub, if_pos (by omega)]
    congr 1
    omega
  rw [hsu]
  rfl

theorem Counted.counts (hs : Shaped X s) (hc : Counted s) : s.commands.size ≤ s.audit.length ∧
    (s.audit.length = 0 ↔ s.commands.size = 0) ∧ (s.commands.size = 0 ↔ historyTotal s = 0) := by
  have hl : s.commands.size ≤ s.audit.length := by
    rw [← hc]
    exact countP_le_length
  have hem : s.commands.size = 0 → s.audit = [] := by
    intro hsi
    cases ha : s.audit with
    | nil => rfl
    | cons e rest =>
      obtain ⟨r, hr, _⟩ := hs.events e (ha ▸ mem_cons_self)
      have hf := hr.found
      rw [size_eq_zero hsi] at hf
      cases hf
  refine ⟨hl, ⟨fun h => by omega, fun h => by rw [hem h]; rfl⟩, ?_, ?_⟩
  · intro hsi
    rw [historyTotal, hem hsi, size_eq_zero hsi]
    rfl
  intro ht
  by_contra hsi
  cases he : s.commands.entries with
  | nil =>
    rw [OrdMap.size, he] at hsi
    exact hsi rfl
  | cons entry rest =>
    have hg : s.commands.get entry.1 = some entry.2 :=
      OrdMap.mem_entries.mp (he ▸ mem_cons_self)
    have hp := memberBytes_pos entry.2
    have hl := memberBytes_le_total hg
    rw [historyTotal] at ht
    omega

/-- The head of a history that fits its budget is accepted; of one that does not, it is
refused for its bytes. -/
theorem headOf_validate (hs : Shaped X s) (hc : Counted s) :
    (size (stateJson X s) ≤ s.limits.maxStateBytes → (headOf s).validate X = .ok ()) ∧
    (¬ size (stateJson X s) ≤ s.limits.maxStateBytes →
      ∃ m, (headOf s).validate X = .error ⟨.quotaExceeded, m⟩) := by
  obtain ⟨hle, ha, hh⟩ := hc.counts hs
  have hfo : require (!((headOf s).version ≠ 1 || (headOf s).policy.commands.size ≠ 0 ||
      (headOf s).policy.audit ≠ [] || (headOf s).commands > (headOf s).audit ||
      ((headOf s).audit = 0) ≠ ((headOf s).commands = 0) ||
      ((headOf s).commands = 0) ≠ ((headOf s).historyBytes = 0))) .corruption
      "unsupported custody point table head" = .ok () := by
    apply require_true
    have h1 : (s.audit.length = 0) = (s.commands.size = 0) := propext ha
    have h2 : (s.commands.size = 0) = (historyTotal s = 0) := propext hh
    have hn : (OrdMap.empty : OrdMap String CustodyReceipt).size = 0 := rfl
    simp [headOf, policy, h1, h2, hle, hn]
  have hby := encodedLen_ok (small_word (le_trans hs.policy_le (by decide)))
  have hsi := state_size (X := X) hs.keyed
  have hp := hs.policy.validate_eq
  have hm := hs.maxWord
  have hl : (policy s).limits = s.limits := rfl
  rw [hl] at hp
  constructor
  · intro hf
    have hv : (headOf s).policy.validate X = .ok () := by
      rw [show (headOf s).policy = policy s from rfl, hp]
      exact require_true (decide_eq_true (by omega)) _ _
    rw [CustodyHead.validate, ok_bind hfo, ok_bind hv]
    have had : checkedAdd (size (stateJson X (policy s))) (historyTotal s) =
        some (size (stateJson X (policy s)) + historyTotal s) := checkedAdd_of_lt (by omega)
    have hb : encodedLen (stateJson X (headOf s).policy) =
      .ok (size (stateJson X (policy s))) := hby
    rw [ok_bind hb, show (headOf s).historyBytes = historyTotal s from rfl, had]
    exact require_true (decide_eq_true (by
      rw [← hsi]
      exact hf)) _ _
  intro hf
  rw [CustodyHead.validate, ok_bind hfo, show (headOf s).policy = policy s from rfl,
    hp]
  by_cases hsm : size (stateJson X (policy s)) ≤ s.limits.maxStateBytes
  · rw [ok_bind (require_true (decide_eq_true hsm) _ _), ok_bind hby,
      show (headOf s).historyBytes = historyTotal s from rfl]
    by_cases hw : size (stateJson X (policy s)) + historyTotal s < wordSize
    · rw [checkedAdd_of_lt hw]
      refine ⟨_, if_neg ?_⟩
      rw [decide_eq_true_iff, ← hsi]
      exact hf
    · rw [checkedAdd, if_neg hw]
      exact ⟨_, rfl⟩
  · exact ⟨_, bind_of_error (if_neg (by rwa [decide_eq_true_iff]))⟩

end CustodyRefinement
