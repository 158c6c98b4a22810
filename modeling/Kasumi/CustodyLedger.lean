import Kasumi.CustodyCapture
import Kasumi.Genesis

/-! From the retirement on, the point tables of a source refine the reducer over its whole
history, and a command identity keeps its first receipt. -/
namespace CustodyLedger

open TenantTypes TenantAccess Retirement JsonText CustodyReducer CustodyTables TenantFrames List
open FallibleSteps CustodySizes PermanentRows CustodyRefinement CustodyRun
open CustodyCapture

variable {Idx Acc Control : Type} {X : CustodyExternals Idx Acc}
  {V : Control → RetiredBoundary → Except Failure Unit}

/-- What the committed seed guarantees of a boundary: a receipt at the revision of its own
position, and 64-bit fields. -/
structure SeedBinding (boundary : RetiredBoundary) (source : SeedSource) : Prop where
  position : boundary.receipt.revision = source.revisionBase + boundary.position.logId.index
  base : source.revisionBase < wordSize
  deadline : boundary.request.notAfterMs < wordSize
  requestCheckpoint : boundary.request.checkpoint.revision < wordSize
  receiptRevision : boundary.receipt.revision < wordSize
  receiptEpoch : boundary.receipt.policyEpoch < wordSize
  receiptAdmitted : boundary.receipt.admittedAtMs < wordSize
  receiptCheckpoint : boundary.receipt.checkpoint.revision < wordSize

def initialState (boundary : RetiredBoundary) (source : SeedSource) : CustodyState where
  origin := retiredOrigin boundary source
  revision := boundary.receipt.revision
  policyEpoch := 1
  administrators := source.administrators
  limits := .default
  commands := OrdMap.empty
  audit := []

def initialLedger (boundary : RetiredBoundary) (source : SeedSource) : Ledger :=
  ⟨initialState boundary source, some (.entry boundary.position)⟩

section Initial

variable {source : SeedSource}

theorem initial_origin (hs : SeedBinding bdy source)
    (hr : RetireSourceRequest.validate X.toExternals bdy.request = .ok ())
    (hre : RetirementReceipt.validate X.toExternals bdy.receipt = .ok ())
    (ha : validateCustodyAdministrators source.administrators = .ok ()) :
    OriginShape X (retiredOrigin bdy source) :=
  { request := hr, receipt := hre,
    administrators := administrators_names ha,
    base := hs.base, revision := hs.receiptRevision, epoch := hs.receiptEpoch,
    deadline := hs.deadline, requestCheckpoint := hs.requestCheckpoint,
    receiptRevision := hs.receiptRevision, receiptEpoch := hs.receiptEpoch,
    receiptAdmitted := hs.receiptAdmitted, receiptCheckpoint := hs.receiptCheckpoint }

theorem initial_shaped (hs : SeedBinding bdy source) (ho : OriginShape X (retiredOrigin bdy source))
    (ha : validateCustodyAdministrators source.administrators = .ok ()) :
    Shaped X (initialState bdy source) := by
  have hon : (1 : ℕ) < wordSize := by decide
  have hl : CustodyLimits.default.validate = .ok () := by decide
  exact
    { origin := ho, limits := hl, administrators := ha,
      epoch := Nat.one_ne_zero, epochWord := hon, revision := le_refl _,
      revisionWord := hs.receiptRevision, keyed := fun _ _ hget => (nomatch hget),
      receipts := fun _ _ hget => (nomatch hget), ordered := trivial,
      events := fun _ he => (nomatch he) }

def initialStore (control : Control) (boundary : RetiredBoundary) (source : SeedSource) :
    CustodyStore Control where
  control := control
  boundary := some boundary
  head := some (headOf (initialState boundary source))
  applied := some (.entry boundary.position)
  commands := OrdMap.empty
  audit := OrdMap.empty

theorem retire_ok (control : Control) (hs : Shaped X (initialState bdy source)) :
    retire X control bdy source = .ok (initialStore control bdy source) ∧
      size (stateJson X (initialState bdy source)) ≤ CustodyLimits.default.maxStateBytes := by
  have hc : Counted (initialState bdy source) := rfl
  have hf : size (stateJson X (initialState bdy source)) ≤
      CustodyLimits.default.maxStateBytes := le_trans hs.policy_le (by decide)
  have hv : (initialState bdy source).validate X = .ok () :=
    hs.validate_eq.trans (require_true (decide_eq_true hf) _ _)
  have hn : CustodyState.new X (retiredOrigin bdy source) .default =
      .ok (initialState bdy source) := ok_bind hv
  have hh := fromState_ok hs hc hf
  have hw : (headOf (initialState bdy source)).write X =
      .ok (headOf (initialState bdy source)) := by
    rw [CustodyHead.write, ok_bind (lift_ok_of ((headOf_validate hs hc).1 hf)),
      ok_bind (ensure_true (decide_eq_true (headOf_size hs hc hf)) _)]
    rfl
  rw [retire, ok_bind (lift_ok_of hn), ok_bind (lift_ok_of hh), ok_bind hw]
  exact ⟨rfl, hf⟩

theorem retire_mirrors {control : Control} {store : CustodyStore Control}
    (hse : SeedBinding bdy source) (hb : V control bdy = .ok ())
    (h : retire X control bdy source = .ok store) :
    CustodyState.new X (retiredOrigin bdy source) .default = .ok (initialState bdy source) ∧
      Mirrors X V store (initialLedger bdy source) := by
  obtain ⟨state, hn, _⟩ := bind_ok h
  have hn := lift_ok hn
  obtain ⟨_, hv, hst⟩ := bind_ok hn
  cases hst
  replace hv := then_ok hv
  obtain ⟨_, ha, hv⟩ := bind_ok hv
  obtain ⟨_, hr, hv⟩ := bind_ok hv
  obtain ⟨_, hre, _⟩ := bind_ok hv
  have hs := initial_shaped hse (initial_origin hse hr hre ha)
    ha
  obtain ⟨hret, hf⟩ := retire_ok control hs
  refine ⟨hn, ?_⟩
  cases hret.symm.trans h
  exact
    { shaped := hs, counted := rfl, fits := hf,
      boundary := ⟨bdy, rfl, hb, rfl, rfl⟩, head := rfl, applied := rfl,
      commands := rfl, audit := rfl }

end Initial

variable (X) in
structure Passes (s : CustodyState) (command : CustodyCommand) : Prop where
  authorized : s.authorize X command.context = .ok ()
  admitted : checkAdmittedAt command.context.authorization command.admittedAtMs = .ok ()
  valid : command.request.validate = .ok ()
  bound : RetireSourceRequest.reference X.toExternals s.origin.request =
    .ok command.request.retirement

section Prior

variable {s : CustodyState} {cmd : CustodyCommand} {rev : ℕ} {r : CustodyReceipt}
  {digest : String}

variable (cmd) in
theorem position_ok (hl : s.revision < rev) :
    require (!(cmd.request.retirement ≠ cmd.request.retirement || rev ≤ s.revision))
      .conflict "custody source or applied revision differs" = .ok () := by
  apply require_true
  simp [hl]

/-- A passing command of a retained identity is a conflict unless its request is the original
one. -/
theorem apply_differs (hpass : Passes X s cmd) (hl : s.revision < rev)
    (hget : s.commands.get cmd.request.commandId = some r)
    (hd : cmd.request.digest X = .ok digest) (hn : r.requestDigest ≠ digest) :
    s.apply X cmd.context cmd.request cmd.admittedAtMs rev =
      .error ⟨.conflict, "custody command identity differs"⟩ := by
  have hp := position_ok cmd hl
  rw [CustodyState.apply, ok_bind hpass.authorized, ok_bind hpass.admitted,
    ok_bind hpass.valid, ok_bind hpass.bound, ok_bind hp, ok_bind hd]
  rw [hget]
  apply bind_of_error
  rw [Option.all_some, decide_eq_false hn]
  rfl

def replayedState (s : CustodyState) (command : CustodyCommand) (r : CustodyReceipt)
    (revision : ℕ) : CustodyState :=
  { s with
    revision := revision
    audit := s.audit ++ [
      { principal := command.context.principal
        requestId := command.context.requestId
        commandId := command.request.commandId
        requestDigest := r.requestDigest
        revision := revision
        admittedAtMs := command.admittedAtMs
        policyEpoch := s.policyEpoch
        replay := true
        accepted := r.outcome.isOk }] }

variable (X) in
def FitsReplay (s : CustodyState) (command : CustodyCommand) (r : CustodyReceipt)
    (revision : ℕ) : Prop :=
  size (stateJson X (replayedState s command r revision)) ≤ s.limits.maxStateBytes

/-- A passing command with the original request returns the retained receipt exactly if its
event fits the budget. -/
theorem apply_replays (hs : Shaped X s) (hpass : Passes X s cmd)
    (hl : s.revision < rev) (hw : rev < wordSize) (had : cmd.admittedAtMs < wordSize)
    (hget : s.commands.get cmd.request.commandId = some r)
    (hd : cmd.request.digest X = .ok r.requestDigest) :
    (FitsReplay X s cmd r rev →
      ∃ t, s.apply X cmd.context cmd.request cmd.admittedAtMs rev = .ok (t, r)) ∧
    (¬ FitsReplay X s cmd r rev →
      ∃ m, s.apply X cmd.context cmd.request cmd.admittedAtMs rev = .error ⟨.quotaExceeded, m⟩) := by
  have hpo := position_ok cmd hl
  have hsa : require ((some r).all fun p => p.requestDigest = r.requestDigest) .conflict
      "custody command identity differs" = .ok () := by
    apply require_true
    simp
  have ha : (policy s).authorize X cmd.context = .ok () := hpass.authorized
  have hb : RetireSourceRequest.reference X.toExternals (policy s).origin.request =
    .ok cmd.request.retirement := hpass.bound
  have ht : ∃ step, transition X (policy s) (s.commands.get cmd.request.commandId)
      cmd.context cmd.request cmd.admittedAtMs rev = .ok step ∧
      step.receipt = r ∧ extend s step = replayedState s cmd r rev := by
    rw [hget, transition, ok_bind ha, ok_bind hpass.admitted,
      ok_bind hpass.valid, ok_bind hb]
    have hr : (policy s).revision = s.revision := rfl
    rw [hr, ok_bind hpo, ok_bind hd, ok_bind hsa]
    exact ⟨_, rfl, rfl, rfl⟩
  obtain ⟨step, hst, hre, hex⟩ := ht
  have hp := hs.policy
  have hm := transition_ok hp.limits hp.administrators hp.epoch hp.epochWord had hw
    hst
  have hv := (hs.extend hm had hw).validate_eq
  rw [apply_eq, ok_bind hst]
  rw [hex] at hv ⊢
  unfold FitsReplay
  constructor
  · intro hf
    rw [ok_bind (hv.trans (require_true (decide_eq_true hf) _ _)), hre]
    exact ⟨_, rfl⟩
  · intro hf
    exact ⟨_, bind_of_error (hv.trans (if_neg (by rwa [decide_eq_true_iff])))⟩

end Prior

section Applied

variable {ledger ledger' : Ledger} {pos : AppliedEntryContext} {cmd : CustodyCommand}
  {result : Except Error CustodyReceipt}

def Placed (ledger : Ledger) : Prop :=
  ∃ cursor id, ledger.applied = some cursor ∧ cursor.logId = some id ∧
    ledger.state.revision ≤ ledger.state.origin.revisionBase + id.index

theorem Placed.later (h : Placed ledger) (hp : checkPosition ledger.applied pos = .ok ())
    (hr : checkedAdd ledger.state.origin.revisionBase pos.logId.index =
      some rev) : ledger.state.revision < rev := by
  obtain ⟨cursor, id, ha, hid, hl⟩ := h
  obtain ⟨prev, hpr, hp⟩ := bind_ok hp
  rw [ha] at hpr
  cases hpr
  have ho := ensure_ok hp
  rw [Bool.and_eq_true, decide_eq_true_iff] at ho
  rw [← ho.1, hid, Option.any_some, decide_eq_true_iff] at ho
  obtain ⟨rfl, _⟩ := checkedAdd_some hr
  have hi := ho.2
  omega

theorem applyLedger_ok (h : applyLedger X ledger pos cmd = .ok (ledger', result)) :
    ∃ rev, checkPosition ledger.applied pos = .ok () ∧
      checkedAdd ledger.state.origin.revisionBase pos.logId.index = some rev ∧
      ((∃ next r, ledger.state.apply X cmd.context cmd.request cmd.admittedAtMs
          rev = .ok (next, r) ∧ ledger' = ⟨next, some (.entry pos.record)⟩ ∧ result = .ok r) ∨
        ∃ e, ledger.state.apply X cmd.context cmd.request cmd.admittedAtMs
          rev = .error e ∧ ledger' = ⟨ledger.state, some (.entry pos.record)⟩ ∧
          result = .error e) := by
  replace h := then_ok h
  obtain ⟨_, hp, h⟩ := bind_ok h
  obtain ⟨rev, hr, h⟩ := bind_ok h
  refine ⟨rev, hp, context_ok hr, ?_⟩
  cases happly : ledger.state.apply X cmd.context cmd.request cmd.admittedAtMs
    rev with
  | ok next =>
    rw [happly] at h
    cases h
    exact .inl ⟨_, _, rfl, rfl, rfl⟩
  | error e =>
    rw [happly] at h
    cases h
    exact .inr ⟨e, rfl, rfl, rfl⟩

theorem apply_ok {s next : CustodyState} {r : CustodyReceipt} {rev : ℕ} (hs : Shaped X s)
    (had : cmd.admittedAtMs < wordSize) (hw : rev < wordSize)
    (h : s.apply X cmd.context cmd.request cmd.admittedAtMs rev = .ok (next, r)) :
    ∃ step, Moved (policy s) (s.commands.get cmd.request.commandId) cmd.context
        cmd.request cmd.admittedAtMs rev step ∧ next = extend s step ∧
      r = step.receipt ∧ cmd.request.digest X = .ok r.requestDigest := by
  rw [apply_eq] at h
  obtain ⟨step, hst, h⟩ := bind_ok h
  replace h := then_ok h
  cases h
  have hp := hs.policy
  have hm := transition_ok hp.limits hp.administrators hp.epoch hp.epochWord had hw
    hst
  refine ⟨step, hm, rfl, rfl, ?_⟩
  replace hst := then_ok hst
  replace hst := then_ok hst
  replace hst := then_ok hst
  obtain ⟨_, _, hst⟩ := bind_ok hst
  replace hst := then_ok hst
  obtain ⟨digest, hd, hst⟩ := bind_ok hst
  replace hst := then_ok hst
  obtain ⟨_, _, hst⟩ := bind_ok hst
  cases hst
  rw [hd, ← hm.linked]

theorem applyLedger_keeps (hs : Shaped X ledger.state) (hpl : Placed ledger)
    (had : cmd.admittedAtMs < wordSize) (h : applyLedger X ledger pos cmd = .ok (ledger', result)) :
    Placed ledger' ∧ ∀ id r, ledger.state.commands.get id = some r →
      ledger'.state.commands.get id = some r := by
  obtain ⟨rev, hp, hr, hc⟩ := applyLedger_ok h
  have hl := hpl.later hp hr
  obtain ⟨rfl, hw⟩ := checkedAdd_some hr
  rcases hc with ⟨next, r, happly, rfl, _⟩ | ⟨e, _, rfl, _⟩
  · obtain ⟨step, hm, rfl, _, _⟩ := apply_ok hs had hw happly
    have ho : (extend ledger.state step).origin = ledger.state.origin := hm.origin
    have hre : (extend ledger.state step).revision = _ := hm.reached
    refine ⟨⟨_, pos.logId, rfl, rfl, ?_⟩, fun id r hget => extend_keeps hm hget⟩
    rw [ho, hre]
  · exact ⟨⟨_, pos.logId, rfl, rfl, le_of_lt hl⟩, fun _ _ hget => hget⟩

end Applied

section Store

variable {store store' : CustodyStore Control} {ledger : Ledger} {pos : AppliedEntryContext}
  {cmd : CustodyCommand} {result : Except Error CustodyReceipt} {r : CustodyReceipt}

/-- A refused command leaves every row but the applied position as it was. -/
theorem applyCustody_error {e : Error}
    (h : applyCustody X V store pos cmd = .ok (store', .error e)) :
    store' = { store with applied := some (.entry pos.record) } := by
  replace h := then_ok h
  obtain ⟨head, _, h⟩ := bind_ok h
  replace h := then_ok h
  obtain ⟨rev, _, h⟩ := bind_ok h
  obtain ⟨prior, _, h⟩ := bind_ok h
  cases happly : head.apply X prior cmd.context cmd.request cmd.admittedAtMs
    rev with
  | ok next =>
    rw [happly] at h
    obtain ⟨_, _, h⟩ := bind_ok h
    cases h
  | error e' =>
    rw [happly] at h
    cases h
    rfl

variable (X V) in
structure Tracks (store : CustodyStore Control) (ledger : Ledger) : Prop where
  mirrors : Mirrors X V store ledger
  placed : Placed ledger

section

variable (h : Tracks X V store ledger)

include h

theorem Tracks.applied (had : cmd.admittedAtMs < wordSize)
    (happly : applyCustody X V store pos cmd = .ok (store', result)) : ∃ ledger' result',
    applyLedger X ledger pos cmd = .ok (ledger', result') ∧ SameResult result result' ∧
    Tracks X V store' ledger' := by
  rcases h.mirrors.step pos had with
    ⟨f, hs, _⟩ | ⟨store₁, result₁, ledger', result', hs, hl, hsa, hm⟩
  · cases hs.symm.trans happly
  cases hs.symm.trans happly
  exact ⟨ledger', result', hl, hsa, hm,
    (applyLedger_keeps h.mirrors.shaped h.placed had hl).1⟩

theorem Tracks.run {es : List Entry} {ledger' : Ledger}
    {results results' : List (Except Error CustodyReceipt)}
    (had : ∀ entry ∈ es, entry.command.admittedAtMs < wordSize)
    (hs : runCustody X V store es = .ok (store', results))
    (hl : runLedger X ledger es = .ok (ledger', results')) : Tracks X V
    store' ledger' ∧ ∀ id r, store.commands.get id = some r → store'.commands.get id = some r := by
  induction es generalizing store ledger results results' with
  | nil =>
    cases hs
    cases hl
    exact ⟨h, fun _ _ hget => hget⟩
  | cons entry rest ih =>
    obtain ⟨⟨store₁, result⟩, hon, hs⟩ := bind_ok hs
    obtain ⟨⟨store₂, rest₁⟩, hre, hs⟩ := bind_ok hs
    cases hs
    obtain ⟨⟨ledger₁, result'⟩, ho, hl⟩ := bind_ok hl
    obtain ⟨⟨ledger₂, rest₂⟩, hr, hl⟩ := bind_ok hl
    cases hl
    have hf := had entry mem_cons_self
    obtain ⟨ledger₃, _, ha, _, ht⟩ := h.applied hf hon
    cases ha.symm.trans ho
    obtain ⟨hla, hk⟩ :=
      ih ht (fun e he => had e (mem_cons_of_mem entry he)) hre hr
    refine ⟨hla, fun id r hget => hk id r ?_⟩
    rw [h.mirrors.commands] at hget
    rw [ht.mirrors.commands]
    exact (applyLedger_keeps h.mirrors.shaped h.placed hf ho).2 id r hget

theorem Tracks.answered (had : cmd.admittedAtMs < wordSize)
    (happly : applyCustody X V store pos cmd = .ok (store', .ok r)) : store'.commands.get
    cmd.request.commandId = some r ∧ cmd.request.digest X = .ok r.requestDigest := by
  obtain ⟨ledger', result', hl, hs, ht⟩ := h.applied had happly
  obtain ⟨rev, _, hr, hc⟩ := applyLedger_ok hl
  obtain ⟨rfl, hw⟩ := checkedAdd_some hr
  rcases hc with ⟨next, r', hf, rfl, rfl⟩ | ⟨e, _, _, rfl⟩
  · obtain rfl : r = r' := hs
    obtain ⟨step, hm, rfl, rfl, hd⟩ := apply_ok h.mirrors.shaped had hw hf
    rw [ht.mirrors.commands]
    exact ⟨extend_own hm, hd⟩
  · cases hs

end

theorem SameResult.refused
    (h : SameResult result (.error ⟨code, m⟩)) : ∃ m', result = .error ⟨code, m'⟩ := by
  cases result with
  | ok r => cases h
  | error e =>
    obtain ⟨code', msg⟩ := e
    obtain rfl : code' = code := h
    exact ⟨msg, rfl⟩

section Retained

variable (h : Tracks X V store ledger) (had : cmd.admittedAtMs < wordSize)
  (happly : applyCustody X V store pos cmd = .ok (store', result))
include h had happly

/-- A command has the result of the reducer over the whole history, at a later revision. -/
theorem Tracks.full : ∃ rev, rev = ledger.state.origin.revisionBase + pos.logId.index ∧
      ledger.state.revision < rev ∧ rev < wordSize ∧
      SameResult result ((ledger.state.apply X cmd.context cmd.request
        cmd.admittedAtMs rev).map Prod.snd) := by
  obtain ⟨ledger', result', hl, hs, _⟩ := h.applied had happly
  obtain ⟨rev, hp, hr, hc⟩ := applyLedger_ok hl
  obtain ⟨rfl, hw⟩ := checkedAdd_some hr
  refine ⟨_, rfl, h.placed.later hp hr, hw, ?_⟩
  rcases hc with ⟨_, _, hf, _, rfl⟩ | ⟨_, hf, _, rfl⟩
  · rw [hf]
    exact hs
  · rw [hf]
    exact hs

variable (hpass : Passes X ledger.state cmd)
  (hget : store.commands.get cmd.request.commandId = some r)
include hpass hget

theorem Tracks.replayed (hd : cmd.request.digest X = .ok r.requestDigest) :
    let fits := FitsReplay X ledger.state cmd r
      (ledger.state.origin.revisionBase + pos.logId.index)
    (fits → result = .ok r) ∧ (¬ fits → ∃ m, result = .error ⟨.quotaExceeded, m⟩) := by
  obtain ⟨rev, hre, hl, hw, hs⟩ := h.full had happly
  rw [h.mirrors.commands] at hget
  obtain ⟨hfi, hno⟩ := apply_replays h.mirrors.shaped hpass hl hw had hget hd
  rw [← hre]
  constructor
  · intro hf
    obtain ⟨t, hf⟩ := hfi hf
    rw [hf] at hs
    cases result with
    | ok r' => exact congrArg Except.ok hs
    | error e => cases hs
  · intro hf
    obtain ⟨m, hf⟩ := hno hf
    rw [hf] at hs
    exact SameResult.refused hs

theorem Tracks.differs {digest : String} (hd : cmd.request.digest X = .ok digest)
    (hn : r.requestDigest ≠ digest) : ∃ m, result = .error ⟨.conflict, m⟩ := by
  obtain ⟨rev, _, hl, _, hs⟩ := h.full had happly
  rw [h.mirrors.commands] at hget
  rw [apply_differs hpass hl hget hd hn] at hs
  exact SameResult.refused hs

end Retained

end Store

section Chained

variable (X) in
/-- Entries of the log in order after `last`: each carries its own encoded command, follows the
one before it and has a revision. -/
def Chained (revisionBase : ℕ) : LogId → List Entry → Prop
  | _, [] => True
  | last, entry :: rest =>
    (∃ bytes, entry.command.encoded X = .ok bytes ∧
      entry.position.commandSha256 = X.sha256 bytes) ∧
    entry.position.retirementSeed = false ∧ entry.position.previous = some last ∧
    last.index < entry.position.logId.index ∧
    revisionBase + entry.position.logId.index < wordSize ∧
    Chained revisionBase entry.position.logId rest

variable {ledger : Ledger}

theorem applyLedger_total {entry : Entry} {rest : List Entry} (hs : Shaped X ledger.state)
    (ha : ledger.applied = some cursor) (hl : cursor.logId = some last)
    (had : entry.command.admittedAtMs < wordSize)
    (h : Chained X ledger.state.origin.revisionBase last (entry :: rest)) :
    ∃ ledger' result, applyLedger X ledger entry.position entry.command = .ok (ledger', result) ∧
      ledger'.applied = some (.entry entry.position.record) ∧
      ledger'.state.origin = ledger.state.origin := by
  obtain ⟨⟨bs, he, hsh⟩, hse, hp, hi, hw, _⟩ := h
  have hc : checkCommand X entry.position entry.command = .ok () := by
    rw [checkCommand, ok_bind (ensure_true (by rw [hse]; rfl) _), ok_bind he]
    exact ensure_true (decide_eq_true hsh) _
  have hpo : checkPosition ledger.applied entry.position = .ok () := by
    rw [checkPosition, ha, ok_bind (context_some rfl _)]
    apply ensure_true
    rw [hp, hl, Option.any_some, decide_eq_true hi, decide_eq_true rfl]
    rfl
  rw [applyLedger, ok_bind hc, ok_bind hpo,
    ok_bind (context_some (checkedAdd_of_lt hw) _)]
  cases hr : ledger.state.apply X entry.command.context entry.command.request
    entry.command.admittedAtMs (ledger.state.origin.revisionBase + entry.position.logId.index) with
  | ok next =>
    obtain ⟨step, hm, hn, _⟩ := apply_ok hs had hw hr
    refine ⟨_, _, rfl, rfl, ?_⟩
    rw [hn]
    exact hm.origin
  | error e => exact ⟨_, _, rfl, rfl, rfl⟩

theorem mirrors_total {es : List Entry} {store : CustodyStore Control}
    (h : Mirrors X V store ledger) (hap : ledger.applied = some cursor)
    (hla : cursor.logId = some last) (had : ∀ entry ∈ es, entry.command.admittedAtMs < wordSize)
    (hc : Chained X ledger.state.origin.revisionBase last es) :
    ∃ ledger' results, runLedger X ledger es = .ok (ledger', results) := by
  induction es generalizing store ledger cursor last with
  | nil => exact ⟨ledger, [], rfl⟩
  | cons entry rest ih =>
    have hf := had entry mem_cons_self
    obtain ⟨ledger₁, result, hon, ha, ho⟩ :=
      applyLedger_total h.shaped hap hla hf hc
    rcases h.step entry.position hf with
      ⟨f, _, hl⟩ | ⟨store₁, _, ledger₂, result₂, _, hl, _, hm⟩
    · cases hl.symm.trans hon
    cases hl.symm.trans hon
    have hr : Chained X ledger₁.state.origin.revisionBase entry.position.logId rest := by
      rw [ho]
      exact hc.2.2.2.2.2
    obtain ⟨ledger', results, hru⟩ := ih hm ha rfl
      (fun e he => had e (mem_cons_of_mem entry he)) hr
    rw [runLedger, ok_bind hon]
    dsimp only
    rw [ok_bind hru]
    exact ⟨_, _, rfl⟩

end Chained

section Refinement

variable (X)

/-- The rows of a store are exactly those of a full custody state, within their bounds, and a
snapshot of them is accepted. -/
structure Stored (store : CustodyStore Control) (state : CustodyState) : Prop where
  head : ∃ head, CustodyHead.fromState X state = .ok head ∧ store.head = some head ∧
    size (headJson X head) ≤ headBytes ∧
    capture X store = .ok ⟨head, store.commands, store.audit⟩
  commands : store.commands = state.commands
  audit : store.audit = auditRows state.audit
  receipts : ∀ id r, store.commands.get id = some r → size (receiptJson r) ≤ recordBytes
  events : ∀ i e, store.audit.get i = some e → size (eventJson e) ≤ recordBytes

/-- What a command identity means from a store on. Its receipt is permanent. Whoever passes the
checks before its lookup gets a conflict for any other request; for the original one they get
the receipt if the audit event of the replay fits the byte budget, and are refused if not. -/
structure Identity (V : Control → RetiredBoundary → Except Failure Unit)
    (store : CustodyStore Control) (state : CustodyState) : Prop where
  kept : ∀ entries store' results, (∀ entry ∈ entries, entry.command.admittedAtMs < wordSize) →
    runCustody X V store entries = .ok (store', results) → ∀ id r,
      store.commands.get id = some r → store'.commands.get id = some r
  answered : ∀ position command store' r, command.admittedAtMs < wordSize →
    applyCustody X V store position command = .ok (store', .ok r) →
      store'.commands.get command.request.commandId = some r ∧
      command.request.digest X = .ok r.requestDigest
  replayed : ∀ position command store' result r, command.admittedAtMs < wordSize →
    applyCustody X V store position command = .ok (store', result) → Passes X state command →
    store.commands.get command.request.commandId = some r →
    command.request.digest X = .ok r.requestDigest →
      let fits := FitsReplay X state command r
        (state.origin.revisionBase + position.logId.index)
      (fits → result = .ok r) ∧ (¬ fits → ∃ m, result = .error ⟨.quotaExceeded, m⟩)
  differs : ∀ position command store' result r digest, command.admittedAtMs < wordSize →
    applyCustody X V store position command = .ok (store', result) → Passes X state command →
    store.commands.get command.request.commandId = some r →
    command.request.digest X = .ok digest → r.requestDigest ≠ digest →
      (∃ m, result = .error ⟨.conflict, m⟩) ∧
      store' = { store with applied := some (.entry position.record) }

variable {X}

theorem mirrors_stored {store : CustodyStore Control} {ledger : Ledger}
    (h : Mirrors X V store ledger) : Stored X store ledger.state where
  head := ⟨headOf ledger.state, fromState_ok h.shaped h.counted h.fits, h.head,
    headOf_size h.shaped h.counted h.fits, capture_ok h⟩
  commands := h.commands
  audit := h.audit
  receipts := by
    intro id r hget
    rw [h.commands] at hget
    exact le_trans (receipt_size (h.shaped.receipts id r hget).shape) (by decide)
  events := by
    intro i e hget
    rw [h.audit, auditRows_get] at hget
    obtain ⟨_, hr, _⟩ := h.shaped.events e (mem_of_getElem? hget)
    exact le_trans (event_size hr.shape) (by decide)

theorem Tracks.identity {store : CustodyStore Control} {ledger : Ledger}
    (h : Tracks X V store ledger) : Identity X V store ledger.state where
  kept := by
    intro es store' results had hs
    rcases h.mirrors.run had with ⟨f, hf, _⟩ | ⟨_, _, ledger', _, _, hl, _, _⟩
    · cases hf.symm.trans hs
    · exact (h.run had hs hl).2
  answered := fun _ _ _ _ had happly => h.answered had happly
  replayed := fun _ _ _ _ _ had happly hpass hget hd =>
    h.replayed had happly hpass hget hd
  differs := by
    intro pos cmd store' result r digest had happly hpass hget hd hn
    obtain ⟨m, rfl⟩ := h.differs had happly hpass hget hd hn
    exact ⟨⟨m, rfl⟩, applyCustody_error happly⟩

variable (X V) in
/-- The entries have the same results on the rows of the store and on the full history that
starts at the boundary, and end in the same rows. Both refuse an entry that is not the next one
of the log. -/
def Refines (boundary : RetiredBoundary) (source : SeedSource) (store : CustodyStore Control)
    (entries : List Entry) : Prop :=
  ∃ state, CustodyState.new X (retiredOrigin boundary source) .default = .ok state ∧
    ((¬ Chained X source.revisionBase boundary.position.logId entries ∧
        ∃ f, runCustody X V store entries = .error f ∧
          runLedger X ⟨state, some (.entry boundary.position)⟩ entries = .error f) ∨
      ∃ store' results ledger' results',
        runCustody X V store entries = .ok (store', results) ∧
        runLedger X ⟨state, some (.entry boundary.position)⟩ entries = .ok (ledger', results') ∧
        List.Forall₂ SameResult results results' ∧ Stored X store' ledger'.state ∧
        Identity X V store' ledger'.state)

/-- The point tables of a retired source refine the reducer over its whole history. -/
theorem retired_tables_refine {control : Control} {boundary : RetiredBoundary}
    {source : SeedSource} {store : CustodyStore Control} {entries : List Entry}
    (hseed : SeedBinding boundary source) (hboundary : V control boundary = .ok ())
    (hretire : retire X control boundary source = .ok store)
    (hadmitted : ∀ entry ∈ entries, entry.command.admittedAtMs < wordSize) :
    Refines X V boundary source store entries := by
  obtain ⟨hn, hm⟩ := retire_mirrors hseed hboundary hretire
  refine ⟨initialState boundary source, hn, ?_⟩
  have hp : Placed (initialLedger boundary source) :=
    ⟨_, boundary.position.logId, rfl, rfl, le_of_eq hseed.position⟩
  rcases hm.run hadmitted with
    ⟨f, hs, hl⟩ | ⟨store', results, ledger', results', hs, hl, hsa, hla⟩
  · refine .inl ⟨fun hc => ?_, f, hs, hl⟩
    obtain ⟨ledger', results, hr⟩ := mirrors_total hm rfl rfl hadmitted hc
    cases hl.symm.trans hr
  obtain ⟨ht, _⟩ := Tracks.run ⟨hm, hp⟩ hadmitted hs hl
  exact .inr ⟨store', results, ledger', results', hs, hl, hsa, mirrors_stored hla,
    ht.identity⟩

end Refinement

def targetText : String := "00000000-0000-4000-8000-000000000001"

theorem targetText_size : targetText.utf8ByteSize = 36 := by decide

theorem targetText_plain : targetText.toList.any isControl = false := by decide

def flatCustody : CustodyExternals Unit Unit where
  toExternals := { Genesis.sampleExternals 0 with
    uuidText := fun _ => targetText
    parseUuid := fun _ => some 1 }
  sha256 := fun bytes => digestText (bytes.foldl (fun n b => (257 * n + b.toNat) % 2 ^ 61) 0)
  sha256_valid := fun _ => digestText_valid _
  uuidText_size := fun _ => targetText_size
  uuidText_plain := fun _ => targetText_plain

def anyBoundary (_ : Unit) (_ : RetiredBoundary) : Except Failure Unit := .ok ()

def flatBackup : FullBackupCheckpoint :=
  ⟨"acme", "acme-1", 3, digestText 1, 1, digestText 2, digestText 3⟩

def flatRequest : RetireSourceRequest :=
  ⟨"retire", "acme-1", targetText, flatBackup, "vault", 100⟩

def retirementSha : String := flatCustody.sha (.retirementRequest flatRequest)

def flatBoundary : RetiredBoundary where
  position := ⟨⟨1, 1, 4⟩, some ⟨1, 1, 3⟩, digestText 4⟩
  request := flatRequest
  receipt := ⟨"acme", "owner", "retire", retirementSha, "acme-1", targetText, 4, 1, 50,
    flatBackup, digestText 6⟩
  seedSha256 := digestText 7

def flatSource : SeedSource := ⟨0, OrdMap.empty.insert "owner" ()⟩

def handover : CustodyCommand where
  context := ⟨.serviceIdentity, "owner", "acme", [.admin], "request"⟩
  admittedAtMs := 60
  request :=
    { retirement := ⟨"acme-1", "retire", retirementSha⟩
      commandId := "handover"
      expectedPolicyEpoch := 1
      notAfterMs := 100
      action := .replaceAdministrators (OrdMap.empty.insert "heir" ()) }

def handoverSha : String := digestText 169859250672698261

def requestSha : String := digestText 2176420171967525726

def handovers : List Entry :=
  [⟨⟨⟨1, 1, 5⟩, some ⟨1, 1, 4⟩, handoverSha, false⟩, handover⟩,
    ⟨⟨⟨1, 1, 6⟩, some ⟨1, 1, 5⟩, handoverSha, false⟩, handover⟩]

theorem flat_binding : SeedBinding flatBoundary flatSource := by
  constructor <;> decide

theorem flat_retired : retire flatCustody () flatBoundary flatSource = .ok (initialStore ()
    flatBoundary flatSource) := by
  have ha : validateCustodyAdministrators flatSource.administrators = .ok () := by
    decide +kernel
  have hr : RetireSourceRequest.validate flatCustody.toExternals flatBoundary.request =
      .ok () := by decide +kernel
  have hre : RetirementReceipt.validate flatCustody.toExternals flatBoundary.receipt =
      .ok () := by decide +kernel
  have ho := initial_origin flat_binding hr hre ha
  exact (retire_ok () (initial_shaped flat_binding ho ha)).1

/-- The owner is no administrator any more when the command is replayed, and gets no receipt. -/
theorem handover_replay_forbidden :
    retire flatCustody () flatBoundary flatSource =
      .ok (initialStore () flatBoundary flatSource) ∧
    ((runCustody flatCustody anyBoundary (initialStore () flatBoundary flatSource)
        handovers).map Prod.snd).toOption =
      some [.ok ⟨"handover", requestSha, "owner", 5, 60, 1, 2, .ok ()⟩,
        .error ⟨.forbidden, "current custody administrator required"⟩] :=
  ⟨flat_retired, by decide +kernel⟩

theorem handovers_refine :
    retire flatCustody () flatBoundary flatSource =
      .ok (initialStore () flatBoundary flatSource) ∧
    Refines flatCustody anyBoundary flatBoundary flatSource
      (initialStore () flatBoundary flatSource) handovers :=
  ⟨flat_retired, retired_tables_refine flat_binding rfl flat_retired (by decide)⟩

end CustodyLedger
