import Kasumi.SchemaActivation

/-! Planned retirement of a source and its permanent command outcomes. A retirement that is
decided freezes the tenant; a refused or stopped one is recorded under its identity all the
same, so that the identity cannot be used again. -/
namespace Retirement

open TenantTypes TenantAccess Staging SchemaActivation

def FullBackupCheckpoint.validate (checkpoint : FullBackupCheckpoint) : Except Error Unit := do
  validateName checkpoint.tenant
  validateName checkpoint.sourceIncarnation
  validateSha256 checkpoint.residentSha256
  validateSha256 checkpoint.manifestCiphertextSha256
  validateSha256 checkpoint.keyLineageDigest
  require (checkpoint.backupId ≠ 0) .invalidArgument "nil backup checkpoint identity"

variable {Idx Acc : Type} (X : Externals Idx Acc)

def canonicalTarget (target : Uuid) (text : String) : Bool :=
  target ≠ 0 && X.uuidText target = text

def RetireSourceRequest.validate (request : RetireSourceRequest) : Except Error Unit := do
  validateName request.retirementId
  validateName request.expectedSourceIncarnation
  validateName request.destination
  FullBackupCheckpoint.validate request.checkpoint
  let target ← orError .invalidArgument "retirement target must be a UUID incarnation"
    (X.parseUuid request.targetIncarnation)
  require (canonicalTarget X target request.targetIncarnation &&
    request.targetIncarnation ≠ request.expectedSourceIncarnation &&
    request.checkpoint.sourceIncarnation = request.expectedSourceIncarnation &&
    request.notAfterMs ≠ 0) .invalidArgument
    "retirement source, target or deadline binding differs"

def RetireSourceRequest.reference (request : RetireSourceRequest) :
    Except Error RetirementRef := do
  RetireSourceRequest.validate X request
  pure ⟨request.expectedSourceIncarnation, request.retirementId,
    X.sha (.retirementRequest request)⟩

def RetirementRef.validate (reference : RetirementRef) : Except Error Unit := do
  validateName reference.sourceIncarnation
  validateName reference.retirementId
  validateSha256 reference.requestDigest

def RetirementReceipt.validate (receipt : RetirementReceipt) : Except Error Unit := do
  validateName receipt.tenant
  validateName receipt.principal
  validateName receipt.retirementId
  validateName receipt.sourceIncarnation
  validateSha256 receipt.requestDigest
  validateSha256 receipt.closureDigest
  FullBackupCheckpoint.validate receipt.checkpoint
  let target ← orError .invalidArgument "retirement target is invalid"
    (X.parseUuid receipt.targetIncarnation)
  require (canonicalTarget X target receipt.targetIncarnation &&
    receipt.tenant = receipt.checkpoint.tenant &&
    receipt.sourceIncarnation = receipt.checkpoint.sourceIncarnation &&
    receipt.sourceIncarnation ≠ receipt.targetIncarnation &&
    receipt.revision > receipt.checkpoint.revision && receipt.policyEpoch ≠ 0) .invalidArgument
    "retirement receipt binding differs"

def identity (reference : RetirementRef) : Except Error String := do
  RetirementRef.validate reference
  pure (X.sha (.retirementIdentity reference.sourceIncarnation reference.retirementId))

def lookup (state : TenantState) (context : RequestContext) (reference : RetirementRef) :
    Except Error (Option StoredRetirement) := do
  authorizeState X state context none .admin
  RetirementRef.validate reference
  require (state.incarnation = reference.sourceIncarnation) .conflict
    "retirement source incarnation differs"
  let key ← identity X reference
  match state.retirements.get key with
  | none => pure none
  | some record => do
    require (record.requestDigest = reference.requestDigest) .conflict
      "retirement command identity mismatch"
    pure (some record)

def entryBytes (key : String) (record : StoredRetirement) : Except Error ℕ :=
  orError .corruption "retirement accounting overflow"
    ((checkedAdd (X.len (.text key)) 1).bind fun n =>
      checkedAdd n (X.len (.retirementRecord record)))

def reservationRecord (principal : String) (request : RetireSourceRequest) (digest : String) :
    StoredRetirement :=
  { request := request
    principal := principal
    requestDigest := digest
    acceptedRevision := wordSize - 1
    outcome := .ok
      { tenant := request.checkpoint.tenant
        principal := principal
        retirementId := request.retirementId
        requestDigest := digest
        sourceIncarnation := request.expectedSourceIncarnation
        targetIncarnation := request.targetIncarnation
        revision := wordSize - 1
        policyEpoch := wordSize - 1
        admittedAtMs := wordSize - 1
        checkpoint := request.checkpoint
        closureDigest := String.ofList (List.replicate 64 '0') } }

def reservationBytes (principal : String) (request : RetireSourceRequest) : Except Error ℕ := do
  validateName principal
  let reference ← RetireSourceRequest.reference X request
  let bytes ← entryBytes X (String.ofList (List.replicate 64 '0'))
    (reservationRecord principal request reference.requestDigest)
  orError .corruption "retirement reservation overflow"
    (checkedAdd bytes permanentOutcomeHeadroom)

/-- Current authorization and quota of a retirement; the record of an earlier one is
returned instead. -/
def admission (state : TenantState) (context : RequestContext) (request : RetireSourceRequest) :
    Except Error (Option StoredRetirement) := do
  RetireSourceRequest.validate X request
  let reference ← RetireSourceRequest.reference X request
  match ← lookup X state context reference with
  | some record => pure (some record)
  | none => do
    require (request.checkpoint.tenant = state.tenant) .forbidden
      "retirement backup tenant differs"
    require (!state.retired) .sealed "source already permanently retired"
    let required ← reservationBytes X context.principal request
    require ((checkedAdd state.retirementBytes required).any fun n =>
      n ≤ state.limits.maxRetirementBytes) .quotaExceeded
      "permanent retirement byte budget exhausted"
    pure none

def decision (state : TenantState) (command : Command) (prepared : PreparedRetirement)
    (previousRevision revision : ℕ) : Except Error RetirementReceipt := do
  let request := prepared.request
  validateSha256 prepared.verifiedClosureDigest
  let observed ← orError .invalidArgument "retirement was not prepared" prepared.observation
  validateSha256 observed.closureDigest
  require (!(command.timestampMs > request.notAfterMs)) .conflict
    "retirement action deadline expired"
  require (!(state.pendingRestore.isSome || request.checkpoint.revision > previousRevision ||
    observed.revision ≠ previousRevision ||
    observed.closureDigest ≠ prepared.verifiedClosureDigest)) .conflict
    "source changed after verified checkpoint"
  let reference ← RetireSourceRequest.reference X request
  let policyEpoch ← nextPolicyEpoch state.policyEpoch
  let receipt : RetirementReceipt :=
    { tenant := state.tenant
      principal := command.context.principal
      retirementId := request.retirementId
      requestDigest := reference.requestDigest
      sourceIncarnation := state.incarnation
      targetIncarnation := request.targetIncarnation
      revision := revision
      policyEpoch := policyEpoch
      admittedAtMs := command.timestampMs
      checkpoint := request.checkpoint
      closureDigest := prepared.verifiedClosureDigest }
  RetirementReceipt.validate X receipt
  pure receipt

def oldEntryBytes (state : TenantState) (key : String) : Except Error ℕ :=
  match state.retirements.get key with
  | some old => entryBytes X key old
  | none => .ok 0

def store (state : TenantState) (key : String) (record : StoredRetirement) :
    Except Error TenantState := do
  let old ← oldEntryBytes X state key
  let new ← entryBytes X key record
  let bytes ← orError .corruption "retirement accounting mismatch"
    ((checkedSub state.retirementBytes old).bind fun n => checkedAdd n new)
  require (!(bytes > state.limits.maxRetirementBytes)) .quotaExceeded
    "permanent retirement byte budget exhausted"
  pure { state with
    retirementBytes := bytes
    retirements := state.retirements.insert key record }

def writeOutcome : Except Error RetirementReceipt → Outcome
  | .ok receipt => .ok (emptyReceipt receipt.revision)
  | .error e => .error e

def freeze (state : TenantState) : Except Error RetirementReceipt → TenantState
  | .error _ => state
  | .ok receipt =>
    { state with
      retired := true
      suspended := true
      policyEpoch := receipt.policyEpoch }

def apply (state : TenantState) (command : Command) (prepared : PreparedRetirement)
    (previousRevision revision : ℕ) : Except Error (TenantState × Applied) := do
  match ← admission X state command.context prepared.request with
  | some record => pure (state, writeOutcome record.outcome, false)
  | none => do
    let reference ← RetireSourceRequest.reference X prepared.request
    let outcome := decision X state command prepared previousRevision revision
    let key ← identity X reference
    let stored ← store X state key
      { request := prepared.request
        principal := command.context.principal
        requestDigest := reference.requestDigest
        acceptedRevision := revision
        outcome := outcome }
    pure (freeze stored outcome, writeOutcome outcome, false)

def abort (state : TenantState) (context : RequestContext) (request : RetireSourceRequest)
    (revision : ℕ) : Except Error (TenantState × Applied) := do
  let reference ← RetireSourceRequest.reference X request
  match ← admission X state context request with
  | some record => pure (state, .ok (emptyReceipt record.acceptedRevision), false)
  | none => do
    let key ← identity X reference
    let stored ← store X state key
      { request := request
        principal := context.principal
        requestDigest := reference.requestDigest
        acceptedRevision := revision
        outcome := fail .conflict "retirement permanently stopped" }
    pure (stored, .ok (emptyReceipt revision), false)

def retirementRequest : Operation → Option RetireSourceRequest
  | .retireSource prepared => some prepared.request
  | .abortRetirement request => some request
  | _ => none

def rejectBudget (previous next rejected : TenantState) (command : Command) (error : Error) :
    Except Error TenantState :=
  match retirementRequest command.operation with
  | none => .ok rejected
  | some request => do
    let reference ← RetireSourceRequest.reference X request
    let key ← identity X reference
    match previous.retirements.get key, next.retirements.get key with
    | none, some record => store X rejected key { record with outcome := .error error }
    | _, _ => pure rejected

end Retirement
