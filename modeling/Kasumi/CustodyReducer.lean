import Kasumi.JsonText
import Kasumi.Retirement

/-! Administration of a permanently retired source: the closed custody state with its whole
history of receipts and audit events, its encoded form, and the one reducer that applies a
custody request to it. -/
namespace CustodyReducer

open TenantTypes TenantAccess Retirement JsonText

def checkedMul (a b : ℕ) : Option ℕ := if a * b < wordSize then some (a * b) else none

structure CustodyLimits where
  maxStateBytes : ℕ

def CustodyLimits.default : CustodyLimits := ⟨64 * mib⟩

def CustodyLimits.validate (limits : CustodyLimits) : Except Error Unit :=
  require (4096 ≤ limits.maxStateBytes &&
    ((checkedMul limits.maxStateBytes 16).bind (checkedAdd · (64 * mib))).isSome)
    .invalidArgument "invalid custody durable byte budget"

inductive CustodyAction where
  | replaceAdministrators (administrators : OrdSet String)
  | setLimits (limits : CustodyLimits)

structure CustodyRequest where
  retirement : RetirementRef
  commandId : String
  expectedPolicyEpoch : ℕ
  notAfterMs : ℕ
  action : CustodyAction

structure CustodyReceipt where
  commandId : String
  requestDigest : String
  principal : String
  revision : ℕ
  admittedAtMs : ℕ
  previousPolicyEpoch : ℕ
  policyEpoch : ℕ
  outcome : Except Error Unit
  deriving DecidableEq

structure CustodyAudit where
  principal : String
  requestId : String
  commandId : String
  requestDigest : String
  revision : ℕ
  admittedAtMs : ℕ
  policyEpoch : ℕ
  replay : Bool
  accepted : Bool

structure RetiredSnapshotState where
  revisionBase : ℕ
  revision : ℕ
  policyEpoch : ℕ
  administrators : OrdSet String
  request : RetireSourceRequest
  receipt : RetirementReceipt

structure CustodyState where
  origin : RetiredSnapshotState
  revision : ℕ
  policyEpoch : ℕ
  administrators : OrdSet String
  limits : CustodyLimits
  commands : OrdMap String CustodyReceipt
  audit : List CustodyAudit

/-- SHA-256 of encoded bytes, and the canonical text of identifiers. -/
structure CustodyExternals (Idx Acc : Type) extends Externals Idx Acc where
  sha256 : List UInt8 → String
  sha256_valid : ∀ bytes, validDigest (sha256 bytes) = true
  uuidText_size : ∀ u, (uuidText u).utf8ByteSize = 36
  uuidText_plain : ∀ u, (uuidText u).toList.any isControl = false

section Encoded

variable {Idx Acc : Type} (X : CustodyExternals Idx Acc)

def ErrorCode.text : ErrorCode → String
  | .invalidArgument => "INVALID_ARGUMENT"
  | .unauthorized => "UNAUTHORIZED"
  | .forbidden => "FORBIDDEN"
  | .notFound => "NOT_FOUND"
  | .alreadyExists => "ALREADY_EXISTS"
  | .conflict => "CONFLICT"
  | .schemaViolation => "SCHEMA_VIOLATION"
  | .quotaExceeded => "QUOTA_EXCEEDED"
  | .resourceExhausted => "RESOURCE_EXHAUSTED"
  | .indexRequired => "INDEX_REQUIRED"
  | .cursorExpired => "CURSOR_EXPIRED"
  | .unavailable => "UNAVAILABLE"
  | .unknownOutcome => "UNKNOWN_OUTCOME"
  | .corruption => "CORRUPTION"
  | .sealed => "SEALED"
  | .auditUnavailable => "AUDIT_UNAVAILABLE"

def outcomeJson : Except Error Unit → Json
  | .ok () => .obj [("Ok", .null)]
  | .error e =>
    .obj [("Err", .obj [("code", .str (ErrorCode.text e.code)), ("message", .str e.message)])]

def namesJson (names : OrdSet String) : Json := .arr (names.keys.map .str)

def limitsJson (limits : CustodyLimits) : Json :=
  .obj [("max_state_bytes", .num limits.maxStateBytes)]

def actionJson : CustodyAction → Json
  | .replaceAdministrators names =>
    .obj [("action", .str "replace_administrators"), ("value", namesJson names)]
  | .setLimits limits => .obj [("action", .str "set_limits"), ("value", limitsJson limits)]

def referenceJson (reference : RetirementRef) : Json :=
  .obj [("source_incarnation", .str reference.sourceIncarnation),
    ("retirement_id", .str reference.retirementId),
    ("request_digest", .str reference.requestDigest)]

def requestJson (request : CustodyRequest) : Json :=
  .obj [("retirement", referenceJson request.retirement),
    ("command_id", .str request.commandId),
    ("expected_policy_epoch", .num request.expectedPolicyEpoch),
    ("not_after_ms", .num request.notAfterMs),
    ("action", actionJson request.action)]

def receiptJson (receipt : CustodyReceipt) : Json :=
  .obj [("command_id", .str receipt.commandId),
    ("request_digest", .str receipt.requestDigest),
    ("principal", .str receipt.principal),
    ("revision", .num receipt.revision),
    ("admitted_at_ms", .num receipt.admittedAtMs),
    ("previous_policy_epoch", .num receipt.previousPolicyEpoch),
    ("policy_epoch", .num receipt.policyEpoch),
    ("outcome", outcomeJson receipt.outcome)]

def eventJson (event : CustodyAudit) : Json :=
  .obj [("principal", .str event.principal),
    ("request_id", .str event.requestId),
    ("command_id", .str event.commandId),
    ("request_digest", .str event.requestDigest),
    ("revision", .num event.revision),
    ("admitted_at_ms", .num event.admittedAtMs),
    ("policy_epoch", .num event.policyEpoch),
    ("replay", .bool event.replay),
    ("accepted", .bool event.accepted)]

def checkpointJson (checkpoint : FullBackupCheckpoint) : Json :=
  .obj [("tenant", .str checkpoint.tenant),
    ("source_incarnation", .str checkpoint.sourceIncarnation),
    ("revision", .num checkpoint.revision),
    ("resident_sha256", .str checkpoint.residentSha256),
    ("backup_id", .str (X.uuidText checkpoint.backupId)),
    ("manifest_ciphertext_sha256", .str checkpoint.manifestCiphertextSha256),
    ("key_lineage_digest", .str checkpoint.keyLineageDigest)]

def retireJson (request : RetireSourceRequest) : Json :=
  .obj [("retirement_id", .str request.retirementId),
    ("expected_source_incarnation", .str request.expectedSourceIncarnation),
    ("target_incarnation", .str request.targetIncarnation),
    ("checkpoint", checkpointJson X request.checkpoint),
    ("destination", .str request.destination),
    ("not_after_ms", .num request.notAfterMs)]

def retirementJson (receipt : RetirementReceipt) : Json :=
  .obj [("tenant", .str receipt.tenant),
    ("principal", .str receipt.principal),
    ("retirement_id", .str receipt.retirementId),
    ("request_digest", .str receipt.requestDigest),
    ("source_incarnation", .str receipt.sourceIncarnation),
    ("target_incarnation", .str receipt.targetIncarnation),
    ("revision", .num receipt.revision),
    ("policy_epoch", .num receipt.policyEpoch),
    ("admitted_at_ms", .num receipt.admittedAtMs),
    ("checkpoint", checkpointJson X receipt.checkpoint),
    ("closure_digest", .str receipt.closureDigest)]

def originJson (origin : RetiredSnapshotState) : Json :=
  .obj [("revision_base", .num origin.revisionBase),
    ("revision", .num origin.revision),
    ("policy_epoch", .num origin.policyEpoch),
    ("administrators", namesJson origin.administrators),
    ("request", retireJson X origin.request),
    ("receipt", retirementJson X origin.receipt)]

def commandsJson (commands : OrdMap String CustodyReceipt) : Json :=
  .obj (commands.entries.map fun e => (e.1, receiptJson e.2))

def stateJson (state : CustodyState) : Json :=
  .obj [("origin", originJson X state.origin),
    ("revision", .num state.revision),
    ("policy_epoch", .num state.policyEpoch),
    ("administrators", namesJson state.administrators),
    ("limits", limitsJson state.limits),
    ("commands", commandsJson state.commands),
    ("audit", .arr (state.audit.map eventJson))]

end Encoded

def validateEach : List String → Except Error Unit
  | [] => .ok ()
  | name :: rest => do
    validateName name
    validateEach rest

def validateCustodyAdministrators (principals : OrdSet String) : Except Error Unit := do
  require (!(principals.size = 0 || principals.size > 1024)) .invalidArgument
    "custody requires 1..1024 administrators"
  validateEach principals.keys

def CustodyRequest.validate (request : CustodyRequest) : Except Error Unit := do
  RetirementRef.validate request.retirement
  validateName request.commandId
  require (request.expectedPolicyEpoch ≠ 0) .invalidArgument "custody epoch is zero"
  match request.action with
  | .replaceAdministrators principals => validateCustodyAdministrators principals
  | .setLimits limits => limits.validate

def CustodyReceipt.validate (receipt : CustodyReceipt) : Except Error Unit := do
  validateName receipt.commandId
  validateName receipt.principal
  validateSha256 receipt.requestDigest
  require (!(receipt.revision = 0 || receipt.previousPolicyEpoch = 0 ||
    receipt.policyEpoch < receipt.previousPolicyEpoch ||
    receipt.policyEpoch > min (receipt.previousPolicyEpoch + 1) (wordSize - 1))) .corruption
    "custody receipt position differs"

def validateCommands (revision policyEpoch : ℕ) :
    List (String × CustodyReceipt) → Except Error Unit
  | [] => .ok ()
  | (identity, receipt) :: rest => do
    receipt.validate
    require (!(identity ≠ receipt.commandId || receipt.revision > revision ||
      receipt.policyEpoch > policyEpoch)) .corruption "custody retained command differs"
    validateCommands revision policyEpoch rest

def validateAudit (commands : OrdMap String CustodyReceipt) (revision policyEpoch : ℕ) :
    ℕ → List CustodyAudit → Except Error Unit
  | _, [] => .ok ()
  | previous, event :: rest => do
    validateName event.principal
    validateName event.requestId
    let receipt ← orError .corruption "custody audit command absent"
      (commands.get event.commandId)
    require (!(event.revision ≤ previous || event.revision > revision ||
      event.requestDigest ≠ receipt.requestDigest || event.policyEpoch > policyEpoch ||
      event.accepted ≠ receipt.outcome.isOk)) .corruption "custody audit linkage differs"
    validateAudit commands revision policyEpoch event.revision rest

section Reducer

variable {Idx Acc : Type} (X : CustodyExternals Idx Acc)

def CustodyRequest.digest (request : CustodyRequest) : Except Error String := do
  request.validate
  pure (X.sha256 (encode (.arr [.str "kasumi.retirement-custody-command.v1",
    requestJson request])))

def CustodyState.validate (state : CustodyState) : Except Error Unit := do
  state.limits.validate
  validateCustodyAdministrators state.administrators
  RetireSourceRequest.validate X.toExternals state.origin.request
  RetirementReceipt.validate X.toExternals state.origin.receipt
  require (!(state.policyEpoch = 0 || state.revision < state.origin.revision)) .corruption
    "custody state position differs"
  validateCommands state.revision state.policyEpoch state.commands.entries
  validateAudit state.commands state.revision state.policyEpoch state.origin.revision state.audit
  require (size (stateJson X state) ≤ state.limits.maxStateBytes) .quotaExceeded
    "custody metadata byte budget exhausted"

def CustodyState.new (origin : RetiredSnapshotState) (limits : CustodyLimits) :
    Except Error CustodyState := do
  let state : CustodyState :=
    { origin := origin, revision := origin.revision, policyEpoch := 1,
      administrators := origin.administrators, limits := limits, commands := OrdMap.empty,
      audit := [] }
  state.validate X
  pure state

def requireCustody (authorization : RequestAuthorization) (incarnation : String) :
    Except Error Unit :=
  match authorization with
  | .serviceIdentity => .ok ()
  | .credential _ (.custody expected) =>
    if X.parseUuid incarnation = some expected then .ok () else resourceDiffers
  | .credential _ _ => resourceDiffers

def CustodyState.authorize (state : CustodyState) (context : RequestContext) :
    Except Error Unit := do
  requireCustody X context.authorization state.origin.receipt.sourceIncarnation
  validateName context.principal
  validateName context.requestId
  require (!(context.tenant ≠ state.origin.receipt.tenant || !context.scopes.contains .admin ||
    !state.administrators.contains context.principal)) .forbidden
    "current custody administrator required"

def increment (value : ℕ) : Except Error ℕ :=
  orError .conflict "custody epoch exhausted" (checkedAdd value 1)

/-- A new request either changes the policy or is refused for good; the refusal is kept. -/
def CustodyState.attempt (state : CustodyState) (request : CustodyRequest)
    (admittedAtMs revision : ℕ) : Except Error (CustodyState × Except Error Unit) :=
  let next := { state with revision := revision }
  if admittedAtMs > request.notAfterMs then
    pure (next, .error ⟨.conflict, "custody action deadline expired"⟩)
  else if request.expectedPolicyEpoch ≠ state.policyEpoch then
    pure (next, .error ⟨.conflict, "custody policy changed"⟩)
  else do
    let epoch ← increment state.policyEpoch
    match request.action with
    | .replaceAdministrators administrators =>
      pure ({ next with administrators := administrators, policyEpoch := epoch }, .ok ())
    | .setLimits limits => pure ({ next with limits := limits, policyEpoch := epoch }, .ok ())

def CustodyState.resolve (state : CustodyState) (context : RequestContext)
    (request : CustodyRequest) (digest : String) (admittedAtMs revision : ℕ) :
    Option CustodyReceipt → Except Error (CustodyState × CustodyReceipt)
  | some prior => pure ({ state with revision := revision }, prior)
  | none => do
    let (next, outcome) ← state.attempt request admittedAtMs revision
    let receipt : CustodyReceipt :=
      { commandId := request.commandId, requestDigest := digest, principal := context.principal,
        revision := revision, admittedAtMs := admittedAtMs,
        previousPolicyEpoch := state.policyEpoch, policyEpoch := next.policyEpoch,
        outcome := outcome }
    pure ({ next with commands := next.commands.insert request.commandId receipt }, receipt)

def CustodyState.apply (state : CustodyState) (context : RequestContext)
    (request : CustodyRequest) (admittedAtMs revision : ℕ) :
    Except Error (CustodyState × CustodyReceipt) := do
  state.authorize X context
  checkAdmittedAt context.authorization admittedAtMs
  request.validate
  let reference ← RetireSourceRequest.reference X.toExternals state.origin.request
  require (!(request.retirement ≠ reference || revision ≤ state.revision)) .conflict
    "custody source or applied revision differs"
  let digest ← request.digest X
  let prior := state.commands.get request.commandId
  require (prior.all fun p => p.requestDigest = digest) .conflict
    "custody command identity differs"
  let (next, receipt) ← state.resolve context request digest admittedAtMs revision prior
  let event : CustodyAudit :=
    { principal := context.principal, requestId := context.requestId,
      commandId := request.commandId, requestDigest := digest, revision := revision,
      admittedAtMs := admittedAtMs, policyEpoch := next.policyEpoch, replay := prior.isSome,
      accepted := receipt.outcome.isOk }
  let next := { next with audit := next.audit ++ [event] }
  next.validate X
  pure (next, receipt)

end Reducer

end CustodyReducer
