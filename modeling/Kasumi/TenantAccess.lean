import Kasumi.TenantTypes

/-! Checks that ordered application makes before it writes: names, authorization, policies,
limits and the audit log with its byte totals. None of them changes a state except
`appendAudit`, which adds one event. -/
namespace TenantAccess

open TenantTypes

def isControl (c : Char) : Bool := c.toNat < 32 || (127 ≤ c.toNat && c.toNat < 160)

def validateName (value : String) : Except Error Unit :=
  require (!(value.isEmpty || value.utf8ByteSize > 256 || value.toList.any isControl))
    .invalidArgument "name must contain 1–256 bytes without control characters"

def validateSha256 (value : String) : Except Error Unit :=
  require (validDigest value) .invalidArgument "invalid SHA-256 digest"

def controlTenant : String := "__kasumi_control"

def Policy.allows (policy : Policy) (context : RequestContext) (collection : Option String)
    (action : Action) : Bool :=
  context.scopes.contains action && policy.grants.any fun g =>
    g.principal == context.principal && g.actions.contains action &&
      (g.collection.isNone || g.collection == collection)

variable {Idx Acc : Type} (X : Externals Idx Acc)

def resourceDiffers : Except Error Unit :=
  fail .unauthorized "authenticated resource binding differs"

def requireDatabase (resource : CredentialResource) (incarnation : String) : Except Error Unit :=
  match resource with
  | .database expected =>
    if X.parseUuid incarnation = some expected then .ok () else resourceDiffers
  | _ => resourceDiffers

def requireControl (resource : CredentialResource) (incarnation : String) : Except Error Unit :=
  match resource with
  | .control expected =>
    if X.parseUuid incarnation = some expected then .ok () else resourceDiffers
  | _ => resourceDiffers

def checkAdmittedAt (authorization : RequestAuthorization) (timestampMs : ℕ) :
    Except Error Unit :=
  match authorization with
  | .serviceIdentity => .ok ()
  | .credential expiresAtMs _ =>
    require (timestampMs < expiresAtMs) .unauthorized "authenticated credential expired"

def expiresAtMs : RequestAuthorization → Option ℕ
  | .serviceIdentity => none
  | .credential e _ => some e

/-- Native credentials bind their exact installed purpose and incarnation. -/
def authorizeResource (state : TenantState) (context : RequestContext) : Except Error Unit :=
  match context.authorization with
  | .serviceIdentity => .ok ()
  | .credential _ resource =>
    if state.tenant = controlTenant then requireControl X resource state.incarnation
    else requireDatabase X resource state.incarnation

def authorizeState (state : TenantState) (context : RequestContext) (collection : Option String)
    (action : Action) : Except Error Unit := do
  authorizeResource X state context
  require (context.tenant = state.tenant) .forbidden "tenant access denied"
  require (Policy.allows state.policy context collection action) .forbidden
    "operation access denied"
  require (!("__kasumi_".isPrefixOf state.tenant && action = .write &&
    !Policy.allows state.policy context none .admin)) .forbidden
    "operator metadata requires administration permission"
  require (!((state.suspended || state.retired) && action != .admin)) .sealed
    "tenant is suspended"

def authorizeDiscoveryState (state : TenantState) (context : RequestContext) (action : Action) :
    Except Error Unit := do
  authorizeResource X state context
  require (context.tenant = state.tenant && context.scopes.contains action &&
    state.policy.grants.any fun g =>
      g.principal == context.principal && g.actions.contains action) .forbidden
    "discovery access denied"
  require (!((state.suspended && action != .admin) || state.retired)) .sealed
    "tenant is suspended or retired"

def maxAuditEventBytes : ℕ := 64 * 1024

def maxAuditSegmentBytes : ℕ := 8 * 1024 * 1024

def AuditRetentionBudget.validate (b : AuditRetentionBudget) : Except Error Unit :=
  require (!(b.hotBytes < 2 * maxAuditEventBytes || b.archiveBytes < maxAuditSegmentBytes))
    .invalidArgument "audit budget cannot hold a bounded maintenance segment"

def targetCompletionReserveBytes : ℕ := 256 * 1024 * 3

def mib : ℕ := 1024 * 1024

def validateLimits (limits : Limits) : Except Error Unit := do
  AuditRetentionBudget.validate limits.auditRetention
  let history := limits.history
  require (!(history.maxFeedEvents = 0 || history.maxFeedEvents > 1000000 ||
    history.maxFeedBytes = 0 || history.maxFeedBytes > 512 * mib ||
    history.maxArchiveSegments = 0 || history.maxArchiveSegments > 65536))
    .invalidArgument "invalid history resource limits"
  let atomic := limits.atomic
  require (!(atomic.maxOperations = 0 || atomic.maxOperations > 100000 ||
    atomic.maxReadAssertions = 0 || atomic.maxReadAssertions > 100000 ||
    atomic.maxTransactionBytes < limits.maxBatchBytes ||
    atomic.maxTransactionBytes > 64 * mib ||
    atomic.maxActiveTransactions = 0 || atomic.maxActiveTransactions > 64 ||
    atomic.maxReservedStagingBytes < atomic.maxTransactionBytes ||
    atomic.maxReservedStagingBytes > 512 * mib ||
    atomic.maxPermanentStagedBytes = 0 ||
    atomic.maxSnapshotLeases = 0 || atomic.maxSnapshotLeases > 128 ||
    atomic.maxSnapshotLeaseBytes = 0))
    .invalidArgument "invalid atomic resource limits"
  require (!(limits.maxDocumentBytes = 0 || limits.maxDocumentBytes > mib ||
    limits.maxBatchOperations = 0 || limits.maxBatchOperations > 256 ||
    limits.maxBatchBytes < limits.maxDocumentBytes || limits.maxBatchBytes > 8 * mib ||
    limits.maxPageSize = 0 || limits.maxPageSize > 1000 ||
    limits.cursorTtlMs = 0 || limits.cursorTtlMs > 60000 ||
    limits.maxQueryCandidates = 0 ||
    limits.maxResultBytes = 0 || limits.maxResultBytes > 8 * mib ||
    limits.maxMutationReceiptBytes = 0 || limits.maxBackupBindingBytes = 0 ||
    limits.maxDocuments = 0 || limits.maxLogicalBytes = 0 ||
    limits.maxSnapshotBytes < 4096 || limits.maxQueryGroups = 0 ||
    limits.maxCursorBytes = 0 || limits.maxCursors = 0 || limits.maxCollections = 0 ||
    limits.maxSchemaBytes = 0 || limits.maxRetirementBytes = 0 ||
    limits.maxTargetResolutionBytes < targetCompletionReserveBytes ||
    limits.maxSchemaActivationBytes = 0 || limits.maxPolicyGrants = 0))
    .invalidArgument "invalid resource limits"

def maxTableBudgetBytes : ℕ := 2 ^ 50

/-- A retained larger value may stay while other limits change. -/
def validateLimitBudgets (limits current : Limits) : Except Error Unit :=
  let raised (new old : ℕ) : Bool := new > maxTableBudgetBytes && new ≠ old
  require (!(raised limits.maxSnapshotBytes current.maxSnapshotBytes ||
    raised limits.maxMutationReceiptBytes current.maxMutationReceiptBytes ||
    raised limits.maxBackupBindingBytes current.maxBackupBindingBytes))
    .invalidArgument "table budget exceeds the restorable snapshot bound"

def nextPolicyEpoch (epoch : ℕ) : Except Error ℕ :=
  orError .quotaExceeded "policy generation exhausted" (checkedAdd epoch 1)

def validateGrants : List Grant → Except Error Unit
  | [] => .ok ()
  | grant :: grants => do
    validateName grant.principal
    match grant.collection with
    | some collection => validateName collection
    | none => pure ()
    require (!grant.actions.isEmpty) .invalidArgument "empty policy grant"
    validateGrants grants

def validatePolicy (policy : Policy) (limits : Limits) : Except Error Unit := do
  require (!(policy.grants.length > limits.maxPolicyGrants)) .quotaExceeded
    "policy grant quota exceeded"
  require (policy.grants.any fun g => g.collection.isNone && g.actions.contains .admin)
    .invalidArgument "tenant needs an administrator"
  validateGrants policy.grants

def definitionBytes : List CollectionState → ℕ → Except Error ℕ
  | [], total => .ok total
  | collection :: rest, total => do
    let total ← orError .quotaExceeded "schema size overflow"
      (checkedAdd total (X.len (.definition collection.definition)))
    definitionBytes rest total

def validateMetadataBudget (collections : OrdMap String CollectionState) (limits : Limits) :
    Except Error Unit := do
  require (!(collections.size > limits.maxCollections)) .quotaExceeded
    "collection quota exceeded"
  let bytes ← definitionBytes X collections.values 0
  require (!(bytes > limits.maxSchemaBytes)) .quotaExceeded
    "schema and index definition quota exceeded"

def maxSchemaChangesetCollections : ℕ := 128

def validateAuditBatchLen (events : List AuditEvent) : Except Error Unit :=
  require (!(events.isEmpty || events.length > maxSchemaChangesetCollections)) .invalidArgument
    "read audit batch outside event bound"

def readAuditAction (event : AuditEvent) : Except Error Action :=
  if event.action ∈ ["read", "discovery", "change_feed", "archive_receipt", "restore_lineage"]
  then .ok .read
  else if event.action ∈ ["receipt", "mutation_capacity_admission"] then .ok .write
  else if event.action ∈ ["schema_activation_status", "schema_read", "policy_limits_read"]
  then .ok .admin
  else fail .invalidArgument "invalid read audit action"

def validateReadAudit (state : TenantState) (command : Command) (event : AuditEvent)
    (revision : ℕ) : Except Error Unit := do
  let action ← readAuditAction event
  match event.collection with
  | none => authorizeDiscoveryState X state command.context action
  | some collection => authorizeState X state command.context (some collection) action
  require (event.principal = command.context.principal &&
    event.requestId = command.context.requestId &&
    event.outcome = "authorized_release" &&
    event.dataRevision.any fun r => r ≤ revision) .invalidArgument "invalid read audit event"

def auditAppendTotals (sequence hotBytes : ℕ) (event : AuditEvent) : Except Error (ℕ × ℕ) := do
  let bytes := X.len (.auditEvent event)
  require (!(bytes > maxAuditEventBytes)) .quotaExceeded "audit event exceeds record budget"
  let next ← orError .corruption "audit sequence exhausted" (checkedAdd sequence 1)
  let hot ← orError .corruption "audit byte count overflow" (checkedAdd hotBytes bytes)
  pure (next, hot)

def withAudits (state : TenantState) (events : List AuditEvent) (next hot : ℕ) : TenantState :=
  { state with
    audits := state.audits ++ events
    auditRetention :=
      { state.auditRetention with
        nextSequence := next
        hotBytes := hot } }

def appendAudit (state : TenantState) (event : AuditEvent) : Except Error TenantState := do
  let totals ← auditAppendTotals X state.auditRetention.nextSequence
    state.auditRetention.hotBytes event
  pure (withAudits state [event] totals.1 totals.2)

def targetAuditReserve (state : TenantState) : ℕ :=
  match state.targetCompletionHead.bind TargetCompletionHead.activeAuditBytes with
  | none => 0
  | some reserved =>
    if (state.targetLifecycle.get state.incarnation).any TargetExecutionState.completed
    then reserved - maxAuditEventBytes
    else reserved

def auditFits (state : TenantState) : Bool :=
  (checkedAdd state.auditRetention.hotBytes (targetAuditReserve state)).any fun bytes =>
    bytes ≤ state.limits.auditRetention.hotBytes

end TenantAccess
