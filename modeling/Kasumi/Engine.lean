import Kasumi.ChangeFeed
import Kasumi.HistoryArchive
import Kasumi.LifecycleControl
import Kasumi.PermanentRows
import Kasumi.Retirement

/-! Ordered application of commands. A command is applied to a private copy of the selected
generation; what is published is that copy, a rejection rebuilt from the previous state, or the
previous state at the new revision. A failure of the replica itself publishes nothing. -/
namespace Engine

open TenantTypes TenantAccess Mutations Staging PermanentRows FallibleState

/-- One selected state of a tenant with the permanent rows, indexes and accounting it owns. -/
structure Generation (Idx Acc : Type) where
  state : TenantState
  receipts : ReceiptView
  terminals : TerminalView
  indexes : Idx
  accounting : Acc

/-- What preparing a command yields: no generation is published once the tenant is retired. -/
structure Prepared (Idx Acc : Type) where
  generation : Option (Generation Idx Acc)
  changed : ChangedIds
  outcome : Outcome

structure AccessGrant where
  valid : Bool
  serving : Bool
  again : Except Error Unit

structure Access where
  current : Except Error Unit
  grant : Option AccessGrant

/-- Where and when a command is applied: its log position, the document store that the
previous generation selected and the replica's access. -/
structure Site where
  applied : AppliedIdentity
  resolver : Resolver
  access : Access

def isRestoreCompletion (event : AuditEvent) : Bool :=
  event.action = "restore" && event.outcome = "completed"

def completesRestore : Operation → Bool
  | .maintenanceAudit event => isRestoreCompletion event
  | _ => false

/-- A grant that does not serve admits only the exact completion of a restore. -/
def checkGrant (state : TenantState) (operation : Operation) (grant : AccessGrant) :
    Except Error Unit := do
  require grant.valid .sealed "independent access grant expired"
  if grant.serving then pure ()
  else do
    grant.again
    require (!(state.targetLifecycle.contains state.incarnation || !state.suspended ||
      !completesRestore operation)) .forbidden
      "restore preparation permits only exact restore completion"

def checkOperationAccess (access : Access) (state : TenantState) (operation : Operation) :
    Except Error Unit := do
  access.current
  require (!(state.targetLifecycle.get state.incarnation).any fun target => !target.activated)
    .forbidden "native target activation must commit before tenant commands"
  match access.grant with
  | none => pure ()
  | some grant => checkGrant state operation grant

variable {Idx Acc : Type} (X : Externals Idx Acc)

def done (revision : ℕ) : Applied := (.ok (emptyReceipt revision), false)

def setCollection (state : TenantState) (command : Command) (definition : CollectionDefinition)
    (create : Bool) (revision : ℕ) (resolver : Resolver) :
    Except ReadFailure (TenantState × Applied) := do
  query (authorizeState X state command.context (some definition.name) .admin)
  let collection ← SchemaActivation.prepareCollection X state
    (state.collections.get definition.name) definition create resolver
  let collections := state.collections.insert definition.name collection
  query (validateMetadataBudget X collections state.limits)
  let policyEpoch ← query (nextPolicyEpoch state.policyEpoch)
  let schemaEpoch ← query (nextPolicyEpoch state.schemaEpoch)
  pure ({ state with
    collections := collections
    policyEpoch := policyEpoch
    schemaEpoch := schemaEpoch }, .ok (emptyReceipt revision), true)

def setPolicy (state : TenantState) (command : Command) (policy : Policy) (revision : ℕ) :
    Except Error (TenantState × Applied) := do
  authorizeState X state command.context none .admin
  validatePolicy policy state.limits
  let policyEpoch ← nextPolicyEpoch state.policyEpoch
  pure ({ state with
    policy := policy
    policyEpoch := policyEpoch }, done revision)

def bodiesFit (state : TenantState) (limits : Limits) : Bool :=
  state.collections.values.all fun collection =>
    collection.documents.values.all fun slot => bodyBytes X slot ≤ limits.maxDocumentBytes

def checkRetained (state : TenantState) (limits : Limits) : Except Error Unit := do
  require (!(state.schemaActivationBytes > limits.maxSchemaActivationBytes ||
    state.retirementBytes > limits.maxRetirementBytes)) .quotaExceeded
    "new byte budget excludes retained permanent outcomes"
  validatePolicy state.policy limits
  validateMetadataBudget X state.collections limits
  require (!(limits.maxDocumentBytes < state.limits.maxDocumentBytes && !bodiesFit X state limits))
    .quotaExceeded "new document limit is below retained state"
  require (!(state.documentCount > limits.maxDocuments ||
    state.logicalBytes > limits.maxLogicalBytes ||
    state.mutationReceiptHead.encodedBytes > limits.maxMutationReceiptBytes ||
    state.backupBindingBytes > limits.maxBackupBindingBytes ||
    state.historyArchives.size > limits.history.maxArchiveSegments ||
    state.auditRetention.hotBytes > limits.auditRetention.hotBytes ||
    state.auditRetention.archiveBytes > limits.auditRetention.archiveBytes)) .quotaExceeded
    "new limits are below retained state"

def setLimits (state : TenantState) (command : Command) (limits : Limits) (revision : ℕ) :
    Except Error (TenantState × Applied) := do
  authorizeState X state command.context none .admin
  require (limits.maxTargetResolutionBytes = state.limits.maxTargetResolutionBytes) .forbidden
    "target resolution budget requires exact current-Control maintenance"
  validateLimits limits
  validateLimitBudgets limits state.limits
  validateNewLimits X state limits
  checkRetained X state limits
  let policyEpoch ← nextPolicyEpoch state.policyEpoch
  let feed ← ChangeFeed.trim X state.changeFeed limits.history
  pure ({ state with
    limits := limits
    policyEpoch := policyEpoch
    changeFeed := feed }, done revision)

def suspend (state : TenantState) (command : Command) (suspended : Bool) (revision : ℕ) :
    Except Error (TenantState × Applied) := do
  authorizeState X state command.context none .admin
  require (!(!suspended && state.pendingRestore.isSome)) .auditUnavailable
    "restore must be durably finalized before activation"
  let policyEpoch ← nextPolicyEpoch state.policyEpoch
  pure ({ state with
    suspended := suspended
    policyEpoch := policyEpoch }, done revision)

def audit (state : TenantState) (command : Command) (event : AuditEvent) (revision : ℕ) :
    Except Error (TenantState × Applied) := do
  validateReadAudit X state command event revision
  let state ← appendAudit X state event
  pure (state, done revision)

def auditBatchTotals (state : TenantState) (command : Command) (revision : ℕ) :
    List AuditEvent → ℕ → ℕ → Except Error (ℕ × ℕ)
  | [], sequence, hotBytes => .ok (sequence, hotBytes)
  | event :: rest, sequence, hotBytes => do
    validateReadAudit X state command event revision
    let totals ← auditAppendTotals X sequence hotBytes event
    auditBatchTotals state command revision rest totals.1 totals.2

def auditBatch (state : TenantState) (command : Command) (events : List AuditEvent)
    (revision : ℕ) : Except Error (TenantState × Applied) := do
  validateAuditBatchLen events
  let totals ← auditBatchTotals X state command revision events
    state.auditRetention.nextSequence state.auditRetention.hotBytes
  pure (withAudits state events totals.1 totals.2, done revision)

def maintenanceActions : List String :=
  ["backup", "backup_verification", "restore", "archive", "key_rotation", "key_rewrap",
    "membership", "retirement_status", "retirement_receipt", "backup_abort", "backup_cleanup"]

def maintenanceOutcomes : List String := ["started", "completed", "failed", "unknown"]

def validateMaintenance (state : TenantState) (command : Command) (event : AuditEvent)
    (revision : ℕ) : Except Error Unit := do
  authorizeState X state command.context none .admin
  require (event.principal = command.context.principal &&
    event.requestId = command.context.requestId && maintenanceActions.contains event.action &&
    maintenanceOutcomes.contains event.outcome && event.dataRevision.any fun r => r ≤ revision)
    .invalidArgument "invalid maintenance audit event"

def checkPendingRestore (state : TenantState) (event : AuditEvent) : Except Error Unit := do
  let pending ← orError .conflict "no restore is pending" state.pendingRestore
  require (event.dataRevision = some pending.sourceRevision) .invalidArgument
    "restore audit revision mismatch"

/-- A completed restore clears its mark before the event is appended. -/
def maintenanceAudit (command : Command) (event : AuditEvent) (revision : ℕ) :
    Prog TenantState ReadFailure Applied := do
  checked (validateMaintenance X (← get) command event revision)
  if isRestoreCompletion event then do
    checked (checkPendingRestore (← get) event)
    modify fun state => { state with pendingRestore := none }
  install fun state => do
    let state ← query (appendAudit X state event)
    pure (state, done revision)

def admitsRetired : Operation → Bool
  | .maintenanceAudit _ => true
  | .retireSource _ => true
  | .abortRetirement _ => true
  | .setLimits _ => true
  | .setPolicy _ => true
  | _ => false

def applyOperation (command : Command) (revision previousRevision : ℕ) (indexes : Idx)
    (resolver : Resolver) : Prog TenantState ReadFailure Applied := do
  checked (require (!((← get).retired && !admitsRetired command.operation)) .sealed
    "database incarnation is permanently retired")
  checked (LifecycleControl.guard (← get) command.operation)
  match command.operation with
  | .lifecycleControl request =>
    install fun state => query (LifecycleControl.apply X state command request revision)
  | .publishHistoryArchive request =>
    install fun state => HistoryArchive.publish X state command request revision resolver
  | .beginStaged _ => Staging.apply X command revision indexes resolver
  | .appendStaged _ => Staging.apply X command revision indexes resolver
  | .finalizeStaged _ => Staging.apply X command revision indexes resolver
  | .stopStaged _ => Staging.apply X command revision indexes resolver
  | .mutate _ =>
    checked (fail .corruption "ordinary mutation bypassed permanent receipt admission")
  | .activateSchema request =>
    install fun state => SchemaActivation.apply X state command.context request revision
      command.timestampMs resolver
  | .createCollection definition =>
    install fun state => setCollection X state command definition true revision resolver
  | .replaceCollection definition =>
    install fun state => setCollection X state command definition false revision resolver
  | .setPolicy policy => install fun state => query (setPolicy X state command policy revision)
  | .setLimits limits => install fun state => query (setLimits X state command limits revision)
  | .suspend suspended => install fun state => query (suspend X state command suspended revision)
  | .retireSource request =>
    install fun state => query (Retirement.apply X state command request previousRevision revision)
  | .abortRetirement request =>
    install fun state => query (Retirement.abort X state command.context request revision)
  | .audit event => install fun state => query (audit X state command event revision)
  | .auditBatch events => install fun state => query (auditBatch X state command events revision)
  | .maintenanceAudit event => maintenanceAudit X command event revision

def atRevision (state : TenantState) (revision : ℕ) : TenantState :=
  { state with revision := revision }

/-- Publish the previous state at the new revision; nothing of the command takes effect. -/
def revisionOnly (previous : Generation Idx Acc) (revision : ℕ) (message : String) :
    Prepared Idx Acc :=
  { generation := some { previous with state := atRevision previous.state revision }
    changed := OrdMap.empty
    outcome := fail .auditUnavailable message }

def isAudit : Operation → Bool
  | .audit _ => true
  | .auditBatch _ => true
  | .maintenanceAudit _ => true
  | _ => false

def isArchive : Operation → Bool
  | .publishHistoryArchive _ => true
  | _ => false

def auditAction : Operation → String
  | .lifecycleControl _ => "lifecycle_control"
  | .publishHistoryArchive _ => "archive"
  | .mutate _ => "mutation"
  | .beginStaged _ | .appendStaged _ | .finalizeStaged _ | .stopStaged _ => "staged_transaction"
  | .activateSchema _ | .createCollection _ | .replaceCollection _ => "schema"
  | .setPolicy _ => "policy"
  | .setLimits _ => "quota"
  | .suspend _ => "suspend"
  | .retireSource _ => "retire"
  | .abortRetirement _ => "retire_stop"
  | .audit _ | .auditBatch _ | .maintenanceAudit _ => "audit"

def auditOutcome (committed : Bool) : String := if committed then "committed" else "rejected"

def commandEvent (command : Command) (state : TenantState) (outcome : String) : AuditEvent :=
  { eventId := state.incarnation ++ ":" ++ toString state.revision
    principal := command.context.principal
    action := auditAction command.operation
    requestId := command.context.requestId
    timestampMs := command.timestampMs
    dataRevision := some state.revision
    outcome := outcome
    collection := none }

def stagedTransactionId : Operation → Option String
  | .beginStaged request => some request.transactionId
  | .appendStaged request => some request.transaction.transactionId
  | .finalizeStaged reference => some reference.transactionId
  | .stopStaged request => some request.original.transactionId
  | _ => none

def operationChanges (state : TenantState) (command : Command) : Except Error ChangedIds :=
  match command.operation with
  | .mutate batch => .ok (batchChanges batch)
  | .publishHistoryArchive request => .ok (HistoryArchive.changes state request)
  | .finalizeStaged reference => do
    let stage ← orError .corruption "finalized staged source missing" (state.stagedTransactions.get
      (X.sha (.identity command.context.principal reference.transactionId)))
    pure (Staging.changes stage)
  | _ => .ok OrdMap.empty

def stagedChanges (state : TenantState) (command : Command) : OrdSet String :=
  match stagedTransactionId command.operation with
  | some id =>
    state.activeStagedTransactions.add (X.sha (.identity command.context.principal id))
  | none => OrdMap.empty

def budgetFits (accounting : Acc) (state : TenantState) : Except Error Bool := do
  if ← X.fits accounting state then LifecycleControl.completionFits X state accounting
  else pure false

def auditedFits (accounting : Acc) (state : TenantState) : Except Error Bool :=
  if auditFits state then budgetFits X accounting state else .ok false

/-- Whether a rejection fits; its audit log is checked without the target's reserve. -/
def rejectedFits (accounting : Acc) (state : TenantState) : Except Error Bool :=
  if state.auditRetention.hotBytes ≤ state.limits.auditRetention.hotBytes then
    budgetFits X accounting state
  else .ok false

/-- The record of an ended transaction is shown to the command that names it. -/
def reinsertTerminal (terminals : TerminalView) (previous next : TenantState)
    (command : Command) : Except Failure TenantState :=
  match stagedTransactionId command.operation with
  | none => .ok next
  | some id => do
    let key ← lift (identity X command.context.principal id)
    if next.stagedTransactions.contains key then pure next
    else
      match ← TerminalView.get X terminals key with
      | none => pure next
      | some row => do
        TerminalRow.validate X row previous
        pure { next with stagedTransactions := next.stagedTransactions.insert key row.stage }

def checkCaller (state : TenantState) (command : Command) : Except Error Unit := do
  require (command.context.tenant = state.tenant) .forbidden "tenant access denied"
  checkAdmittedAt command.context.authorization command.timestampMs
  authorizeResource X state command.context

def runOperation (site : Site) (previous : Generation Idx Acc) (command : Command) :
    Except Failure (Except ReadFailure Applied × TenantState) :=
  let next := atRevision previous.state site.applied.revision
  match checkCaller X next command with
  | .error e => .ok (.error (.query e), next)
  | .ok _ => do
    let next ← reinsertTerminal X previous.terminals previous.state next command
    pure (((applyOperation X command site.applied.revision previous.state.revision previous.indexes
      site.resolver).run).run next)

/-- Invariant failures and failures of the local source leave the publication private. -/
def settleOperation : Except ReadFailure Applied → Except Failure Applied
  | .ok (.ok receipt, changed) => .ok (.ok receipt, changed)
  | .ok (.error e, changed) =>
    if e.code = .corruption then .error (.error e) else .ok (.error e, changed)
  | .error (.query e) => if e.code = .corruption then .error (.error e) else .ok (.error e, false)
  | .error .source => .error .source

def auditCommand (state : TenantState) (command : Command) (outcome : Outcome) :
    Except Error TenantState :=
  if isAudit command.operation then .ok state
  else appendAudit X state (commandEvent command state (auditOutcome outcome.isOk))

def snapshotExhausted : Error :=
  ⟨.quotaExceeded, "serialized tenant snapshot byte budget exhausted"⟩

def rejectFinalize (previous : Generation Idx Acc) (rejected : TenantState) (command : Command)
    (pending : TerminalPending) (error : Error) : Except Failure TenantState :=
  match command.operation with
  | .finalizeStaged reference =>
    let key := X.sha (.identity command.context.principal reference.transactionId)
    if (previous.state.stagedTransactions.get key).any StagedTransaction.isActive then do
      match ← TerminalPending.get X pending previous.terminals key with
      | some completed =>
        if completed.isActive then pure rejected
        else lift (replaceRecord X rejected key
          { completed with outcome := .finished (.error error) })
      | none => pure rejected
    else .ok rejected
  | _ => .ok rejected

def rejectedState (site : Site) (previous : Generation Idx Acc) (next : TenantState)
    (command : Command) (error : Error) (pending : TerminalPending) :
    Except Failure (TenantState × TerminalPending) := do
  let rejected := atRevision previous.state next.revision
  let rejected ← lift (SchemaActivation.rejectBudget X previous.state next rejected command error)
  let rejected ← lift (Retirement.rejectBudget X previous.state next rejected command error)
  let rejected ← rejectFinalize X previous rejected command pending error
  let event ← lift (orError .corruption "required audit missing" next.audits.getLast?)
  let rejected ← lift (appendAudit X rejected { event with outcome := "rejected" })
  prepareTerminals X previous.terminals previous.state rejected site.applied

def prepareResourceRejection (site : Site) (previous : Generation Idx Acc) (next : TenantState)
    (command : Command) (failure : Option Error) (pending : TerminalPending) :
    Except Failure (Prepared Idx Acc) :=
  let error := failure.getD snapshotExhausted
  let unavailable := revisionOnly previous next.revision
    "required audit cannot fit serialized tenant budget"
  if isAudit command.operation then .ok unavailable
  else do
    let (rejected, rows) ← rejectedState X site previous next command error pending
    let accounting ← lift (X.updated previous.accounting previous.state rejected OrdMap.empty
      (stagedChanges X previous.state command))
    if ← lift (rejectedFits X accounting rejected) then do
      let terminals ← stageTerminals X previous.terminals rows
      pure
        { generation := some { previous with
            state := rejected
            terminals := terminals
            accounting := accounting }
          changed := OrdMap.empty
          outcome := .error error }
    else pure unavailable

def updatedIndexes (site : Site) (previous : Generation Idx Acc) (next : TenantState)
    (changed : ChangedIds) : Except Failure Idx :=
  match X.updateIndexes previous.indexes previous.state next changed site.resolver with
  | .ok indexes => .ok indexes
  | .error (.query e) => .error (.error e)
  | .error .source => .error .source

def candidateIndexes (site : Site) (previous : Generation Idx Acc) (next : TenantState)
    (changed : ChangedIds) (reindex : Bool) : Except Failure Idx :=
  if reindex then updatedIndexes X site previous next changed else .ok previous.indexes

def candidateChanges (state : TenantState) (command : Command) (changedDocuments : Bool) :
    Except Error ChangedIds :=
  if changedDocuments then operationChanges X state command else .ok OrdMap.empty

def candidateFeed (previous next : TenantState) (changed : ChangedIds) (feeds : Bool) :
    Except Error TenantState :=
  if feeds then ChangeFeed.append X previous next changed else .ok next

def publishCandidate (site : Site) (previous : Generation Idx Acc) (next : TenantState)
    (command : Command) (outcome : Outcome) (changed : ChangedIds) (reindex : Bool)
    (pending : TerminalPending) : Except Failure (Prepared Idx Acc) := do
  let accounting ← lift (X.updated previous.accounting previous.state next changed
    (stagedChanges X previous.state command))
  if ← lift (budgetFits X accounting next) then do
    let indexes ← candidateIndexes X site previous next changed reindex
    let terminals ← stageTerminals X previous.terminals pending
    pure
      { generation := some { previous with
          state := next
          terminals := terminals
          indexes := indexes
          accounting := accounting }
        changed := changed
        outcome := outcome }
  else prepareResourceRejection X site previous next command none pending

def publishOperation (site : Site) (previous : Generation Idx Acc) (next : TenantState)
    (command : Command) (outcome : Outcome) (changedDocuments : Bool) :
    Except Failure (Prepared Idx Acc) := do
  let (next, pending) ← prepareTerminals X previous.terminals previous.state next site.applied
  match validateBudget next next.limits with
  | .error e => prepareResourceRejection X site previous next command (some e) pending
  | .ok _ => do
    let changed ← lift (candidateChanges X previous.state command changedDocuments)
    let feeds := changedDocuments && !isArchive command.operation
    match candidateFeed X previous.state next changed feeds with
    | .error e => prepareResourceRejection X site previous next command (some e) pending
    | .ok next => publishCandidate X site previous next command outcome changed feeds pending

def prepareOperation (site : Site) (previous : Generation Idx Acc) (command : Command) :
    Except Failure (Prepared Idx Acc) := do
  let (result, next) ← runOperation X site previous command
  let (outcome, changedDocuments) ← settleOperation result
  let next ← lift (auditCommand X next command outcome)
  if auditFits next then publishOperation X site previous next command outcome changedDocuments
  else pure (revisionOnly previous site.applied.revision "hot audit byte budget exhausted")

def authorizeReads (state : TenantState) (context : RequestContext)
    (assertions : List ReadAssertion) : Except Error Unit :=
  authorizeEach X state context .read (assertions.filterMap ReadAssertion.reads)

def validateTargets : List Mutation → Except Error Unit
  | [] => .ok ()
  | mutation :: rest => do
    validateName mutation.target.1
    validateName mutation.target.2
    validateTargets rest

/-- Authorization, lifecycle and shape of a batch, before its identity is looked up. -/
def authorizeMutation (state : TenantState) (command : Command) (batch : MutationBatch) :
    Except Error Unit := do
  checkCaller X state command
  LifecycleControl.guard state command.operation
  authorizeEach X state command.context .write (batch.operations.map fun m => m.target.1)
  authorizeReads X state command.context batch.readSet
  validateName command.context.principal
  validateName batch.idempotencyKey
  require (!(batch.operations.isEmpty || batch.operations.length > 256)) .invalidArgument
    "invalid mutation operation count"
  validateTargets batch.operations

def observed (previous : Generation Idx Acc) (command : Command) (revision : ℕ)
    (committed : Bool) : Except Error (Option (Generation Idx Acc)) := do
  let next := atRevision previous.state revision
  let next ← appendAudit X next (commandEvent command next (auditOutcome committed))
  let accounting ← X.updated previous.accounting previous.state next OrdMap.empty OrdMap.empty
  let fits ← auditedFits X accounting next
  pure (if fits then some { previous with
      state := next
      accounting := accounting } else none)

def unobserved : Error :=
  ⟨.auditUnavailable, "required mutation observation audit capacity unavailable"⟩

/-- No new identity was admitted: a refusal, an exact replay or a conflict. -/
def prepareMutationObservation (previous : Generation Idx Acc) (command : Command)
    (revision : ℕ) (outcome : Outcome) : Except Failure (Prepared Idx Acc) := do
  match ← lift (observed X previous command revision outcome.isOk) with
  | some generation => pure ⟨some generation, OrdMap.empty, outcome⟩
  | none => do
    let rejected ← lift (observed X previous command revision false)
    pure ⟨some (rejected.getD { previous with state := atRevision previous.state revision }),
      OrdMap.empty, .error unobserved⟩

/-- The largest outcome a receipt can hold: every byte of the message escaped. -/
def maximumError : Error :=
  ⟨.resourceExhausted, String.ofList (List.replicate SchemaActivation.maxMessageBytes
    (Char.ofNat 1))⟩

structure Permit where
  template : StoredReceipt
  maximumRowBytes : ℕ
  maximumHead : MutationReceiptHead

def receiptTemplate (state : TenantState) (command : Command) (batch : MutationBatch) :
    StoredReceipt :=
  { scope := ⟨state.tenant, state.incarnation, command.context.principal⟩
    idempotencyKey := batch.idempotencyKey
    recordedRevision := state.revision
    requestDigest := X.sha (.batch batch)
    collections := (OrdSet.ofList (batch.operations.map fun m => m.target.1)).keys
    outcome := .error maximumError }

def terminal {α : Type} : Except Failure α → Except Error α
  | .ok a => .ok a
  | .error failure => .error (terminalError failure)

/-- Reserve the larger of the rejected and the committed row of an identity. -/
def permit (state : TenantState) (command : Command) (batch : MutationBatch)
    (applied : AppliedIdentity) : Except Error Permit := do
  let template := receiptTemplate X state command batch
  let head := state.mutationReceiptHead
  let ordinal ← orError .quotaExceeded "receipt ordinal exhausted" (checkedAdd head.count 1)
  let key := X.sha (.identity template.scope.principal template.idempotencyKey)
  let row (outcome : Outcome) : ReceiptRow :=
    ⟨ordinal, key, head.sha256, applied, { template with outcome := outcome }⟩
  let rejectedBytes ← terminal (ReceiptRow.validate X (row template.outcome) state)
  let committedBytes ← terminal (ReceiptRow.validate X
    (row (.ok ⟨state.revision, writtenVersions batch.operations state.revision⟩)) state)
  let maximumRowBytes := max rejectedBytes committedBytes
  let encoded ← orError .quotaExceeded "receipt byte counter exhausted"
    (checkedAdd head.encodedBytes maximumRowBytes)
  require (!(encoded > state.limits.maxMutationReceiptBytes)) .quotaExceeded
    "permanent mutation receipt byte budget exhausted"
  pure
    { template := template
      maximumRowBytes := maximumRowBytes
      maximumHead :=
        { head with
          count := ordinal
          lastAppliedRevision := state.revision
          encodedBytes := encoded
          sha256 := String.ofList (List.replicate 64 'f') } }

def Permit.finalize (p : Permit) (view : ReceiptView) (absent : String) (state : TenantState)
    (outcome : Outcome) (applied : AppliedIdentity) :
    Except Failure (TenantState × ReceiptPending) := do
  let pending ← prepareReceipt X view state { p.template with outcome := outcome } absent applied
  let bytes ← lift (orError .corruption "receipt reserved bytes decreased"
    (checkedSub pending.head.encodedBytes view.head.encodedBytes))
  lift (require (!(bytes > p.maximumRowBytes || pending.head.count ≠ p.maximumHead.count ||
    pending.head.encodedBytes > p.maximumHead.encodedBytes)) .corruption
    "admitted receipt exceeded its terminal reservation")
  pure ({ state with mutationReceiptHead := pending.head }, pending)

def rejectionFits (previous : Generation Idx Acc) (command : Command) (revision : ℕ)
    (p : Permit) : Except Error Bool := do
  let reserved := { atRevision previous.state revision with mutationReceiptHead := p.maximumHead }
  let reserved ← appendAudit X reserved (commandEvent command reserved "committed")
  let accounting ← X.updated previous.accounting previous.state reserved OrdMap.empty OrdMap.empty
  auditedFits X accounting reserved

def attemptBatch (site : Site) (previous : Generation Idx Acc) (command : Command)
    (batch : MutationBatch) : Except ReadFailure (TenantState × WriteReceipt) := do
  let start := atRevision previous.state site.applied.revision
  let (next, receipt) ← applyBatch X start batch site.applied.revision command.timestampMs
    previous.indexes site.resolver
  X.validateChanges previous.indexes previous.state next (batchChanges batch) site.resolver
  let next ← query (ChangeFeed.append X previous.state next (batchChanges batch))
  pure (next, receipt)

def recordOutcome (site : Site) (previous : Generation Idx Acc) (command : Command)
    (changed : ChangedIds) (p : Permit) (absent : String) (next : TenantState)
    (outcome : Outcome) : Except Failure (TenantState × ReceiptPending × Acc × Bool) := do
  let (next, pending) ← Permit.finalize X p previous.receipts absent next outcome site.applied
  let next ← lift (appendAudit X next (commandEvent command next (auditOutcome outcome.isOk)))
  let accounting ← lift (X.updated previous.accounting previous.state next changed OrdMap.empty)
  let fits ← lift (auditedFits X accounting next)
  pure (next, pending, accounting, fits)

def rejectMutation (site : Site) (previous : Generation Idx Acc) (command : Command)
    (p : Permit) (absent : String) (error : Error) : Except Failure (Prepared Idx Acc) := do
  let (rejected, pending, accounting, fits) ← recordOutcome X site previous command OrdMap.empty p
    absent (atRevision previous.state site.applied.revision) (.error error)
  lift (require fits .corruption "reserved mutation terminal cannot publish")
  let receipts ← stageReceipt X previous.receipts pending
  pure
    { generation := some { previous with
        state := rejected
        receipts := receipts
        accounting := accounting }
      changed := OrdMap.empty
      outcome := .error error }

def commitMutation (site : Site) (previous : Generation Idx Acc) (command : Command)
    (batch : MutationBatch) (p : Permit) (absent : String) (next : TenantState)
    (receipt : WriteReceipt) : Except Failure (Prepared Idx Acc) := do
  let (next, pending, accounting, fits) ← recordOutcome X site previous command
    (batchChanges batch) p absent next (.ok receipt)
  if fits then do
    let indexes ← updatedIndexes X site previous next (batchChanges batch)
    let receipts ← stageReceipt X previous.receipts pending
    pure
      { generation := some { previous with
          state := next
          receipts := receipts
          indexes := indexes
          accounting := accounting }
        changed := batchChanges batch
        outcome := .ok receipt }
  else rejectMutation X site previous command p absent snapshotExhausted

/-- From admission on, every deterministic outcome selects exactly one row. -/
def applyAdmitted (site : Site) (previous : Generation Idx Acc) (command : Command)
    (batch : MutationBatch) (p : Permit) (absent : String) : Except Failure (Prepared Idx Acc) :=
  match attemptBatch X site previous command batch with
  | .error .source => .error .source
  | .error (.query e) =>
    if e.code = .corruption then .error (.error e)
    else rejectMutation X site previous command p absent e
  | .ok (next, receipt) => commitMutation X site previous command batch p absent next receipt

def terminalUnavailable : Error :=
  ⟨.auditUnavailable, "required mutation terminal and audit capacity unavailable"⟩

def admitMutation (site : Site) (previous : Generation Idx Acc) (command : Command)
    (batch : MutationBatch) (absent : String) : Except Failure (Prepared Idx Acc) :=
  let revision := site.applied.revision
  match permit X (atRevision previous.state revision) command batch site.applied with
  | .error e =>
    if e.code = .quotaExceeded then
      prepareMutationObservation X previous command revision (.error e)
    else .error (.error e)
  | .ok p => do
    if ← lift (rejectionFits X previous command revision p) then
      applyAdmitted X site previous command batch p absent
    else prepareMutationObservation X previous command revision (.error terminalUnavailable)

def reusedKey : Error := ⟨.conflict, "idempotency key reused for different input"⟩

def replayOutcome (row : ReceiptRow) (digest : String) : Outcome :=
  if row.receipt.requestDigest = digest then row.receipt.outcome else .error reusedKey

def prepareMutationOrdered (site : Site) (previous : Generation Idx Acc) (command : Command)
    (batch : MutationBatch) : Except Failure (Prepared Idx Acc) :=
  let revision := site.applied.revision
  match authorizeMutation X previous.state command batch with
  | .error e => prepareMutationObservation X previous command revision (.error e)
  | .ok _ => do
    let key := X.sha (.identity command.context.principal batch.idempotencyKey)
    match ← ReceiptView.get X previous.receipts key with
    | some row => do
      let _ ← ReceiptRow.validate X row previous.state
      prepareMutationObservation X previous command revision
        (replayOutcome row (X.sha (.batch batch)))
    | none => admitMutation X site previous command batch key

def frozen : Error :=
  ⟨.sealed, "application state is permanently frozen after retirement"⟩

def prepareCommandOrdered (site : Site) (previous : Generation Idx Acc) (command : Command) :
    Except Failure (Prepared Idx Acc) := do
  lift (checkOperationAccess site.access previous.state command.operation)
  lift (require (!(site.applied.revision ≤ previous.state.revision)) .corruption
    "applied revision must increase")
  if previous.state.retired then pure ⟨none, OrdMap.empty, .error frozen⟩
  else
    match command.operation with
    | .mutate batch => prepareMutationOrdered X site previous command batch
    | _ => prepareOperation X site previous command

end Engine
