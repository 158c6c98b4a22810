import Kasumi.FallibleState
import Kasumi.Mutations

/-! Ordered large transactions. A transaction is begun with a manifest, uploaded chunk by
chunk and finalized as one atomic batch; expiry and stops end it without effect. A record
that is no longer active is permanent. -/
namespace Staging

open TenantTypes TenantAccess Mutations FallibleState

def maxStagedChunks : ℕ := 512

def stagedOutcomeHeadroom : ℕ := 8192

def dayMs : ℕ := 86400000

def frameHeaderBytes : ℕ := 9

def defaultHistoryLimits : HistoryLimits :=
  { maxFeedEvents := 100000
    maxFeedBytes := 128 * mib
    maxArchiveSegments := 4096 }

def defaultAtomicLimits : AtomicLimits :=
  { maxOperations := 100000
    maxReadAssertions := 100000
    maxTransactionBytes := 64 * mib
    maxActiveTransactions := 8
    maxReservedStagingBytes := 128 * mib
    maxPermanentStagedBytes := 128 * mib
    maxSnapshotLeases := 8
    maxSnapshotLeaseBytes := 256 * mib }

def defaultLimits : Limits :=
  { history := defaultHistoryLimits
    atomic := defaultAtomicLimits
    maxDocumentBytes := mib
    maxBatchOperations := 256
    maxBatchBytes := 8 * mib
    maxDocuments := 1000000
    maxCollections := 128
    maxSchemaBytes := 8 * mib
    maxSchemaActivationBytes := 64 * mib
    maxRetirementBytes := 64 * mib
    maxTargetResolutionBytes := 64 * mib
    maxBackupBindingBytes := 128 * mib
    maxPolicyGrants := 4096
    maxLogicalBytes := 1024 * mib
    maxSnapshotBytes := 1536 * mib
    maxMutationReceiptBytes := 128 * mib
    auditRetention := ⟨64 * mib, 65536 * mib⟩
    maxQueryCandidates := 100000
    maxQueryGroups := 10000
    maxResultBytes := 8 * mib
    maxPageSize := 1000
    maxCursors := 128
    maxCursorBytes := 256 * mib
    cursorTtlMs := 60000 }

/-- Permanent records describe historic requests, which lower limits cannot invalidate. -/
def historicalLimits : Limits := { defaultLimits with maxCollections := 1024 }

def validateNames : List String → Except Error Unit
  | [] => .ok ()
  | name :: names => do
    validateName name
    validateNames names

def validateManifest (manifest : StagedManifest) (limits : Limits) : Except Error Unit := do
  require (!(manifest.chunkDigests.isEmpty || manifest.chunkDigests.length > maxStagedChunks ||
    manifest.chunkDigests.any (fun digest => !validDigest digest) ||
    manifest.operationCount = 0 || manifest.operationCount > limits.atomic.maxOperations ||
    manifest.readAssertionCount > limits.atomic.maxReadAssertions ||
    manifest.encodedChunkBytes = 0 ||
    manifest.encodedChunkBytes > limits.atomic.maxTransactionBytes ||
    manifest.writeCollections.size = 0 || manifest.writeCollections.size > 1024 ||
    manifest.readCollections.size > 1024 ||
    manifest.writeCollections.size > limits.maxCollections ||
    manifest.readCollections.size > limits.maxCollections)) .resourceExhausted
    "staged manifest outside bounds"
  validateNames (manifest.readCollections.keys ++ manifest.writeCollections.keys)

def StagedTransactionScope.validate (scope : StagedTransactionScope) : Except Error Unit := do
  validateName scope.tenant
  validateName scope.incarnation
  validateName scope.principal

def validateScopeLineage (state : TenantState) (scope : StagedTransactionScope) :
    Except Error Unit := do
  StagedTransactionScope.validate scope
  require (!(scope.tenant ≠ state.tenant || (scope.incarnation ≠ state.incarnation &&
    !state.restoreLineage.any fun link =>
      link.checkpoint.sourceIncarnation == scope.incarnation))) .conflict
    "staged original incarnation is outside retained lineage"

def requireCurrentCreation (state : TenantState) (scope : StagedTransactionScope) :
    Except Error Unit :=
  require (scope.incarnation = state.incarnation) .conflict
    "cannot create an absent historical staged identity"

def requireUploadIncarnation (state : TenantState) (stage : StagedTransaction) :
    Except Error Unit :=
  require (!(stage.isActive && stage.scope.incarnation ≠ state.incarnation)) .conflict
    "historical staged upload may only be observed, stopped or expired"

def clearPayload (stage : StagedTransaction) : StagedTransaction :=
  { stage with
    chunks := OrdMap.empty
    storedChunkBytes := 0
    uploadedPayloadBytes := 0
    uploadedOperations := 0
    uploadedReadAssertions := 0 }

def terminal (stage : StagedTransaction) (outcome : Outcome) : StagedTransaction :=
  { clearPayload stage with outcome := .finished outcome }

def emptyReceipt (revision : ℕ) : WriteReceipt := ⟨revision, OrdMap.empty⟩

variable {Idx Acc : Type} (X : Externals Idx Acc)

def identity (principal transactionId : String) : Except Error String := do
  validateName principal
  validateName transactionId
  pure (X.sha (.identity principal transactionId))

def authorizeEach (state : TenantState) (context : RequestContext) (action : Action) :
    List String → Except Error Unit
  | [] => .ok ()
  | collection :: rest => do
    authorizeState X state context (some collection) action
    authorizeEach state context action rest

def authorizeManifest (state : TenantState) (context : RequestContext)
    (manifest : StagedManifest) : Except Error Unit := do
  authorizeEach X state context .write manifest.writeCollections.keys
  authorizeEach X state context .read manifest.readCollections.keys

def authorizeScope (state : TenantState) (context : RequestContext)
    (scope : StagedTransactionScope) : Except Error Unit := do
  authorizeDiscoveryState X state context .write
  StagedTransactionScope.validate scope
  require (scope.tenant = state.tenant && scope.tenant = context.tenant &&
    scope.principal = context.principal) .forbidden
    "staged original scope differs from verified principal or tenant"
  validateScopeLineage state scope

def authorizeBegin (state : TenantState) (context : RequestContext)
    (request : BeginStagedTransaction) : Except Error Unit := do
  authorizeScope X state context request.scope
  authorizeManifest X state context request.manifest
  let key ← identity X context.principal request.transactionId
  match state.stagedTransactions.get key with
  | some stage => do
    require (stage.scope = request.scope) .conflict
      "staged permanent identity belongs to a different original scope"
    requireUploadIncarnation state stage
  | none => requireCurrentCreation state request.scope

def lookup (state : TenantState) (context : RequestContext) (reference : StagedTransactionRef) :
    Except Error StagedTransaction := do
  authorizeScope X state context reference.scope
  require (validDigest reference.manifestDigest) .invalidArgument
    "invalid staged manifest digest"
  let key ← identity X context.principal reference.transactionId
  let transaction ← orError .notFound "staged transaction not found"
    (state.stagedTransactions.get key)
  authorizeManifest X state context transaction.manifest
  require (transaction.scope = reference.scope &&
    transaction.manifestDigest = reference.manifestDigest) .conflict
    "staged manifest identity mismatch"
  pure transaction

def authorizeUpload (state : TenantState) (context : RequestContext)
    (reference : StagedTransactionRef) : Except Error Unit := do
  let stage ← lookup X state context reference
  requireUploadIncarnation state stage

def authorizeStopEnvelope (state : TenantState) (context : RequestContext)
    (request : StopStagedTransaction) : Except Error Unit := do
  authorizeScope X state context request.original.scope
  validateName request.original.transactionId
  require (!(request.original.ttlMs = 0 || request.original.ttlMs > dayMs)) .invalidArgument
    "staged upload TTL outside bounds"
  validateManifest request.original.manifest historicalLimits
  authorizeManifest X state context request.original.manifest

def authorizeStop (state : TenantState) (context : RequestContext)
    (request : StopStagedTransaction) : Except Error Unit := do
  authorizeScope X state context request.original.scope
  let key ← identity X context.principal request.original.transactionId
  match state.stagedTransactions.get key with
  | some stage =>
    require (stage.scope = request.original.scope) .conflict
      "staged permanent identity belongs to a different original scope"
  | none => requireCurrentCreation state request.original.scope
  authorizeStopEnvelope X state context request

def isSnapshotAssertion : ReadAssertion → Bool
  | .snapshot _ _ _ => true
  | _ => false

def isBeforeAssertion : ReadAssertion → Bool
  | .before _ => true
  | _ => false

def validateAdmission (state : TenantState) (context : RequestContext)
    (assertions : List ReadAssertion) (evaluatedAtMs : ℕ) : Except Error Unit := do
  require (!(assertions.length > state.limits.atomic.maxReadAssertions)) .resourceExhausted
    "staged stop admission exceeds assertion limit"
  require (assertions.any isSnapshotAssertion && assertions.any isBeforeAssertion)
    .invalidArgument "staged stop requires snapshot and deadline assertions"
  authorizeEach X state context .read (assertions.filterMap ReadAssertion.reads)
  validateReadAssertions state assertions evaluatedAtMs state.limits.atomic.maxReadAssertions

def framedRecordBytes (size : ℕ) : Except Error ℕ := do
  require (!(size > 32 * mib)) .quotaExceeded "snapshot record exceeds byte limit"
  orError .corruption "snapshot record overflow" (checkedAdd size frameHeaderBytes)

def stagedHeader (key : String) (stage : StagedTransaction) : Except Error ℕ :=
  framedRecordBytes (X.len (.stageRecord key { stage with chunks := OrdMap.empty }))

/-- The record with every growing counter at its maximum width. -/
def maximumHeader (stage : StagedTransaction) : StagedTransaction :=
  { stage with
    chunks := OrdMap.empty
    storedChunkBytes := wordSize - 1
    uploadedPayloadBytes := wordSize - 1
    uploadedOperations := wordSize - 1
    uploadedReadAssertions := wordSize - 1 }

/-- Permanent bytes of a record and the capacity an active one still owns. -/
def permanentCharge (key : String) (stage : StagedTransaction) : Except Error (ℕ × ℕ) := do
  let used ← stagedHeader X key stage
  if stage.isActive then do
    let maximum ← stagedHeader X key (maximumHeader stage)
    let capacity ← orError .corruption "staged terminal capacity overflow"
      (checkedAdd maximum stagedOutcomeHeadroom)
    let reserve ← orError .corruption "staged terminal capacity mismatch"
      (checkedSub capacity used)
    pure (used, reserve)
  else pure (used, 0)

def chargeOf (key : String) : Option StagedTransaction → Except Error (ℕ × ℕ)
  | none => .ok (0, 0)
  | some stage => permanentCharge X key stage

/-- Commit one permanent point record, both totals and its active mark together. -/
def replaceRecord (state : TenantState) (key : String) (stage : StagedTransaction) :
    Except Error TenantState := do
  let old := state.stagedTransactions.get key
  let oldCharge ← chargeOf X key old
  let newCharge ← permanentCharge X key stage
  require (!(old.any StagedTransaction.isActive && !stage.isActive &&
    !(checkedAdd oldCharge.1 oldCharge.2).any fun n => newCharge.1 ≤ n)) .corruption
    "staged outcome exceeded its original reservation"
  let used ← orError .corruption "permanent staged accounting mismatch"
    ((checkedSub state.permanentStagedBytes oldCharge.1).bind fun n => checkedAdd n newCharge.1)
  let reserved ← orError .corruption "staged terminal reservation mismatch"
    ((checkedSub state.reservedStagedTerminalBytes oldCharge.2).bind
      fun n => checkedAdd n newCharge.2)
  require ((checkedAdd used reserved).any fun n =>
    n ≤ state.limits.atomic.maxPermanentStagedBytes) .quotaExceeded
    "permanent staged byte quota exhausted"
  pure { state with
    activeStagedTransactions :=
      if stage.isActive then state.activeStagedTransactions.add key
      else state.activeStagedTransactions.remove key
    stagedTransactions := state.stagedTransactions.insert key stage
    permanentStagedBytes := used
    reservedStagedTerminalBytes := reserved }

def expiredKeys (state : TenantState) (now : ℕ) : List String :=
  state.activeStagedTransactions.keys.filter fun key =>
    (state.stagedTransactions.get key).any fun stage =>
      stage.expiresAtMs.any fun expires => expires ≤ now

def expired (stage : StagedTransaction) (revision : ℕ) : StagedTransaction :=
  { clearPayload stage with outcome := .expired (emptyReceipt revision) }

/-- An ordinary check inside a program that keeps its state on failure. -/
def checked {α : Type} (x : Except Error α) : Prog TenantState ReadFailure α := check (query x)

/-- Install the state a computation returns; a failed one leaves the state alone. -/
def install {α : Type} (x : TenantState → Except ReadFailure (TenantState × α)) :
    Prog TenantState ReadFailure α := do
  let result ← check (x (← get))
  set result.1
  pure result.2

def expireEach (revision : ℕ) : List String → Prog TenantState ReadFailure Unit
  | [] => pure ()
  | key :: keys => do
    match (← get).stagedTransactions.get key with
    | none => pure ()
    | some stage => do
      install fun state => do
        let state ← query (replaceRecord X state key (expired stage revision))
        pure (state, ())
    expireEach revision keys

def expireActive (now revision : ℕ) : Prog TenantState ReadFailure Unit := do
  expireEach X revision (expiredKeys (← get) now)

def reservedStagingBytes (state : TenantState) (limits : Limits) :
    List String → ℕ → Except Error ℕ
  | [], reserved => .ok reserved
  | key :: keys, reserved => do
    let stage ← orError .corruption "active staged identity missing"
      (state.stagedTransactions.get key)
    validateManifest stage.manifest limits
    let reserved ← orError .quotaExceeded "staging reservation overflow"
      (checkedAdd reserved stage.manifest.encodedChunkBytes)
    reservedStagingBytes state limits keys reserved

def validateBudget (state : TenantState) (limits : Limits) : Except Error Unit := do
  require ((checkedAdd state.permanentStagedBytes state.reservedStagedTerminalBytes).any
    (fun n => n ≤ limits.atomic.maxPermanentStagedBytes) &&
    state.activeStagedTransactions.size ≤ limits.atomic.maxActiveTransactions) .quotaExceeded
    "permanent staged bytes or active transaction quota exceeded"
  let reserved ← reservedStagingBytes state limits state.activeStagedTransactions.keys 0
  require (!(reserved > limits.atomic.maxReservedStagingBytes)) .quotaExceeded
    "reserved staging byte quota exceeded"

def validateStagedWrite (limits : Limits) (mutation : Mutation) : Except Error Unit := do
  validateName mutation.target.1
  validateName mutation.target.2
  let value := match mutation with
    | .put _ _ body _ => some body
    | .patch _ _ patch _ => some patch
    | .delete _ _ _ => none
  require (!value.any fun v => X.len (.body v) > limits.maxDocumentBytes) .resourceExhausted
    "staged document exceeds byte limit"

def validateStagedWrites (limits : Limits) : List Mutation → Except Error Unit
  | [] => .ok ()
  | mutation :: rest => do
    validateStagedWrite X limits mutation
    validateStagedWrites limits rest

def validateChunk (chunk : StagedChunk) (limits : Limits) : Except Error Unit := do
  require (!(chunk.operations.length > limits.maxBatchOperations || chunk.readSet.length > 512 ||
    (chunk.operations.isEmpty && chunk.readSet.isEmpty) ||
    X.len (.chunk chunk) > limits.maxBatchBytes)) .resourceExhausted
    "staged chunk exceeds request limits"
  validateStagedWrites X limits chunk.operations

def validateChunks (limits : Limits) : List StagedChunk → Except Error Unit
  | [] => .ok ()
  | chunk :: rest => do
    validateChunk X chunk limits
    validateChunks limits rest

def activeChunks (state : TenantState) : List StagedChunk :=
  state.activeStagedTransactions.keys.flatMap fun key =>
    ((state.stagedTransactions.get key).map fun stage => stage.chunks.values).getD []

def validateNewLimits (state : TenantState) (limits : Limits) : Except Error Unit := do
  validateBudget state limits
  validateChunks X limits (activeChunks state)

def stageOperations (stage : StagedTransaction) : List Mutation :=
  stage.chunks.values.flatMap StagedChunk.operations

def stageAssertions (stage : StagedTransaction) : List ReadAssertion :=
  stage.chunks.values.flatMap StagedChunk.readSet

def changes (stage : StagedTransaction) : ChangedIds := operationTargets (stageOperations stage)

def checkChunkDigests (stage : StagedTransaction) : List (ℕ × StagedChunk) → Except Error Unit
  | [] => .ok ()
  | (index, chunk) :: rest => do
    require (stage.manifest.chunkDigests[index]? = some (X.sha (.chunk chunk))) .corruption
      "stored staged chunk digest mismatch"
    checkChunkDigests stage rest

def validateComplete (stage : StagedTransaction) : Except Error Unit := do
  checkChunkDigests X stage stage.chunks.entries
  require ((stage.chunks.values.map fun chunk => X.len (.chunk chunk)).sum =
      stage.manifest.encodedChunkBytes &&
    (stageOperations stage).length = stage.manifest.operationCount &&
    (stageAssertions stage).length = stage.manifest.readAssertionCount &&
    OrdSet.ofList ((stageAssertions stage).filterMap ReadAssertion.reads) =
      stage.manifest.readCollections &&
    OrdSet.ofList ((stageOperations stage).map fun m => m.target.1) =
      stage.manifest.writeCollections) .conflict
    "complete staged payload does not match manifest"

def BeginStagedTransaction.reference (request : BeginStagedTransaction) :
    Except Error StagedTransactionRef := do
  StagedTransactionScope.validate request.scope
  validateName request.transactionId
  pure ⟨request.scope, request.transactionId, X.sha (.manifest request.manifest)⟩

/-- What an operation returns besides the state: its outcome and whether documents changed. -/
abbrev Applied := Outcome × Bool

def newRecord (request : BeginStagedTransaction) (manifestDigest : String)
    (expiresAtMs : Option ℕ) (outcome : StagedOutcome) : StagedTransaction :=
  { scope := request.scope
    transactionId := request.transactionId
    manifestDigest := manifestDigest
    manifest := request.manifest
    chunks := OrdMap.empty
    storedChunkBytes := 0
    uploadedPayloadBytes := 0
    uploadedOperations := 0
    uploadedReadAssertions := 0
    expiresAtMs := expiresAtMs
    ttlMs := request.ttlMs
    outcome := outcome }

def beginStaged (command : Command) (request : BeginStagedTransaction) (revision : ℕ)
    (state : TenantState) : Except ReadFailure (TenantState × Applied) := query do
  authorizeManifest X state command.context request.manifest
  require (!(request.ttlMs = 0 || request.ttlMs > dayMs)) .invalidArgument
    "staged upload TTL outside bounds"
  let key ← identity X command.context.principal request.transactionId
  let manifestDigest := X.sha (.manifest request.manifest)
  match state.stagedTransactions.get key with
  | some existing => do
    require (existing.manifestDigest = manifestDigest && existing.ttlMs = request.ttlMs)
      .conflict "staged transaction ID reused for different input"
    pure (state, existing.outcome.resolved.getD (.ok (emptyReceipt revision)), false)
  | none => do
    validateManifest request.manifest state.limits
    let expiresAtMs ← orError .invalidArgument "staged expiry overflow"
      (checkedAdd command.timestampMs request.ttlMs)
    let staged ← replaceRecord X state key
      (newRecord request manifestDigest (some expiresAtMs) .uploading)
    validateBudget staged staged.limits
    pure (staged, .ok (emptyReceipt revision), false)

def withChunk (stage : StagedTransaction) (index : ℕ) (chunk : StagedChunk)
    (stored uploaded : ℕ) : StagedTransaction :=
  { stage with
    storedChunkBytes := stored
    uploadedPayloadBytes := uploaded
    uploadedOperations := stage.uploadedOperations + chunk.operations.length
    uploadedReadAssertions := stage.uploadedReadAssertions + chunk.readSet.length
    chunks := stage.chunks.insert index chunk }

/-- A chunk fits its manifest: its index, digest and collections are the declared ones. -/
def matchChunk (stage : StagedTransaction) (index : ℕ) (chunk : StagedChunk) (limits : Limits) :
    Except Error Unit := do
  require (index < stage.manifest.chunkDigests.length) .invalidArgument
    "staged chunk index outside manifest"
  validateChunk X chunk limits
  require (stage.manifest.chunkDigests[index]? = some (X.sha (.chunk chunk))) .conflict
    "staged chunk digest mismatch"
  require (chunk.operations.all fun m => stage.manifest.writeCollections.contains m.target.1)
    .conflict "staged write collection outside manifest"
  require ((chunk.readSet.filterMap ReadAssertion.reads).all fun c =>
    stage.manifest.readCollections.contains c) .conflict
    "staged read collection outside manifest"

def appendStaged (command : Command) (request : AppendStagedChunk) (revision : ℕ)
    (state : TenantState) : Except ReadFailure (TenantState × Applied) := query do
  let stage ← lookup X state command.context request.transaction
  matchChunk X stage request.index request.chunk state.limits
  match stage.outcome.resolved with
  | some outcome => pure (state, outcome, false)
  | none =>
    if stage.chunks.contains request.index then
      pure (state, .ok (emptyReceipt revision), false)
    else do
      let bytes := X.len (.chunk request.chunk)
      let uploaded ← orError .quotaExceeded "staging byte overflow"
        (checkedAdd stage.uploadedPayloadBytes bytes)
      require (!(uploaded > stage.manifest.encodedChunkBytes ||
        stage.uploadedOperations + request.chunk.operations.length >
          stage.manifest.operationCount ||
        stage.uploadedReadAssertions + request.chunk.readSet.length >
          stage.manifest.readAssertionCount)) .conflict
        "staged payload exceeds manifest declaration"
      let key ← identity X command.context.principal request.transaction.transactionId
      let stored ← orError .quotaExceeded "staging byte overflow"
        (checkedAdd stage.storedChunkBytes (X.len (.text (toString request.index)) + 1 + bytes))
      let state ← replaceRecord X state key
        (withChunk stage request.index request.chunk stored uploaded)
      pure (state, .ok (emptyReceipt revision), false)

/-- The atomic effect of a complete upload on the state it was finalized in. -/
def attempt (stage : StagedTransaction) (timestampMs revision : ℕ) (indexes : Idx)
    (resolver : Resolver) (state : TenantState) :
    Except ReadFailure (TenantState × WriteReceipt) := do
  query (validateComplete X stage)
  query (validateReadAssertions state (stageAssertions stage) timestampMs
    state.limits.atomic.maxReadAssertions)
  let (staged, receipt) ← applyMutations X state (stageOperations stage) revision false indexes
    state.limits.atomic.maxTransactionBytes resolver
  X.validateChanges indexes state staged (changes stage) resolver
  pure (staged, receipt)

/-- A refused attempt leaves the state it started from; an inconsistent source is no outcome. -/
def settle (state : TenantState) :
    Except ReadFailure (TenantState × WriteReceipt) → Except ReadFailure (TenantState × Outcome)
  | .ok (staged, receipt) => .ok (staged, .ok receipt)
  | .error .source => .error .source
  | .error (.query e) =>
    if e.code = .corruption then .error (.query e) else .ok (state, .error e)

def finalizeStaged (command : Command) (reference : StagedTransactionRef) (revision : ℕ)
    (indexes : Idx) (resolver : Resolver) (state : TenantState) :
    Except ReadFailure (TenantState × Applied) := do
  let stage ← query (lookup X state command.context reference)
  match stage.outcome.resolved with
  | some outcome => pure (state, outcome, false)
  | none => do
    query (require (stage.chunks.size = stage.manifest.chunkDigests.length) .conflict
      "staged transaction is incomplete")
    let key ← query (identity X command.context.principal reference.transactionId)
    let (staged, outcome) ← settle state
      (attempt X stage command.timestampMs revision indexes resolver state)
    let staged ← query (replaceRecord X staged key (terminal stage outcome))
    pure (staged, outcome, outcome.isOk)

def stopStaged (command : Command) (request : StopStagedTransaction) (revision : ℕ)
    (state : TenantState) : Except ReadFailure (TenantState × Applied) := query do
  let original := request.original
  let reference ← BeginStagedTransaction.reference X original
  let key ← identity X command.context.principal reference.transactionId
  match state.stagedTransactions.get key with
  | some stage => do
    authorizeManifest X state command.context stage.manifest
    require (stage.manifestDigest = reference.manifestDigest && stage.ttlMs = original.ttlMs)
      .conflict "staged transaction ID reused for different input"
    if stage.isActive then do
      let state ← replaceRecord X state key
        { clearPayload stage with outcome := .aborted (emptyReceipt revision) }
      pure (state, .ok (emptyReceipt revision), false)
    else pure (state, .ok (emptyReceipt revision), false)
  | none => do
    let state ← replaceRecord X state key
      (newRecord original reference.manifestDigest none (.aborted (emptyReceipt revision)))
    pure (state, .ok (emptyReceipt revision), false)

def authorize (command : Command) (state : TenantState) : Except Error Unit := do
  authorizeDiscoveryState X state command.context .write
  match command.operation with
  | .beginStaged request => authorizeBegin X state command.context request
  | .appendStaged request => authorizeUpload X state command.context request.transaction
  | .finalizeStaged reference => authorizeUpload X state command.context reference
  | .stopStaged request => do
    authorizeStop X state command.context request
    validateAdmission X state command.context request.admission command.timestampMs
  | _ => pure ()

def apply (command : Command) (revision : ℕ) (indexes : Idx) (resolver : Resolver) :
    Prog TenantState ReadFailure Applied := do
  checked (authorize X command (← get))
  -- Expiry affects only invisible payloads and preserves their permanent identity.
  expireActive X command.timestampMs revision
  match command.operation with
  | .beginStaged request => install (beginStaged X command request revision)
  | .appendStaged request => install (appendStaged X command request revision)
  | .finalizeStaged reference =>
    install (finalizeStaged X command reference revision indexes resolver)
  | .stopStaged request => install (stopStaged X command request revision)
  | _ => checked (fail .invalidArgument "operation is not staged")

/-- Counters of independently bounded chunks. -/
structure SnapshotChunks where
  stored : ℕ
  payload : ℕ
  operations : ℕ
  assertions : ℕ
  chunks : ℕ

def noChunks : SnapshotChunks := ⟨0, 0, 0, 0, 0⟩

/-- Whether a record may be restored; returns whether it is an active upload. -/
def validateSnapshotRecord (key : String) (stage : StagedTransaction) (state : TenantState)
    (chunks : SnapshotChunks) : Except Error Bool := do
  validateManifest stage.manifest historicalLimits
  validateScopeLineage state stage.scope
  let actual ← identity X stage.scope.principal stage.transactionId
  let isAborted := match stage.outcome with
    | .aborted _ => true
    | _ => false
  require (actual = key && X.sha (.manifest stage.manifest) = stage.manifestDigest &&
    stage.ttlMs ≠ 0 && stage.ttlMs ≤ dayMs &&
    !stage.expiresAtMs.any (fun expires => expires < stage.ttlMs) &&
    !(stage.expiresAtMs.isNone && !isAborted)) .corruption "invalid staged identity or expiry"
  require (chunks.stored = stage.storedChunkBytes && chunks.payload = stage.uploadedPayloadBytes &&
    chunks.operations = stage.uploadedOperations &&
    chunks.assertions = stage.uploadedReadAssertions &&
    chunks.payload ≤ stage.manifest.encodedChunkBytes &&
    chunks.operations ≤ stage.manifest.operationCount &&
    chunks.assertions ≤ stage.manifest.readAssertionCount) .corruption
    "staged chunk accounting mismatch"
  let canceled (receipt : WriteReceipt) : Bool :=
    chunks.chunks = 0 && receipt.revision ≤ state.revision && receipt.versions.size = 0
  match stage.outcome with
  | .uploading => pure true
  | .aborted receipt => do
    require (canceled receipt) .corruption "invalid canceled staged outcome"
    pure false
  | .expired receipt => do
    require (canceled receipt) .corruption "invalid canceled staged outcome"
    pure false
  | .finished outcome => do
    require (match outcome with
      | .ok receipt => canceled receipt
      | .error _ => chunks.chunks = 0) .corruption "invalid terminal staged outcome"
    pure false

end Staging
