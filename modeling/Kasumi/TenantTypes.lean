import Kasumi.OrdMap

/-! Data of one tenant: the documents and metadata a replica holds, the commands ordered by
consensus and the records that commands leave behind. Counters of the source's 64-bit types
are natural numbers; where the source checks for overflow the checked functions do too. -/
namespace TenantTypes

/-- Values of `u64` and `usize` lie below this bound. -/
def wordSize : ℕ := 2 ^ 64

inductive ErrorCode where
  | invalidArgument
  | unauthorized
  | forbidden
  | notFound
  | alreadyExists
  | conflict
  | schemaViolation
  | quotaExceeded
  | resourceExhausted
  | indexRequired
  | cursorExpired
  | unavailable
  | unknownOutcome
  | corruption
  | sealed
  | auditUnavailable
  deriving DecidableEq

structure Error where
  code : ErrorCode
  message : String
  deriving DecidableEq

/-- A deterministic refusal, which replicas agree on, or a failure of the local document
source, which no outcome may depend on. -/
inductive ReadFailure where
  | query (error : Error)
  | source

def fail {α : Type} (code : ErrorCode) (message : String) : Except Error α := .error ⟨code, message⟩

def require (condition : Bool) (code : ErrorCode) (message : String) : Except Error Unit :=
  if condition then .ok () else fail code message

/-- The source converts an ordinary error into a query failure with `?`. -/
def query {α : Type} : Except Error α → Except ReadFailure α
  | .ok a => .ok a
  | .error e => .error (.query e)

def checkedAdd (a b : ℕ) : Option ℕ := if a + b < wordSize then some (a + b) else none

def checkedSub (a b : ℕ) : Option ℕ := if b ≤ a then some (a - b) else none

def orError {α : Type} (code : ErrorCode) (message : String) : Option α → Except Error α
  | some a => .ok a
  | none => fail code message

/-- Universally unique identifiers, as 128-bit numbers; zero is the nil one. -/
abbrev Uuid := ℕ

inductive Action where
  | read
  | write
  | admin
  | audit
  deriving DecidableEq

structure Grant where
  principal : String
  collection : Option String
  actions : List Action

structure Policy where
  grants : List Grant
  strictReadAudit : Bool

inductive CredentialResource where
  | database (incarnation : Uuid)
  | control (incarnation : Uuid)
  | authority (authorityId : Uuid) (part : ℕ)
  | custody (incarnation : Uuid)

/-- The replicated metadata of an invocation; live credentials are never replicated. -/
inductive RequestAuthorization where
  | serviceIdentity
  | credential (expiresAtMs : ℕ) (resource : CredentialResource)

structure RequestContext where
  authorization : RequestAuthorization
  principal : String
  tenant : String
  scopes : List Action
  requestId : String

structure HistoryLimits where
  maxFeedEvents : ℕ
  maxFeedBytes : ℕ
  maxArchiveSegments : ℕ

structure AtomicLimits where
  maxOperations : ℕ
  maxReadAssertions : ℕ
  maxTransactionBytes : ℕ
  maxActiveTransactions : ℕ
  maxReservedStagingBytes : ℕ
  maxPermanentStagedBytes : ℕ
  maxSnapshotLeases : ℕ
  maxSnapshotLeaseBytes : ℕ

structure AuditRetentionBudget where
  hotBytes : ℕ
  archiveBytes : ℕ

structure Limits where
  history : HistoryLimits
  atomic : AtomicLimits
  maxDocumentBytes : ℕ
  maxBatchOperations : ℕ
  maxBatchBytes : ℕ
  maxDocuments : ℕ
  maxCollections : ℕ
  maxSchemaBytes : ℕ
  maxSchemaActivationBytes : ℕ
  maxRetirementBytes : ℕ
  maxTargetResolutionBytes : ℕ
  maxBackupBindingBytes : ℕ
  maxPolicyGrants : ℕ
  maxLogicalBytes : ℕ
  maxSnapshotBytes : ℕ
  maxMutationReceiptBytes : ℕ
  auditRetention : AuditRetentionBudget
  maxQueryCandidates : ℕ
  maxQueryGroups : ℕ
  maxResultBytes : ℕ
  maxPageSize : ℕ
  maxCursors : ℕ
  maxCursorBytes : ℕ
  cursorTtlMs : ℕ

/-- A JSON value. Objects list their members in key order and numbers keep their text. -/
inductive Value where
  | null
  | bool (b : Bool)
  | number (text : String)
  | string (text : String)
  | array (items : List Value)
  | object (members : List (String × Value))

namespace Value

mutual

/-- Equality of values is decided constructor by constructor; the type nests lists, for
which no instance is derived. -/
def decEq : (a b : Value) → Decidable (a = b)
  | null, null => isTrue rfl
  | bool a, bool b => decidable_of_iff (a = b) (by simp)
  | number a, number b => decidable_of_iff (a = b) (by simp)
  | string a, string b => decidable_of_iff (a = b) (by simp)
  | array a, array b =>
    match decEqItems a b with
    | isTrue h => isTrue (by rw [h])
    | isFalse h => isFalse (by simpa using h)
  | object a, object b =>
    match decEqMembers a b with
    | isTrue h => isTrue (by rw [h])
    | isFalse h => isFalse (by simpa using h)
  | null, bool _ | null, number _ | null, string _ | null, array _ | null, object _
  | bool _, null | bool _, number _ | bool _, string _ | bool _, array _ | bool _, object _
  | number _, null | number _, bool _ | number _, string _ | number _, array _
  | number _, object _
  | string _, null | string _, bool _ | string _, number _ | string _, array _
  | string _, object _
  | array _, null | array _, bool _ | array _, number _ | array _, string _ | array _, object _
  | object _, null | object _, bool _ | object _, number _ | object _, string _
  | object _, array _ => isFalse (by simp)

def decEqItems : (a b : List Value) → Decidable (a = b)
  | [], [] => isTrue rfl
  | [], _ :: _ => isFalse (by simp)
  | _ :: _, [] => isFalse (by simp)
  | a :: as, b :: bs =>
    match decEq a b, decEqItems as bs with
    | isTrue h, isTrue hs => isTrue (by rw [h, hs])
    | isFalse h, _ => isFalse (by simp [h])
    | _, isFalse h => isFalse (by simp [h])

def decEqMembers : (a b : List (String × Value)) → Decidable (a = b)
  | [], [] => isTrue rfl
  | [], _ :: _ => isFalse (by simp)
  | _ :: _, [] => isFalse (by simp)
  | (k, a) :: as, (l, b) :: bs =>
    if hk : k = l then
      match decEq a b, decEqMembers as bs with
      | isTrue h, isTrue hs => isTrue (by rw [hk, h, hs])
      | isFalse h, _ => isFalse (by simp [h])
      | _, isFalse h => isFalse (by simp [h])
    else isFalse (by simp [hk])

end

instance : DecidableEq Value := decEq

end Value

structure Document where
  id : String
  version : ℕ
  body : Value

/-- A stored document: its identity, its sizes and the content addresses of its body. -/
structure StoredDocument where
  id : String
  version : ℕ
  bodyBytes : ℕ
  documentBytes : ℕ
  bodySha256 : String
  bodyObject : String

inductive DocumentSlot where
  | pending (document : Document)
  | stored (descriptor : StoredDocument)

/-- The selected document store: loading a descriptor may fail locally. -/
abbrev Resolver := Option (StoredDocument → Option Document)

inductive CollectionWriteMode where
  | mutable
  | appendOnly
  deriving DecidableEq

inductive CollectionRetentionClass where
  | operational
  | archivableHistory
  deriving DecidableEq

structure IndexField where
  path : String
  kind : String

structure IndexDefinition where
  name : String
  fields : List IndexField
  unique : Bool
  text : Option String

structure CollectionDefinition where
  name : String
  writeMode : CollectionWriteMode
  retentionClass : CollectionRetentionClass
  schema : Value
  indexes : List IndexDefinition
  strictReadAudit : Bool

structure ArchivedDocument where
  version : ℕ
  archiveId : String
  chunkIndex : ℕ
  documentSha256 : String
  documentBytes : ℕ
  indexedFields : OrdMap String Value

structure CollectionState where
  definition : CollectionDefinition
  dataEpoch : ℕ
  documents : OrdMap String DocumentSlot
  archivedDocuments : OrdMap String ArchivedDocument
  archivedDocumentBytes : ℕ

inductive Precondition where
  | any
  | absent
  | version (v : ℕ)
  deriving DecidableEq

inductive Mutation where
  | put (collection id : String) (body : Value) (expected : Precondition)
  | patch (collection id : String) (patch : Value) (expected : Precondition)
  | delete (collection id : String) (expected : Precondition)
  deriving DecidableEq

namespace Mutation

def target : Mutation → String × String
  | put c i _ _ => (c, i)
  | patch c i _ _ => (c, i)
  | delete c i _ => (c, i)

def expected : Mutation → Precondition
  | put _ _ _ e => e
  | patch _ _ _ e => e
  | delete _ _ e => e

end Mutation

inductive ReadPrecondition where
  | absent
  | version (v : ℕ)
  deriving DecidableEq

inductive ReadAssertion where
  | before (notAfterMs : ℕ)
  | notBefore (notBeforeMs : ℕ)
  | snapshot (incarnation : String) (policyEpoch schemaEpoch : ℕ)
  | document (collection id : String) (expected : ReadPrecondition)
  | collection (collection : String) (dataEpoch : ℕ)
  deriving DecidableEq

def ReadAssertion.reads : ReadAssertion → Option String
  | document c _ _ => some c
  | collection c _ => some c
  | _ => none

structure MutationBatch where
  idempotencyKey : String
  readSet : List ReadAssertion
  operations : List Mutation

structure WriteReceipt where
  revision : ℕ
  versions : OrdMap String ℕ
  deriving DecidableEq

abbrev Outcome := Except Error WriteReceipt

structure StagedChunk where
  readSet : List ReadAssertion
  operations : List Mutation
  deriving DecidableEq

structure StagedManifest where
  chunkDigests : List String
  encodedChunkBytes : ℕ
  operationCount : ℕ
  readAssertionCount : ℕ
  readCollections : OrdSet String
  writeCollections : OrdSet String
  deriving DecidableEq

structure StagedTransactionScope where
  tenant : String
  incarnation : String
  principal : String
  deriving DecidableEq

structure BeginStagedTransaction where
  scope : StagedTransactionScope
  transactionId : String
  manifest : StagedManifest
  ttlMs : ℕ

structure StopStagedTransaction where
  original : BeginStagedTransaction
  admission : List ReadAssertion

structure StagedTransactionRef where
  scope : StagedTransactionScope
  transactionId : String
  manifestDigest : String

structure AppendStagedChunk where
  transaction : StagedTransactionRef
  index : ℕ
  chunk : StagedChunk

inductive StagedOutcome where
  | uploading
  | finished (outcome : Outcome)
  | aborted (receipt : WriteReceipt)
  | expired (receipt : WriteReceipt)
  deriving DecidableEq

def StagedOutcome.resolved : StagedOutcome → Option Outcome
  | uploading => none
  | finished outcome => some outcome
  | aborted _ => some (fail .conflict "staged transaction aborted")
  | expired _ => some (fail .conflict "staged upload expired")

structure StagedTransaction where
  scope : StagedTransactionScope
  transactionId : String
  manifestDigest : String
  manifest : StagedManifest
  chunks : OrdMap ℕ StagedChunk
  storedChunkBytes : ℕ
  uploadedPayloadBytes : ℕ
  uploadedOperations : ℕ
  uploadedReadAssertions : ℕ
  expiresAtMs : Option ℕ
  ttlMs : ℕ
  outcome : StagedOutcome
  deriving DecidableEq

def StagedTransaction.isActive (s : StagedTransaction) : Bool :=
  match s.outcome with
  | .uploading => true
  | _ => false

structure StagedTerminalHead where
  originIncarnation : String
  count : ℕ
  encodedBytes : ℕ
  sha256 : String
  deriving DecidableEq

structure MutationReceiptHead where
  originIncarnation : String
  count : ℕ
  encodedBytes : ℕ
  lastAppliedRevision : ℕ
  sha256 : String
  deriving DecidableEq

structure AppliedIdentity where
  incarnation : String
  revision : ℕ
  timestampMs : ℕ
  commandSha256 : String
  term : ℕ
  leader : ℕ
  index : ℕ
  contextSha256 : String
  deriving DecidableEq

structure TerminalRow where
  ordinal : ℕ
  key : String
  previousSha256 : String
  applied : AppliedIdentity
  stage : StagedTransaction
  deriving DecidableEq

structure MutationReceiptScope where
  tenant : String
  incarnation : String
  principal : String
  deriving DecidableEq

structure StoredReceipt where
  scope : MutationReceiptScope
  idempotencyKey : String
  recordedRevision : ℕ
  requestDigest : String
  collections : List String
  outcome : Outcome
  deriving DecidableEq

structure ReceiptRow where
  ordinal : ℕ
  key : String
  previousSha256 : String
  applied : AppliedIdentity
  receipt : StoredReceipt
  deriving DecidableEq

structure ChangeRecord where
  collection : String
  id : String
  document : Option DocumentSlot

structure ChangeCommit where
  revision : ℕ
  firstSequence : ℕ
  records : List ChangeRecord
  recordBytes : ℕ

structure ChangeFeedState where
  nextSequence : ℕ
  commits : OrdMap ℕ ChangeCommit
  eventCount : ℕ
  encodedCommitBytes : ℕ

structure ArchiveChunkDescriptor where
  objectId : String
  ciphertextSha256 : String
  plaintextSha256 : String
  plaintextBytes : ℕ
  documentCount : ℕ
  firstId : String
  lastId : String
  deriving DecidableEq

structure HistoryArchiveManifest where
  archiveId : String
  tenant : String
  sourceIncarnation : String
  collection : String
  cutoffRevision : ℕ
  sourceSchemaEpoch : ℕ
  destination : String
  documentCount : ℕ
  chunks : List ArchiveChunkDescriptor
  deriving DecidableEq

structure PublishHistoryArchive where
  manifest : HistoryArchiveManifest
  manifestObjectId : String
  manifestCiphertextSha256 : String
  expectedPolicyEpoch : ℕ

structure RetainedHistoryArchive where
  storageDestination : String
  storageBackupSession : Option Uuid
  manifest : HistoryArchiveManifest
  manifestObjectId : String
  manifestCiphertextSha256 : String
  publishedRevision : ℕ

inductive SchemaChange where
  | create (definition : CollectionDefinition)
  | replace (definition : CollectionDefinition) (expectedDataEpoch : ℕ)

def SchemaChange.definition : SchemaChange → CollectionDefinition
  | create d => d
  | replace d _ => d

structure SchemaChangeSet where
  activationId : String
  expectedIncarnation : String
  expectedSchemaEpoch : ℕ
  readSet : List ReadAssertion
  changes : List SchemaChange

structure StoredSchemaActivation where
  principal : String
  activationId : String
  requestDigest : String
  collections : OrdSet String
  readCollections : OrdSet String
  outcome : Outcome

structure FullBackupCheckpoint where
  tenant : String
  sourceIncarnation : String
  revision : ℕ
  residentSha256 : String
  backupId : Uuid
  manifestCiphertextSha256 : String
  keyLineageDigest : String
  deriving DecidableEq

structure RestoreLineageLink where
  checkpoint : FullBackupCheckpoint
  targetIncarnation : String

structure RetireSourceRequest where
  retirementId : String
  expectedSourceIncarnation : String
  targetIncarnation : String
  checkpoint : FullBackupCheckpoint
  destination : String
  notAfterMs : ℕ
  deriving DecidableEq

structure RetirementRef where
  sourceIncarnation : String
  retirementId : String
  requestDigest : String
  deriving DecidableEq

structure RetirementReceipt where
  tenant : String
  principal : String
  retirementId : String
  requestDigest : String
  sourceIncarnation : String
  targetIncarnation : String
  revision : ℕ
  policyEpoch : ℕ
  admittedAtMs : ℕ
  checkpoint : FullBackupCheckpoint
  closureDigest : String
  deriving DecidableEq

structure StoredRetirement where
  request : RetireSourceRequest
  principal : String
  requestDigest : String
  acceptedRevision : ℕ
  outcome : Except Error RetirementReceipt

structure RetirementObservation where
  revision : ℕ
  closureDigest : String

structure PreparedRetirement where
  request : RetireSourceRequest
  verifiedClosureDigest : String
  observation : Option RetirementObservation

structure AuditEvent where
  eventId : String
  principal : String
  action : String
  requestId : String
  timestampMs : ℕ
  dataRevision : Option ℕ
  outcome : String
  collection : Option String

structure AuditRetentionState where
  streamId : Uuid
  nextSequence : ℕ
  prunedBefore : ℕ
  hotBytes : ℕ
  archiveBytes : ℕ

structure ControlSigningRoot where
  controlIncarnation : Uuid
  publicKey : String
  deriving DecidableEq

structure ControlAuthorityPartition where
  authorityId : Uuid
  manifestSha256 : String
  part : ℕ
  signingPublicKey : String
  maximumLifetimeMs : ℕ
  drainMs : ℕ
  deriving DecidableEq

structure LifecycleInstallation where
  root : ControlSigningRoot
  generation : ℕ
  partitions : OrdMap String ControlAuthorityPartition
  maxIntents : ℕ
  maxChanges : ℕ
  maxStateBytes : ℕ
  deriving DecidableEq

/-- The request to commit one lifecycle intent. `subject` stands for the target it names
(tenant, incarnations, checkpoint, nodes, phase and phase input), which only its validator
and its digest read. `Origin` is what a resumption carries. -/
structure IntentRequest (Origin : Type) where
  commandId : Uuid
  expectedPolicyEpoch : ℕ
  installationSha256 : String
  authorityPartition : String
  subject : String
  resumeOrigin : Option Origin
  deriving DecidableEq

structure IntentRecord (Origin : Type) where
  request : IntentRequest Origin
  requestSha256 : String
  controlIncarnation : Uuid
  installationGeneration : ℕ
  originalPrincipal : String
  originalCredentialExpiresAtMs : ℕ
  acceptedAtMs : ℕ
  revision : ℕ
  deriving DecidableEq

/-- What a resumption resumes: an original admission, which itself resumes nothing (the
validator refuses a nested origin before anything else), its manifest and its input. -/
structure TargetOrigin where
  authorityManifestSha256 : String
  materialization : IntentRecord Empty
  input : String
  deriving DecidableEq

abbrev CommitLifecycleIntent := IntentRequest TargetOrigin

abbrev LifecycleIntent := IntentRecord TargetOrigin

def IntentRecord.asRetained (m : IntentRecord Empty) : LifecycleIntent :=
  { request :=
      { commandId := m.request.commandId
        expectedPolicyEpoch := m.request.expectedPolicyEpoch
        installationSha256 := m.request.installationSha256
        authorityPartition := m.request.authorityPartition
        subject := m.request.subject
        resumeOrigin := none }
    requestSha256 := m.requestSha256
    controlIncarnation := m.controlIncarnation
    installationGeneration := m.installationGeneration
    originalPrincipal := m.originalPrincipal
    originalCredentialExpiresAtMs := m.originalCredentialExpiresAtMs
    acceptedAtMs := m.acceptedAtMs
    revision := m.revision }

structure ControlPolicyCandidate where
  policy : Policy
  retireControl : Bool

structure BeginControlPolicyChange where
  commandId : Uuid
  expectedPolicyEpoch : ℕ
  installationSha256 : String
  candidate : ControlPolicyCandidate

/-- Signed stops of the authority partitions, by partition key, in their wire text. -/
abbrev ControlStops := OrdMap String String

structure ControlPolicyChange where
  request : BeginControlPolicyChange
  requestSha256 : String
  controlIncarnation : Uuid
  installation : LifecycleInstallation
  originalPrincipal : String
  acceptedAtMs : ℕ
  acceptedRevision : ℕ
  completedRevision : Option ℕ
  completionStops : Option ControlStops

structure CompleteControlPolicyChange where
  commandId : Uuid
  changeSha256 : String
  stops : ControlStops

inductive LifecycleControlCommand where
  | install (commandId : Uuid) (installation : LifecycleInstallation)
  | commitIntent (request : CommitLifecycleIntent)
  | beginPolicyChange (request : BeginControlPolicyChange)
  | completePolicyChange (request : CompleteControlPolicyChange)

structure LifecycleControlState where
  installation : LifecycleInstallation
  installationCommandId : Uuid
  installationRevision : ℕ
  installationPolicyEpoch : ℕ
  installationPolicy : Policy
  retired : Bool
  pendingChange : Option Uuid
  intents : OrdMap Uuid LifecycleIntent
  changes : OrdMap Uuid ControlPolicyChange

structure PendingRestore where
  backupId : String
  sourceRevision : ℕ

/-- A restored target's progress: whether its completion and activation are recorded. -/
structure TargetExecutionState where
  completed : Bool
  activated : Bool

/-- The audit bytes an active completion attempt has reserved, if one is active. -/
structure TargetCompletionHead where
  activeAuditBytes : Option ℕ

structure TenantState where
  tenant : String
  incarnation : String
  revision : ℕ
  revisionBase : ℕ
  policyEpoch : ℕ
  schemaEpoch : ℕ
  suspended : Bool
  retired : Bool
  pendingRestore : Option PendingRestore
  restoreLineage : List RestoreLineageLink
  lifecycleControl : Option LifecycleControlState
  targetLifecycle : OrdMap String TargetExecutionState
  documentCount : ℕ
  logicalBytes : ℕ
  policy : Policy
  limits : Limits
  collections : OrdMap String CollectionState
  mutationReceiptHead : MutationReceiptHead
  backupBindingBytes : ℕ
  stagedTransactions : OrdMap String StagedTransaction
  activeStagedTransactions : OrdSet String
  permanentStagedBytes : ℕ
  reservedStagedTerminalBytes : ℕ
  stagedTerminalHead : StagedTerminalHead
  targetCompletionHead : Option TargetCompletionHead
  changeFeed : ChangeFeedState
  historyArchives : OrdMap String RetainedHistoryArchive
  historyArchiveBytes : ℕ
  schemaActivations : OrdMap String StoredSchemaActivation
  schemaActivationBytes : ℕ
  retirements : OrdMap String StoredRetirement
  retirementBytes : ℕ
  auditRetention : AuditRetentionState
  audits : List AuditEvent

inductive Operation where
  | lifecycleControl (request : LifecycleControlCommand)
  | activateSchema (request : SchemaChangeSet)
  | publishHistoryArchive (request : PublishHistoryArchive)
  | mutate (batch : MutationBatch)
  | beginStaged (request : BeginStagedTransaction)
  | appendStaged (request : AppendStagedChunk)
  | finalizeStaged (reference : StagedTransactionRef)
  | stopStaged (request : StopStagedTransaction)
  | createCollection (definition : CollectionDefinition)
  | replaceCollection (definition : CollectionDefinition)
  | setPolicy (policy : Policy)
  | setLimits (limits : Limits)
  | suspend (suspended : Bool)
  | retireSource (request : PreparedRetirement)
  | abortRetirement (request : RetireSourceRequest)
  | audit (event : AuditEvent)
  | auditBatch (events : List AuditEvent)
  | maintenanceAudit (event : AuditEvent)

structure Command where
  context : RequestContext
  timestampMs : ℕ
  operation : Operation

/-- A typed value together with the encoding context it is written in. -/
inductive Encoded where
  | text (value : String)
  | body (value : Value)
  | document (document : Document)
  | batch (batch : MutationBatch)
  | chunk (chunk : StagedChunk)
  | manifest (manifest : StagedManifest)
  | identity (principal id : String)
  | definition (definition : CollectionDefinition)
  | auditEvent (event : AuditEvent)
  | stage (stage : StagedTransaction)
  | stageRecord (key : String) (stage : StagedTransaction)
  | terminalRow (row : TerminalRow)
  | terminalRoot (tenant incarnation : String)
  | receiptRow (row : ReceiptRow)
  | receiptRoot (tenant incarnation : String)
  | commitHeader (revision firstSequence recordBytes : ℕ)
  | changeHeader (collection id : String)
  | schemaRequest (request : SchemaChangeSet)
  | schemaRecord (record : StoredSchemaActivation)
  | retirementIdentity (incarnation id : String)
  | retirementRequest (request : RetireSourceRequest)
  | retirementRecord (record : StoredRetirement)
  | archiveManifest (manifest : HistoryArchiveManifest)
  | archiveChunk (archiveId incarnation collection : String) (index : ℕ)
      (documents : List Document)
  | archivedDocument (reference : ArchivedDocument)
  | retainedArchive (archive : RetainedHistoryArchive)
  | installation (installation : LifecycleInstallation)
  | intentRequest (request : CommitLifecycleIntent)
  | changeRequest (request : BeginControlPolicyChange)
  | policy (policy : Policy)
  | controlState (control : LifecycleControlState)

def isHexDigit (c : Char) : Bool := ('0' ≤ c && c ≤ '9') || ('a' ≤ c && c ≤ 'f')

def validDigest (value : String) : Bool := value.toList.length = 64 && value.toList.all isHexDigit

def hexDigits : ℕ → ℕ → List Char
  | 0, _ => []
  | k + 1, n => Nat.digitChar (n % 16) :: hexDigits k (n / 16)

/-- A number as the text of a digest. -/
def digestText (n : ℕ) : String := String.ofList (hexDigits 64 n)

theorem hexDigits_valid (k n : ℕ) :
    (hexDigits k n).length = k ∧ (hexDigits k n).all isHexDigit = true := by
  have hd : ∀ d < 16, isHexDigit (Nat.digitChar d) = true := by decide
  induction k generalizing n with
  | zero => exact ⟨rfl, rfl⟩
  | succ k ih =>
    obtain ⟨hl, ha⟩ := ih (n / 16)
    rw [hexDigits, List.length_cons, hl, List.all_cons, ha, hd _ (Nat.mod_lt n (by decide))]
    exact ⟨rfl, rfl⟩

theorem digestText_valid (n : ℕ) : validDigest (digestText n) = true := by
  obtain ⟨hl, ha⟩ := hexDigits_valid 64 n
  rw [validDigest, digestText, String.toList_ofList, hl, ha]
  rfl

/-- The wire encoding: lengths of encoded values and SHA-256 digests of their bytes. Digests
are 64 hexadecimal digits; that distinct inputs differ is assumed where a result needs it. -/
structure Encoding where
  len : Encoded → ℕ
  sha : Encoded → String
  sha_valid : ∀ e, validDigest (sha e) = true

abbrev ChangedIds := OrdMap String (OrdSet String)

/-- What ordered application takes from other components: the wire encoding, identifiers, the
query layer (schemas and indexes, with indexes of type `Idx`), the byte accounting of tenant
snapshots (of type `Acc`) and the validators of lifecycle requests and signed stops. -/
structure Externals (Idx Acc : Type) extends Encoding where
  uuidText : Uuid → String
  parseUuid : String → Option Uuid
  pointer : Value → String → Option Value
  documentCloneBytes : Document → Except Error ℕ
  validateDocument : Idx → CollectionDefinition → Value → Except Error Unit
  validateCollection : TenantState → String → CollectionState → Resolver → Except ReadFailure Unit
  validateChanges : Idx → TenantState → TenantState → ChangedIds → Resolver →
    Except ReadFailure Unit
  updateIndexes : Idx → TenantState → TenantState → ChangedIds → Resolver →
    Except ReadFailure Idx
  updated : Acc → TenantState → TenantState → ChangedIds → OrdSet String → Except Error Acc
  fits : Acc → TenantState → Except Error Bool
  fitsCompletion : Acc → TenantState → TenantState → Except Error Bool
  validateIntent : CommitLifecycleIntent → Except Error Unit
  verifyStops : ControlPolicyChange → ControlStops → Bool

end TenantTypes
