import Kasumi.Staging

/-! Ordered activation of a bounded set of schema and index definitions. The retained
identity is permanent: both success and deterministic rejection are recorded, and a rejected
activation leaves the definitions alone. -/
namespace SchemaActivation

open TenantTypes TenantAccess Mutations Staging

def maxSchemaChangesetBytes : ℕ := 8 * mib

def maxSchemaReadAssertions : ℕ := 512

def maxMessageBytes : ℕ := 512

/-- Room for replacing a permanent outcome by any bounded error. -/
def permanentOutcomeHeadroom : ℕ := maxMessageBytes * 6 + 256

variable {Idx Acc : Type} (X : Externals Idx Acc)

def authorizeDependencies (state : TenantState) (context : RequestContext)
    (assertions : List ReadAssertion) : Except Error Unit := do
  require (!(assertions.length > maxSchemaReadAssertions)) .resourceExhausted
    "schema read assertion limit exceeded"
  authorizeEach X state context .read (assertions.filterMap ReadAssertion.reads)

def authorize (state : TenantState) (context : RequestContext) (request : SchemaChangeSet) :
    Except Error Unit := do
  authorizeDiscoveryState X state context .admin
  authorizeDependencies X state context request.readSet
  authorizeEach X state context .admin (request.changes.map fun c => c.definition.name)

def validateAdmission (state : TenantState) (context : RequestContext)
    (assertions : List ReadAssertion) (evaluatedAtMs : ℕ) : Except Error Unit := do
  authorizeDependencies X state context assertions
  validateReadAssertions state assertions evaluatedAtMs maxSchemaReadAssertions

/-- An activation observed again: the caller must still be authorized for what it touched. -/
def lookup (state : TenantState) (context : RequestContext) (requestDigest : String)
    (record : StoredSchemaActivation) : Except Error Outcome := do
  authorizeDiscoveryState X state context .admin
  authorizeEach X state context .admin record.collections.keys
  authorizeEach X state context .read record.readCollections.keys
  require (record.requestDigest = requestDigest) .conflict "schema activation identity mismatch"
  pure record.outcome

def prepareCollection (state : TenantState) (current : Option CollectionState)
    (definition : CollectionDefinition) (create : Bool) (resolver : Resolver) :
    Except ReadFailure CollectionState := do
  query (validateName definition.name)
  query (require (!(definition.retentionClass = .archivableHistory &&
    definition.writeMode ≠ .appendOnly)) .invalidArgument
    "archivable history must be append-only")
  query (require (!current.any fun c => c.definition.retentionClass ≠ definition.retentionClass)
    .forbidden "collection retention class is immutable")
  query (require (!current.any fun c => c.archivedDocuments.size ≠ 0) .conflict
    "archived collection schema/index definitions are sealed")
  query (require (!(create && current.isSome)) .alreadyExists "collection exists")
  query (require (!(!create && current.isNone)) .notFound "collection not found")
  query (require (!current.any fun c => c.definition.writeMode = .appendOnly &&
    definition.writeMode ≠ .appendOnly) .forbidden "append-only protection cannot be weakened")
  let collection : CollectionState :=
    { definition := definition
      dataEpoch := (current.map CollectionState.dataEpoch).getD 0
      documents := (current.map CollectionState.documents).getD OrdMap.empty
      archivedDocuments := OrdMap.empty
      archivedDocumentBytes := 0 }
  X.validateCollection state definition.name collection resolver
  pure collection

def expectsEpoch (current : Option CollectionState) : SchemaChange → Bool
  | .create _ => true
  | .replace _ expected => current.all fun c => c.dataEpoch = expected

def isCreate : SchemaChange → Bool
  | .create _ => true
  | .replace _ _ => false

def activateEach (resolver : Resolver) : List SchemaChange → TenantState →
    Except ReadFailure TenantState
  | [], state => .ok state
  | change :: rest, state => do
    let name := change.definition.name
    let current := state.collections.get name
    query (require (expectsEpoch current change) .conflict
      "schema activation document epoch changed")
    let collection ← prepareCollection X state current change.definition (isCreate change) resolver
    activateEach resolver rest
      { state with collections := state.collections.insert name collection }

def activate (state : TenantState) (request : SchemaChangeSet) (resolver : Resolver) :
    Except ReadFailure TenantState := do
  query (require (state.incarnation = request.expectedIncarnation &&
    state.schemaEpoch = request.expectedSchemaEpoch) .conflict
    "schema activation source changed")
  let state ← activateEach X resolver request.changes state
  query (validateMetadataBudget X state.collections state.limits)
  let schemaEpoch ← query (nextPolicyEpoch state.schemaEpoch)
  let policyEpoch ← query (nextPolicyEpoch state.policyEpoch)
  pure { state with
    schemaEpoch := schemaEpoch
    policyEpoch := policyEpoch }

def entryBytes (key : String) (record : StoredSchemaActivation) : Except Error ℕ :=
  orError .corruption "schema activation accounting overflow"
    ((checkedAdd (X.len (.text key)) 1).bind fun n => checkedAdd n (X.len (.schemaRecord record)))

def oldEntryBytes (state : TenantState) (key : String) : Except Error ℕ :=
  match state.schemaActivations.get key with
  | some old => entryBytes X key old
  | none => .ok 0

def store (state : TenantState) (key : String) (record : StoredSchemaActivation) :
    Except Error TenantState := do
  let old ← oldEntryBytes X state key
  let new ← entryBytes X key record
  let bytes ← orError .corruption "schema activation accounting mismatch"
    ((checkedSub state.schemaActivationBytes old).bind fun n => checkedAdd n new)
  require (!(bytes > state.limits.maxSchemaActivationBytes)) .quotaExceeded
    "permanent schema activation byte budget exhausted"
  pure { state with
    schemaActivationBytes := bytes
    schemaActivations := state.schemaActivations.insert key record }

def changeTargets : List String → OrdSet String → Except Error (OrdSet String)
  | [], seen => .ok seen
  | name :: names, seen => do
    validateName name
    require (!seen.contains name) .invalidArgument "duplicate schema target"
    changeTargets names (seen.add name)

def attempt (state : TenantState) (context : RequestContext) (request : SchemaChangeSet)
    (revision evaluatedAtMs : ℕ) (resolver : Resolver) :
    Except ReadFailure (TenantState × Outcome) :=
  match (do
    query (validateAdmission X state context request.readSet evaluatedAtMs)
    activate X state request resolver : Except ReadFailure TenantState) with
  | .ok next => .ok (next, .ok (emptyReceipt revision))
  | .error (.query e) => .ok (state, .error e)
  | .error .source => .error .source

def newRecord (context : RequestContext) (request : SchemaChangeSet)
    (collections : OrdSet String) (outcome : Outcome) : StoredSchemaActivation :=
  { principal := context.principal
    activationId := request.activationId
    requestDigest := X.sha (.schemaRequest request)
    collections := collections
    readCollections := OrdSet.ofList (request.readSet.filterMap ReadAssertion.reads)
    outcome := outcome }

def applyNew (state : TenantState) (context : RequestContext) (request : SchemaChangeSet)
    (key : String) (revision evaluatedAtMs : ℕ) (resolver : Resolver) :
    Except ReadFailure (TenantState × Applied) := do
  query (require (!(request.changes.isEmpty ||
    request.changes.length > maxSchemaChangesetCollections ||
    X.len (.schemaRequest request) > maxSchemaChangesetBytes)) .resourceExhausted
    "schema change set outside bounds")
  query (validateName request.expectedIncarnation)
  let collections ← query (changeTargets (request.changes.map fun c => c.definition.name)
    OrdMap.empty)
  let (next, outcome) ← attempt X state context request revision evaluatedAtMs resolver
  let record := newRecord X context request collections outcome
  -- Room for replacement by any bounded rejection is reserved with the record itself.
  let bytes ← query (entryBytes X key record)
  query (require (((checkedAdd bytes permanentOutcomeHeadroom).bind fun n =>
    checkedAdd n state.schemaActivationBytes).any fun n =>
      n ≤ state.limits.maxSchemaActivationBytes) .quotaExceeded
    "permanent schema activation byte budget exhausted")
  let next ← query (store X next key record)
  pure (next, outcome, outcome.isOk)

def apply (state : TenantState) (context : RequestContext) (request : SchemaChangeSet)
    (revision evaluatedAtMs : ℕ) (resolver : Resolver) :
    Except ReadFailure (TenantState × Applied) := do
  query (authorize X state context request)
  let key ← query (identity X context.principal request.activationId)
  match state.schemaActivations.get key with
  | some record => do
    let outcome ← query (lookup X state context (X.sha (.schemaRequest request)) record)
    pure (state, outcome, false)
  | none => applyNew X state context request key revision evaluatedAtMs resolver

def rejectBudget (previous next rejected : TenantState) (command : Command) (error : Error) :
    Except Error TenantState :=
  match command.operation with
  | .activateSchema request =>
    let key := X.sha (.identity command.context.principal request.activationId)
    match previous.schemaActivations.get key, next.schemaActivations.get key with
    | none, some record => store X rejected key { record with outcome := .error error }
    | _, _ => .ok rejected
  | _ => .ok rejected

end SchemaActivation
