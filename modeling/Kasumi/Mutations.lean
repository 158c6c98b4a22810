import Kasumi.TenantAccess

/-! Applying a batch of document writes to a tenant: merge patches, read assertions and the
loop that checks and applies one write after another. A batch that fails at any write is
refused as a whole: both callers drop the state it was building. -/
namespace Mutations

open TenantTypes TenantAccess

def isNull : Value → Bool
  | .null => true
  | _ => false

def isObject : Value → Bool
  | .object _ => true
  | _ => false

def maxMergePatchDepth : ℕ := 64

mutual

/-- A patch that is no object replaces the target; an object is merged member by member into
the target's members, or into none when the target is no object. -/
def merge (target : Value) (depth : ℕ) : Value → Except Error Value
  | .object members =>
    if depth > maxMergePatchDepth then
      fail .invalidArgument "merge patch exceeds its nesting limit"
    else
      match mergeMembers depth members (match target with
        | .object existing => existing
        | _ => []) with
      | .ok merged => .ok (.object merged)
      | .error e => .error e
  | patch => .ok patch

def mergeMembers (depth : ℕ) : List (String × Value) → List (String × Value) →
    Except Error (List (String × Value))
  | [], object => .ok object
  | (key, value) :: members, object =>
    if isNull value then mergeMembers depth members (SortedAssoc.edit key none object)
    else
      match merge ((SortedAssoc.toMap object key).getD .null) (depth + 1) value with
      | .ok merged => mergeMembers depth members (SortedAssoc.edit key (some merged) object)
      | .error e => .error e

end

def applyMergePatch (target patch : Value) : Except Error Value :=
  if isObject patch then merge target 0 patch
  else fail .invalidArgument "a document merge patch must be a JSON object"

def slotVersion : DocumentSlot → ℕ
  | .pending document => document.version
  | .stored descriptor => descriptor.version

def slotId : DocumentSlot → String
  | .pending document => document.id
  | .stored descriptor => descriptor.id

def loanDocument (slot : DocumentSlot) (resolver : Resolver) : Except ReadFailure Document :=
  match slot with
  | .pending document => .ok document
  | .stored descriptor =>
    match resolver.bind fun load => load descriptor with
    | some document => .ok document
    | none => .error .source

def documentPath (collection id : String) : String :=
  let escape (value : String) : List Char := value.toList.flatMap fun c =>
    if c = '~' then ['~', '0'] else if c = '/' then ['~', '1'] else [c]
  String.ofList ('/' :: escape collection ++ '/' :: escape id)

variable {Idx Acc : Type} (X : Externals Idx Acc)

def bodyBytes : DocumentSlot → ℕ
  | .pending document => X.len (.body document.body)
  | .stored descriptor => descriptor.bodyBytes

def documentBytes : DocumentSlot → ℕ
  | .pending document => X.len (.document document)
  | .stored descriptor => descriptor.documentBytes

def documentVersion (collection : CollectionState) (id : String) : Option ℕ :=
  ((collection.documents.get id).map slotVersion).or
    ((collection.archivedDocuments.get id).map ArchivedDocument.version)

def assertionIdentity : ReadAssertion → ℕ × String × String
  | .before _ => (3, "", "")
  | .notBefore _ => (4, "", "")
  | .snapshot _ _ _ => (0, "", "")
  | .document collection id _ => (1, collection, id)
  | .collection collection _ => (2, collection, "")

def checkReadAssertion (state : TenantState) (evaluatedAtMs : ℕ) :
    ReadAssertion → Except Error Unit
  | .before notAfterMs =>
    require (evaluatedAtMs ≤ notAfterMs) .conflict "transaction authorization deadline expired"
  | .notBefore notBeforeMs =>
    require (notBeforeMs ≤ evaluatedAtMs) .conflict
      "transaction admission time precedes required bound"
  | .snapshot incarnation policyEpoch schemaEpoch => do
    validateName incarnation
    require (incarnation = state.incarnation && policyEpoch = state.policyEpoch &&
      schemaEpoch = state.schemaEpoch) .conflict "snapshot identity or authority changed"
  | .document collection id expected => do
    validateName collection
    validateName id
    let current ← orError .notFound "read collection not found" (state.collections.get collection)
    let version := documentVersion current id
    require (match expected with
      | .absent => version.isNone
      | .version v => version = some v) .conflict "read document precondition failed"
  | .collection collection dataEpoch => do
    validateName collection
    let current ← orError .notFound "read collection not found" (state.collections.get collection)
    require (current.dataEpoch = dataEpoch) .conflict "read collection changed"

def checkReadAssertions (state : TenantState) (evaluatedAtMs : ℕ)
    (seen : List (ℕ × String × String)) : List ReadAssertion → Except Error Unit
  | [] => .ok ()
  | assertion :: rest => do
    checkReadAssertion state evaluatedAtMs assertion
    require (!seen.contains (assertionIdentity assertion)) .invalidArgument
      "duplicate read assertion"
    checkReadAssertions state evaluatedAtMs (assertionIdentity assertion :: seen) rest

def validateReadAssertions (state : TenantState) (assertions : List ReadAssertion)
    (evaluatedAtMs maxAssertions : ℕ) : Except Error Unit := do
  require (!(assertions.length > maxAssertions)) .resourceExhausted
    "read assertion limit exceeded"
  checkReadAssertions state evaluatedAtMs [] assertions

def isPatch : Mutation → Bool
  | .patch _ _ _ _ => true
  | _ => false

def saturatingMul (a b : ℕ) : ℕ := min (a * b) (wordSize - 1)

def mergePatchWorkspace (patchCount expansionLimit : ℕ) : ℕ :=
  saturatingMul (min (saturatingMul patchCount mib) expansionLimit) 3

def patchSource (state : TenantState) : Mutation → Option DocumentSlot
  | .patch collection id _ _ =>
    (state.collections.get collection).bind fun c => c.documents.get id
  | _ => none

def expandPatches (state : TenantState) (resolver : Resolver) (expansionLimit workspace : ℕ)
    (encoded cloned : ℕ) : List Mutation → Except ReadFailure Unit
  | [] => .ok ()
  | mutation :: rest =>
    match patchSource state mutation with
    | none => expandPatches state resolver expansionLimit workspace encoded cloned rest
    | some slot => do
      let document ← loanDocument slot resolver
      let encoded ← query (orError .resourceExhausted
        "merge patch source documents exceed byte limit"
        ((checkedAdd encoded (X.len (.body document.body))).filter fun n => n ≤ expansionLimit))
      let bytes ← query (X.documentCloneBytes document)
      let cloned ← query (orError .resourceExhausted
        "merge patch source documents exceed workspace limit"
        ((checkedAdd cloned bytes).filter fun n => n ≤ workspace))
      expandPatches state resolver expansionLimit workspace encoded cloned rest

def validateMergePatchExpansion (state : TenantState) (operations : List Mutation)
    (expansionLimit : ℕ) (resolver : Resolver) : Except ReadFailure Unit :=
  expandPatches X state resolver expansionLimit
    (mergePatchWorkspace (operations.countP isPatch) expansionLimit) 0 0 operations

def isAbsentCreate : Mutation → Bool
  | .put _ _ _ .absent => true
  | _ => false

def meetsPrecondition (old : Option DocumentSlot) : Precondition → Bool
  | .any => true
  | .absent => old.isNone
  | .version v => old.any fun d => slotVersion d = v

def checkTarget (collection : CollectionState) (mutation : Mutation) : Except Error Unit := do
  require (!collection.archivedDocuments.contains mutation.target.2) .conflict
    "archived immutable identity cannot be overwritten or deleted"
  require (!(collection.definition.writeMode = .appendOnly && !isAbsentCreate mutation))
    .forbidden "append-only collections accept absent creates only"
  require (meetsPrecondition (collection.documents.get mutation.target.2) mutation.expected)
    .conflict "document precondition failed"

def replacement (old : Option DocumentSlot) (resolver : Resolver) :
    Mutation → Except ReadFailure (Option Value)
  | .put _ _ body _ => .ok (some body)
  | .patch _ _ patch _ =>
    match old with
    | none => query (fail .notFound "patch requires an existing document; use put to create it")
    | some slot => do
      let document ← loanDocument slot resolver
      let body ← query (applyMergePatch document.body patch)
      pure (some body)
  | .delete _ _ _ => .ok none

def withDocument (state : TenantState) (name : String) (collection : CollectionState)
    (id : String) (slot : Option DocumentSlot) (revision documentCount logicalBytes : ℕ) :
    TenantState :=
  { state with
    documentCount := documentCount
    logicalBytes := logicalBytes
    collections := state.collections.insert name
      { collection with
        documents := collection.documents.set id slot
        dataEpoch := revision } }

def storeBody (state : TenantState) (name : String) (collection : CollectionState) (id : String)
    (body : Value) (revision : ℕ) (indexes : Idx) : Except Error TenantState := do
  let old := collection.documents.get id
  let bytes := X.len (.body body)
  require (!(bytes > state.limits.maxDocumentBytes)) .resourceExhausted
    "document exceeds byte limit"
  X.validateDocument indexes collection.definition body
  let logical ← orError .quotaExceeded "logical size overflow"
    ((checkedSub state.logicalBytes ((old.map (bodyBytes X)).getD 0)).bind
      fun n => checkedAdd n bytes)
  pure (withDocument state name collection id (some (.pending ⟨id, revision, body⟩)) revision
    (if old.isNone then state.documentCount + 1 else state.documentCount) logical)

def removeBody (state : TenantState) (name : String) (collection : CollectionState) (id : String)
    (revision : ℕ) : TenantState :=
  match collection.documents.get id with
  | none => state
  | some old => withDocument state name collection id none revision (state.documentCount - 1)
      (state.logicalBytes - bodyBytes X old)

def applyMutation (state : TenantState) (mutation : Mutation) (revision : ℕ) (indexes : Idx)
    (resolver : Resolver) : Except ReadFailure TenantState := do
  let name := mutation.target.1
  let id := mutation.target.2
  let collection ← query (orError .notFound "collection not found" (state.collections.get name))
  query (checkTarget collection mutation)
  match ← replacement (collection.documents.get id) resolver mutation with
  | some body => query (storeBody X state name collection id body revision indexes)
  | none => pure (removeBody X state name collection id revision)

def applyEach (revision : ℕ) (indexes : Idx) (resolver : Resolver)
    (targets : List (String × String)) (state : TenantState) :
    List Mutation → Except ReadFailure TenantState
  | [] => .ok state
  | mutation :: rest => do
    query (validateName mutation.target.2)
    query (require (!targets.contains mutation.target) .invalidArgument "duplicate batch target")
    let state ← applyMutation X state mutation revision indexes resolver
    applyEach revision indexes resolver (mutation.target :: targets) state rest

def writtenVersions (operations : List Mutation) (revision : ℕ) : OrdMap String ℕ :=
  operations.foldl (fun versions mutation =>
    versions.insert (documentPath mutation.target.1 mutation.target.2) revision) OrdMap.empty

def applyMutations (state : TenantState) (operations : List Mutation) (revision : ℕ)
    (includeVersions : Bool) (indexes : Idx) (patchExpansionLimit : ℕ) (resolver : Resolver) :
    Except ReadFailure (TenantState × WriteReceipt) := do
  validateMergePatchExpansion X state operations patchExpansionLimit resolver
  let state ← applyEach X revision indexes resolver [] state operations
  query (require (!(state.documentCount > state.limits.maxDocuments ||
    state.logicalBytes > state.limits.maxLogicalBytes)) .quotaExceeded
    "tenant logical quota exceeded")
  pure (state, ⟨revision,
    if includeVersions then writtenVersions operations revision else OrdMap.empty⟩)

def applyBatch (state : TenantState) (batch : MutationBatch) (revision evaluatedAtMs : ℕ)
    (indexes : Idx) (resolver : Resolver) : Except ReadFailure (TenantState × WriteReceipt) := do
  query (require (!(batch.operations.length > state.limits.maxBatchOperations ||
    X.len (.batch batch) > state.limits.maxBatchBytes)) .resourceExhausted
    "mutation batch exceeds limits")
  query (validateReadAssertions state batch.readSet evaluatedAtMs 512)
  applyMutations X state batch.operations revision true indexes state.limits.maxBatchBytes resolver

def operationTargets (operations : List Mutation) : ChangedIds :=
  operations.foldl (fun changed mutation =>
    changed.insert mutation.target.1
      (((changed.get mutation.target.1).getD OrdMap.empty).add mutation.target.2)) OrdMap.empty

def batchChanges (batch : MutationBatch) : ChangedIds := operationTargets batch.operations

end Mutations
