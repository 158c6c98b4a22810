import Kasumi.Staging

/-! Publication of archived history. Replicas validate the complete manifest against their
own rows before any resident body is dropped; archival changes where a document is stored,
never its identity, its version or the data epoch of its collection. -/
namespace HistoryArchive

open TenantTypes TenantAccess Mutations Staging

def maxArchiveChunkBytes : ℕ := 8 * mib

def maxArchiveChunks : ℕ := 4096

def maxArchiveManifestBytes : ℕ := 4 * mib

def maxArchiveDocuments : ℕ := 100000

def maxArchiveSourceBytes : ℕ := 64 * mib

variable {Idx Acc : Type} (X : Externals Idx Acc)

/-- The chunks cover increasing intervals; returns the number of documents they hold. -/
def checkChunks : List ArchiveChunkDescriptor → Option String → List String → ℕ → Except Error ℕ
  | [], _, _, count => .ok count
  | chunk :: rest, previous, objects, count => do
    let _ ← orError .invalidArgument "invalid archive object identity" (X.parseUuid chunk.objectId)
    validateSha256 chunk.ciphertextSha256
    validateSha256 chunk.plaintextSha256
    validateName chunk.firstId
    validateName chunk.lastId
    require (!(chunk.lastId < chunk.firstId || previous.any (fun id => chunk.firstId ≤ id) ||
      chunk.documentCount = 0 || chunk.plaintextBytes = 0 ||
      chunk.plaintextBytes > maxArchiveChunkBytes || objects.contains chunk.objectId))
      .invalidArgument "invalid archive chunk bounds"
    let count ← orError .invalidArgument "archive count overflow"
      (checkedAdd count chunk.documentCount)
    checkChunks rest (some chunk.lastId) (chunk.objectId :: objects) count

def validateManifest (manifest : HistoryArchiveManifest) : Except Error Unit := do
  validateName manifest.archiveId
  validateName manifest.tenant
  validateName manifest.sourceIncarnation
  validateName manifest.collection
  validateName manifest.destination
  require (!(manifest.chunks.isEmpty || manifest.chunks.length > maxArchiveChunks ||
    manifest.documentCount = 0 || manifest.documentCount > maxArchiveDocuments ||
    X.len (.archiveManifest manifest) > maxArchiveManifestBytes)) .invalidArgument
    "archive manifest outside bounds"
  let count ← checkChunks X manifest.chunks none [] 0
  require (count = manifest.documentCount) .invalidArgument "archive count differs from manifest"

def indexFields (definition : CollectionDefinition) (document : Document) :
    OrdMap String Value :=
  (definition.indexes.flatMap IndexDefinition.fields).foldl (fun fields field =>
    match X.pointer document.body field.path with
    | some value => fields.insert field.path value
    | none => fields) OrdMap.empty

def eligible (collection : CollectionState) (cutoffRevision : ℕ) :
    List (String × DocumentSlot) :=
  collection.documents.entries.filter fun entry => slotVersion entry.2 ≤ cutoffRevision

def sourceBytes : List (String × DocumentSlot) → ℕ → Except Error ℕ
  | [], total => .ok total
  | (_, slot) :: rest, total => do
    let total ← orError .quotaExceeded "archive source size overflow"
      (checkedAdd total (bodyBytes X slot))
    sourceBytes rest total

def loadEach (resolver : Resolver) : List (String × DocumentSlot) →
    Except ReadFailure (List Document)
  | [] => .ok []
  | (_, slot) :: rest => do
    let document ← loanDocument slot resolver
    let documents ← loadEach resolver rest
    pure (document :: documents)

structure Moved where
  id : String
  reference : ArchivedDocument
  bodyBytes : ℕ

def moved (definition : CollectionDefinition) (archiveId : String) (chunkIndex : ℕ)
    (document : Document) : Moved :=
  { id := document.id
    reference :=
      { version := document.version
        archiveId := archiveId
        chunkIndex := chunkIndex
        documentSha256 := X.sha (.document document)
        documentBytes := X.len (.document document)
        indexedFields := indexFields X definition document }
    bodyBytes := X.len (.body document.body) }

def moveChunk (manifest : HistoryArchiveManifest) (definition : CollectionDefinition)
    (rows : List (String × DocumentSlot)) (resolver : Resolver) (index : ℕ)
    (chunk : ArchiveChunkDescriptor) : Except ReadFailure (List Moved) := do
  let interval := rows.filter fun entry =>
    decide (chunk.firstId ≤ entry.1) && decide (entry.1 ≤ chunk.lastId)
  query (require (interval.length = chunk.documentCount &&
    interval.head?.any (fun entry => slotId entry.2 = chunk.firstId) &&
    interval.getLast?.any fun entry => slotId entry.2 = chunk.lastId) .conflict
    "archive chunk does not cover its source interval")
  let documents ← loadEach resolver interval
  let plaintext : Encoded := .archiveChunk manifest.archiveId manifest.sourceIncarnation
    manifest.collection index documents
  query (require (X.sha plaintext = chunk.plaintextSha256 &&
    X.len plaintext = chunk.plaintextBytes) .conflict
    "archive source bytes differ from verified chunk")
  pure (documents.map (moved X definition manifest.archiveId index))

def moveChunks (manifest : HistoryArchiveManifest) (definition : CollectionDefinition)
    (rows : List (String × DocumentSlot)) (resolver : Resolver) :
    ℕ → List ArchiveChunkDescriptor → Except ReadFailure (List Moved)
  | _, [] => .ok []
  | index, chunk :: rest => do
    let first ← moveChunk X manifest definition rows resolver index chunk
    let others ← moveChunks manifest definition rows resolver (index + 1) rest
    pure (first ++ others)

def metadataEntry (id : String) (value : Encoded) : Except Error ℕ :=
  orError .corruption "history metadata byte overflow"
    ((checkedAdd (X.len (.text id)) 1).bind fun n => checkedAdd n (X.len value))

def archiveEach : List Moved → CollectionState → ℕ → Except Error (CollectionState × ℕ)
  | [], collection, logical => .ok (collection, logical)
  | row :: rest, collection, logical => do
    require (!collection.archivedDocuments.contains row.id) .corruption
      "history identity already archived"
    let bytes ← metadataEntry X row.id (.archivedDocument row.reference)
    let total ← orError .quotaExceeded "archive reference size overflow"
      (checkedAdd collection.archivedDocumentBytes bytes)
    let logical ← orError .corruption "archive logical byte underflow"
      (checkedSub logical row.bodyBytes)
    archiveEach rest
      { collection with
        archivedDocumentBytes := total
        archivedDocuments := collection.archivedDocuments.insert row.id row.reference
        documents := collection.documents.remove row.id } logical

def retained (request : PublishHistoryArchive) (revision : ℕ) : RetainedHistoryArchive :=
  { storageDestination := request.manifest.destination
    storageBackupSession := none
    manifest := request.manifest
    manifestObjectId := request.manifestObjectId
    manifestCiphertextSha256 := request.manifestCiphertextSha256
    publishedRevision := revision }

def archivable (state : TenantState) (request : PublishHistoryArchive) :
    Except Error CollectionState := do
  let manifest := request.manifest
  require (manifest.tenant = state.tenant && manifest.sourceIncarnation = state.incarnation &&
    manifest.sourceSchemaEpoch = state.schemaEpoch &&
    request.expectedPolicyEpoch = state.policyEpoch &&
    manifest.cutoffRevision ≤ state.revision) .conflict
    "archive source or authority fence changed"
  require (!(state.historyArchives.size ≥ state.limits.history.maxArchiveSegments))
    .quotaExceeded "archive manifest quota exhausted"
  let collection ← orError .notFound "archive collection missing"
    (state.collections.get manifest.collection)
  require (collection.definition.retentionClass = .archivableHistory &&
    collection.definition.writeMode = .appendOnly) .forbidden
    "collection is not eligible for history archival"
  require (!collection.definition.indexes.any fun index => index.text.isSome) .conflict
    "text-indexed history requires a supported cold text index"
  pure collection

def archivedRows (collection : CollectionState) (manifest : HistoryArchiveManifest)
    (resolver : Resolver) : Except ReadFailure (List Moved) := do
  let rows := eligible collection manifest.cutoffRevision
  query (require (rows.length = manifest.documentCount) .conflict "archive source count changed")
  let bytes ← query (sourceBytes X rows 0)
  query (require (!(bytes > maxArchiveSourceBytes)) .resourceExhausted
    "archive prefix exceeds source byte bound")
  let rowsMoved ← moveChunks X manifest collection.definition rows resolver 0 manifest.chunks
  query (require (rowsMoved.length = rows.length) .conflict "archive intervals omit source rows")
  pure rowsMoved

def publishNew (state : TenantState) (request : PublishHistoryArchive) (revision : ℕ)
    (resolver : Resolver) : Except ReadFailure (TenantState × Applied) := do
  let manifest := request.manifest
  let collection ← query (archivable state request)
  let rows ← archivedRows X collection manifest resolver
  let (archived, logical) ← query (archiveEach X rows collection state.logicalBytes)
  let entry ← query (metadataEntry X manifest.archiveId (.retainedArchive (retained request revision)))
  let bytes ← query (orError .quotaExceeded "archive catalog byte overflow"
    (checkedAdd state.historyArchiveBytes entry))
  pure ({ state with
    collections := state.collections.insert manifest.collection archived
    logicalBytes := logical
    historyArchiveBytes := bytes
    historyArchives := state.historyArchives.insert manifest.archiveId
      (retained request revision) }, .ok (emptyReceipt revision), true)

def authorizePublish (state : TenantState) (context : RequestContext)
    (request : PublishHistoryArchive) : Except Error Unit := do
  authorizeState X state context none .admin
  authorizeState X state context (some request.manifest.collection) .admin
  authorizeState X state context (some request.manifest.collection) .read
  validateManifest X request.manifest
  validateSha256 request.manifestCiphertextSha256
  let _ ← orError .invalidArgument "invalid archive manifest object"
    (X.parseUuid request.manifestObjectId)
  pure ()

def publish (state : TenantState) (command : Command) (request : PublishHistoryArchive)
    (revision : ℕ) (resolver : Resolver) : Except ReadFailure (TenantState × Applied) := do
  query (authorizePublish X state command.context request)
  match state.historyArchives.get request.manifest.archiveId with
  | some existing => do
    query (require (existing.manifest = request.manifest &&
      existing.manifestObjectId = request.manifestObjectId &&
      existing.manifestCiphertextSha256 = request.manifestCiphertextSha256) .conflict
      "archive identity reused for different history")
    pure (state, .ok (emptyReceipt existing.publishedRevision), false)
  | none => publishNew X state request revision resolver

def changes (state : TenantState) (request : PublishHistoryArchive) : ChangedIds :=
  let ids : OrdSet String := match state.collections.get request.manifest.collection with
    | some collection =>
      OrdSet.ofList ((eligible collection request.manifest.cutoffRevision).map Prod.fst)
    | none => OrdMap.empty
  (OrdMap.empty : ChangedIds).insert request.manifest.collection ids

end HistoryArchive
