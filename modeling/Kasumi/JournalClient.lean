import Kasumi.JournalRecords
import Kasumi.SharedCalls

/-! The deployment journal: its operations as programs of backend calls, and the document
store they share. -/
namespace JournalClient

open TenantTypes JournalRecords JsonValue SharedCalls

structure MutationReceipt where
  scope : MutationReceiptScope
  requestDigest : String
  outcome : Outcome

inductive BackendCall where
  | mutate (batch : MutationBatch)
  | resolve (scope : MutationReceiptScope) (original : MutationBatch)
  | readRecords (collection : String) (ids : List String)

@[reducible] def BackendCall.Reply : BackendCall → Type
  | mutate _ => Except String WriteReceipt
  | resolve _ _ => Except String (Option MutationReceipt)
  | readRecords _ _ => Except String (List (Option Document))

abbrev JournalTask (α : Type) := Program BackendCall.Reply JournalError α

structure Serde extends Formats where
  fromSlice : List UInt8 → Option JournalEntry
  fromSlice_toVec : ∀ entry, fromSlice (toVec toFormats entry) = some entry

structure Journal where
  collection : String
  scope : MutationReceiptScope

structure JournalView where
  entries : List JournalEntry
  deriving DecidableEq

inductive AppendOutcome where
  | committed
  | recovered
  | alreadyPresent
  deriving DecidableEq

def backendError {α : Type} : Except String α → Except JournalError α
  | .ok a => .ok a
  | .error message => .error (.backend message)

def orInconsistent {α : Type} : Option α → Except JournalError α
  | some a => .ok a
  | none => .error .inconsistent

def deadlineAfter (fits : Bool) : Except JournalError Unit :=
  failWhen (!fits) (.invalid "invalid journal timeout")

def mutate (batch : MutationBatch) : JournalTask (Except String WriteReceipt) :=
  Program.ask (BackendCall.mutate batch)

def resolve (scope : MutationReceiptScope) (batch : MutationBatch) :
    JournalTask (Except String (Option MutationReceipt)) :=
  Program.ask (BackendCall.resolve scope batch)

def readRecords (collection : String) (ids : List String) : JournalTask (List (Option Document)) := do
  let reply ← Program.ask (BackendCall.readRecords collection ids)
  backendError reply

variable (F : Serde)

def checkChunk (manifest : ChunkManifest) (index : ℕ) (document : Option Document) (id : String) :
    Except JournalError (List UInt8) := do
  let document ← orInconsistent document
  failWhen (document.id != id || document.version == 0) .inconsistent
  let chunk ← orInconsistent (ChunkDocument.ofValue F.toFormats document.body)
  failWhen (chunk.format != 1 || chunk.identity != manifest.identity ||
    chunk.phase != manifest.phase || chunk.index != index || chunk.chunks != manifest.chunks ||
    chunk.payloadSha256 != manifest.payloadSha256 ||
    (sha256 chunk.dataSha256 "chunk digest").toOption.isNone) .inconsistent
  let bytes ← orInconsistent (exactHex chunk.dataHex chunkBytes "journal chunk").toOption
  failWhen (digest F.toFormats bytes != chunk.dataSha256 ||
    (chunk.index + 1 < chunk.chunks && bytes.length != chunkBytes)) .inconsistent
  pure bytes

def takeChunks (manifest : ChunkManifest) :
    ℕ → List (Option Document × String) → List UInt8 → Except JournalError (List UInt8)
  | _, [], payload => .ok payload
  | index, (document, id) :: rest, payload => do
    let bytes ← checkChunk F manifest index document id
    takeChunks manifest (index + 1) rest (payload ++ bytes)

def groupIds (manifest : ChunkManifest) (phase : PhaseKind) (start : ℕ) : List String :=
  (List.range' start (min (start + 4) manifest.chunks - start)).map
    (chunkId F.toFormats manifest.identity.operationId phase)

def readGroups (collection : String) (manifest : ChunkManifest) (phase : PhaseKind) :
    List ℕ → List UInt8 → JournalTask (List UInt8)
  | [], payload => pure payload
  | start :: rest, payload => do
    let documents ← readRecords collection (groupIds F manifest phase start)
    failWhen (documents.length != (groupIds F manifest phase start).length) .inconsistent
    let payload ← takeChunks F manifest start (documents.zip (groupIds F manifest phase start))
      payload
    readGroups collection manifest phase rest payload

def groupStarts (chunks : ℕ) : List ℕ := (List.range ((chunks + 3) / 4)).map (4 * ·)

def decodePayload (manifest : ChunkManifest) (phase : PhaseKind) (payload : List UInt8) :
    Except JournalError JournalEntry := do
  failWhen (payload.length != manifest.payloadBytes ||
    digest F.toFormats payload != manifest.payloadSha256) .inconsistent
  let entry ← orInconsistent (F.fromSlice payload)
  failWhen (toVec F.toFormats entry != payload || entry.identity != manifest.identity ||
    entry.phase.kind != phase) .inconsistent
  pure entry

def readChunked (collection : String) (manifest : ChunkManifest) (phase : PhaseKind) :
    JournalTask JournalEntry := do
  failWhen (manifest.format != 1 || manifest.phase != phase.slug || manifest.chunks == 0 ||
    manifest.chunks > maxChunks || manifest.payloadBytes ≤ inlineEntryBytes ||
    chunkCount manifest.payloadBytes != manifest.chunks ||
    (sha256 manifest.payloadSha256 "chunked payload digest").toOption.isNone) .inconsistent
  let payload ← readGroups F collection manifest phase (groupStarts manifest.chunks) []
  decodePayload F manifest phase payload

/-- A failed submission is looked up by its exact batch; a lookup that fails says nothing. -/
def resolution (scope : MutationReceiptScope) (batch : MutationBatch)
    (submission : Except String WriteReceipt) : JournalTask (Option MutationReceipt) :=
  match submission with
  | .ok _ => pure none
  | .error _ => do
    let reply ← resolve scope batch
    pure (reply.toOption.bind id)

def checkReceipt (scope : MutationReceiptScope) (batch : MutationBatch) :
    Option MutationReceipt → Except JournalError Unit
  | none => .ok ()
  | some receipt => do
    let digest ← orInconsistent (F.batchDigest batch).toOption
    failWhen (receipt.scope != scope || receipt.requestDigest != digest) .inconsistent

def rejectFailed : Option MutationReceipt → Except JournalError Unit
  | some ⟨_, _, .error error⟩ => .error (.rejected error)
  | _ => .ok ()

def sameDocument (document : Document) (id : String) (body : Value) : Bool :=
  document.id == id && document.version > 0 && document.body == body

def submit (scope : MutationReceiptScope) (batch : MutationBatch) :
    JournalTask (Except String WriteReceipt × Option MutationReceipt) := do
  let submission ← mutate batch
  let receipt ← resolution scope batch submission
  checkReceipt F scope batch receipt
  pure (submission, receipt)

def appendChunk (journal : Journal) (id : String) (body : Value) : JournalTask Unit := do
  let existing ← readRecords journal.collection [id]
  match existing with
  | [some document] =>
    .done (failWhen (!sameDocument document id body) .conflict)
  | [none] => do
    let submitted ← submit F journal.scope (putBatch journal.collection id body)
    let after ← (readRecords journal.collection [id]).mapError fun _ => .unknownOutcome id
    rejectFailed submitted.2
    match after with
    | [some document] => .done (failWhen (!sameDocument document id body) .conflict)
    | _ => .done (.error (.unknownOutcome id))
  | _ => .done (.error .inconsistent)

def appendChunks (journal : Journal) : List (String × Value) → JournalTask Unit
  | [] => pure ()
  | (id, body) :: rest => do
    appendChunk F journal id body
    appendChunks journal rest

def readBody (journal : Journal) (identity : DeploymentIdentity) (phase : PhaseKind)
    (body : Value) : JournalTask JournalEntry :=
  if (member body "payload_sha256").isSome then do
    let manifest ← orInconsistent (ChunkManifest.ofValue F.toFormats body)
    failWhen (manifest.identity != identity) .conflict
    readChunked F journal.collection manifest phase
  else
    .done (orInconsistent (JournalEntry.ofValue F.toFormats body))

def readPhase (journal : Journal) (identity : DeploymentIdentity) (phase : PhaseKind)
    (document : Document) : JournalTask JournalEntry := do
  let entry ← readBody F journal identity phase document.body
  orInconsistent (entry.validate F.toFormats).toOption
  failWhen (entry.identity != identity || entry.phase.kind != phase) .conflict
  pure entry

def readPhases (journal : Journal) (identity : DeploymentIdentity) :
    Bool → List ((Option Document × String) × PhaseKind) → List JournalEntry →
      JournalTask (List JournalEntry)
  | _, [], entries => pure entries
  | _, ((none, _), _) :: rest, entries => readPhases journal identity true rest entries
  | gap, ((some document, id), phase) :: rest, entries => do
    failWhen (gap || document.id != id || document.version == 0) .inconsistent
    let entry ← readPhase F journal identity phase document
    readPhases journal identity gap rest (entries ++ [entry])

def phaseIds (identity : DeploymentIdentity) : List String :=
  PhaseKind.order.map (documentId F.toFormats identity.operationId)

def recoverUntil (journal : Journal) (identity : DeploymentIdentity) : JournalTask JournalView := do
  identity.validate F.toFormats
  failWhen (identity.journalScope != journal.scope) .conflict
  let documents ← readRecords journal.collection (phaseIds F identity)
  failWhen (documents.length != (phaseIds F identity).length) .inconsistent
  let entries ← readPhases F journal identity false
    ((documents.zip (phaseIds F identity)).zip PhaseKind.order) []
  validateSequence F.toFormats entries
  pure ⟨entries⟩

def recover (journal : Journal) (identity : DeploymentIdentity) (timeoutFits : Bool) :
    JournalTask JournalView := do
  deadlineAfter timeoutFits
  recoverUntil F journal identity

def storeEntry (journal : Journal) (entry : JournalEntry) : JournalTask MutationBatch :=
  if (toVec F.toFormats entry).length ≤ inlineEntryBytes then
    .done (entry.mutation F.toFormats journal.collection)
  else do
    let stored ← chunkedStorage F.toFormats entry journal.collection (toVec F.toFormats entry)
    appendChunks F journal stored.2
    pure stored.1

def unknownAfter (id : String) : JournalError → JournalError
  | .backend _ => .unknownOutcome id
  | error => error

def concluded (entry : JournalEntry) (id : String) (submission : Except String WriteReceipt) :
    Option JournalEntry → Except JournalError AppendOutcome
  | some existing =>
    if existing = entry then
      match submission with
      | .ok _ => .ok .committed
      | .error _ => .ok .recovered
    else .error .conflict
  | none => .error (.unknownOutcome id)

def appendNext (journal : Journal) (entry : JournalEntry) (view : JournalView) :
    JournalTask AppendOutcome := do
  failWhen (view.entries.length != entry.phase.kind.index) .missingPredecessor
  validateSequence F.toFormats (view.entries ++ [entry])
  let batch ← storeEntry F journal entry
  let submitted ← submit F journal.scope batch
  let after ← (recoverUntil F journal entry.identity).mapError
    (unknownAfter (entry.documentId F.toFormats))
  rejectFailed submitted.2
  concluded entry (entry.documentId F.toFormats) submitted.1
    after.entries[entry.phase.kind.index]?

def append (journal : Journal) (entry : JournalEntry) (timeoutFits : Bool) :
    JournalTask AppendOutcome := do
  entry.validate F.toFormats
  failWhen (entry.identity.journalScope != journal.scope) .conflict
  deadlineAfter timeoutFits
  let view ← recoverUntil F journal entry.identity
  match view.entries[entry.phase.kind.index]? with
  | some existing => .done (if existing = entry then .ok .alreadyPresent else .error .conflict)
  | none => appendNext F journal entry view

end JournalClient
