import Kasumi.HexText
import Kasumi.JsonValue
import Kasumi.TenantAccess

/-! The records of a deployment journal: the identity every phase of one deployment shares,
the evidence each phase retains, their validation, their JSON and the documents they are
stored as. -/
namespace JournalRecords

open TenantTypes TenantAccess JsonText JsonValue

def maxNativeArtifactBytes : ℕ := 8 * 2 ^ 20
def inlineEntryBytes : ℕ := 128 * 2 ^ 10
def chunkBytes : ℕ := 128 * 2 ^ 10
def maxChunks : ℕ := 256
def requiredMaxDocumentBytes : ℕ := 384 * 2 ^ 10

/-- Failures of the journal. `rejected` carries the error the receipt records, `backend` the
message of the failed call. -/
inductive JournalError where
  | invalid (message : String)
  | conflict
  | missingPredecessor
  | inconsistent
  | rejected (error : Error)
  | unknownOutcome (id : String)
  | backend (message : String)
  deriving DecidableEq

/-- What the records take from other crates: identifiers as text, SHA-256 and the digest of a
mutation batch. -/
structure Formats where
  uuidText : Uuid → String
  parseUuid : String → Option Uuid
  parseUuid_text : ∀ u, parseUuid (uuidText u) = some u
  sha256 : List UInt8 → List UInt8
  sha256_length : ∀ bytes, (sha256 bytes).length = 32
  batchDigest : MutationBatch → Except Error String

def failWhen (condition : Bool) (error : JournalError) : Except JournalError Unit :=
  if condition then .error error else .ok ()

def name (value field : String) : Except JournalError Unit :=
  match validateName value with
  | .ok () => .ok ()
  | .error _ => .error (.invalid ("invalid " ++ field))

def sha256 (value field : String) : Except JournalError Unit :=
  match HexText.decode value with
  | none => .error (.invalid ("invalid " ++ field))
  | some bytes =>
    failWhen (bytes.length != 32 || HexText.encode bytes != value) (.invalid ("invalid " ++ field))

def exactHex (value : String) (maximum : ℕ) (field : String) :
    Except JournalError (List UInt8) := do
  failWhen (value.isEmpty || value.utf8ByteSize > maximum * 2)
    (.invalid ("invalid " ++ field ++ " size"))
  match HexText.decode value with
  | none => .error (.invalid ("invalid " ++ field ++ " hex"))
  | some bytes =>
    failWhen (bytes.isEmpty || bytes.length > maximum || HexText.encode bytes != value)
      (.invalid ("invalid " ++ field ++ " encoding"))
    pure bytes

variable (F : Formats)

def digest (bytes : List UInt8) : String := HexText.encode (F.sha256 bytes)

structure DeploymentIdentity where
  journalScope : MutationReceiptScope
  network : String
  genesisSha256 : String
  operationId : Uuid
  dataspace : String
  namespaceName : String
  signerAccount : String
  signerPublicKeySha256 : String
  requestSha256 : String
  artifactSha256 : String
  deriving DecidableEq

def parseIncarnation (incarnation : String) : Except JournalError Uuid :=
  match F.parseUuid incarnation with
  | some u => .ok u
  | none => .error (.invalid "invalid Kasumi incarnation")

def DeploymentIdentity.validate (identity : DeploymentIdentity) : Except JournalError Unit := do
  name identity.journalScope.tenant "Kasumi tenant"
  name identity.journalScope.principal "Kasumi principal"
  let incarnation ← parseIncarnation F identity.journalScope.incarnation
  failWhen (incarnation == 0 || identity.operationId == 0)
    (.invalid "nil Kasumi incarnation or deployment operation")
  name identity.network "network"
  name identity.dataspace "dataspace"
  name identity.namespaceName "namespace"
  name identity.signerAccount "signer account"
  sha256 identity.genesisSha256 "genesis digest"
  sha256 identity.signerPublicKeySha256 "signer key digest"
  sha256 identity.requestSha256 "request digest"
  sha256 identity.artifactSha256 "artifact digest"

structure SignedTransaction where
  transactionId : String
  signedBytesHex : String
  signedBytesSha256 : String
  deriving DecidableEq

/-- Retained bytes are exact hexadecimal text of bounded size with their own digest. -/
def retained (hexText sha field differs : String) : Except JournalError Unit := do
  let bytes ← exactHex hexText maxNativeArtifactBytes field
  failWhen (digest F bytes != sha) (.invalid differs)

def SignedTransaction.validate (t : SignedTransaction) : Except JournalError Unit := do
  name t.transactionId "transaction ID"
  sha256 t.signedBytesSha256 "signed transaction digest"
  retained F t.signedBytesHex t.signedBytesSha256 "signed transaction"
    "signed transaction bytes differ from their digest"

structure ChainProof where
  transactionId : String
  blockHeight : UInt64
  blockHash : String
  observedStateSha256 : String
  evidenceHex : String
  evidenceSha256 : String
  deriving DecidableEq

def ChainProof.validate (p : ChainProof) : Except JournalError Unit := do
  name p.transactionId "proof transaction ID"
  failWhen (p.blockHeight == 0) (.invalid "zero proof block height")
  sha256 p.blockHash "proof block hash"
  sha256 p.observedStateSha256 "observed state digest"
  sha256 p.evidenceSha256 "chain evidence digest"
  retained F p.evidenceHex p.evidenceSha256 "chain evidence"
    "chain evidence differs from its digest"

structure CompletionProofs where
  catalogProofSha256 : String
  bootstrapProofSha256 : String
  aliasesProofSha256 : String
  nativeReceiptName : String
  nativeReceiptHex : String
  nativeReceiptSha256 : String
  deriving DecidableEq

def CompletionProofs.validate (p : CompletionProofs) : Except JournalError Unit := do
  sha256 p.catalogProofSha256 "catalog proof digest"
  sha256 p.bootstrapProofSha256 "bootstrap proof digest"
  sha256 p.aliasesProofSha256 "aliases proof digest"
  name p.nativeReceiptName "native completion receipt name"
  sha256 p.nativeReceiptSha256 "native completion receipt digest"
  retained F p.nativeReceiptHex p.nativeReceiptSha256 "native completion receipt"
    "native completion receipt differs from its digest"

inductive PhaseKind where
  | intent
  | catalogPrepared
  | catalogVerified
  | bootstrapPrepared
  | bootstrapVerified
  | aliasesPrepared
  | aliasesVerified
  | completed
  deriving DecidableEq

namespace PhaseKind

def order : List PhaseKind :=
  [intent, catalogPrepared, catalogVerified, bootstrapPrepared, bootstrapVerified,
    aliasesPrepared, aliasesVerified, completed]

def slug : PhaseKind → String
  | intent => "intent"
  | catalogPrepared => "catalog-prepared"
  | catalogVerified => "catalog-verified"
  | bootstrapPrepared => "bootstrap-prepared"
  | bootstrapVerified => "bootstrap-verified"
  | aliasesPrepared => "aliases-prepared"
  | aliasesVerified => "aliases-verified"
  | completed => "completed"

def index (phase : PhaseKind) : ℕ := order.idxOf phase

def tag : PhaseKind → String
  | intent => "intent"
  | catalogPrepared => "catalog_prepared"
  | catalogVerified => "catalog_verified"
  | bootstrapPrepared => "bootstrap_prepared"
  | bootstrapVerified => "bootstrap_verified"
  | aliasesPrepared => "aliases_prepared"
  | aliasesVerified => "aliases_verified"
  | completed => "completed"

def ofTag (tag : String) : Option PhaseKind := order.find? fun phase => phase.tag == tag

end PhaseKind

inductive DeploymentPhase where
  | intent
  | catalogPrepared (signedTransaction : SignedTransaction)
  | catalogVerified (proof : ChainProof)
  | bootstrapPrepared (signedTransaction : SignedTransaction)
  | bootstrapVerified (proof : ChainProof)
  | aliasesPrepared (signedTransaction : SignedTransaction)
  | aliasesVerified (proof : ChainProof)
  | completed (proofs : CompletionProofs)
  deriving DecidableEq

namespace DeploymentPhase

def kind : DeploymentPhase → PhaseKind
  | intent => .intent
  | catalogPrepared _ => .catalogPrepared
  | catalogVerified _ => .catalogVerified
  | bootstrapPrepared _ => .bootstrapPrepared
  | bootstrapVerified _ => .bootstrapVerified
  | aliasesPrepared _ => .aliasesPrepared
  | aliasesVerified _ => .aliasesVerified
  | completed _ => .completed

def signedTransaction : DeploymentPhase → Option SignedTransaction
  | catalogPrepared t => some t
  | bootstrapPrepared t => some t
  | aliasesPrepared t => some t
  | _ => none

def proof : DeploymentPhase → Option ChainProof
  | catalogVerified p => some p
  | bootstrapVerified p => some p
  | aliasesVerified p => some p
  | _ => none

def validate : DeploymentPhase → Except JournalError Unit
  | intent => .ok ()
  | catalogPrepared t => t.validate F
  | catalogVerified p => p.validate F
  | bootstrapPrepared t => t.validate F
  | bootstrapVerified p => p.validate F
  | aliasesPrepared t => t.validate F
  | aliasesVerified p => p.validate F
  | completed proofs => proofs.validate F

end DeploymentPhase

structure JournalEntry where
  format : UInt32
  identity : DeploymentIdentity
  phase : DeploymentPhase
  deriving DecidableEq

def JournalEntry.validate (entry : JournalEntry) : Except JournalError Unit := do
  failWhen (entry.format != 1) (.invalid "unsupported journal entry format")
  entry.identity.validate F
  entry.phase.validate F

structure ChunkManifest where
  format : UInt32
  identity : DeploymentIdentity
  phase : String
  payloadSha256 : String
  payloadBytes : ℕ
  chunks : ℕ

structure ChunkDocument where
  format : UInt32
  identity : DeploymentIdentity
  phase : String
  index : ℕ
  chunks : ℕ
  payloadSha256 : String
  dataHex : String
  dataSha256 : String

/-! The JSON of the records, members in the order of their declarations. -/

def scopeJson (scope : MutationReceiptScope) : Json :=
  .obj [("tenant", .str scope.tenant), ("incarnation", .str scope.incarnation),
    ("principal", .str scope.principal)]

def DeploymentIdentity.toJson (identity : DeploymentIdentity) : Json :=
  .obj [("journal_scope", scopeJson identity.journalScope), ("network", .str identity.network),
    ("genesis_sha256", .str identity.genesisSha256),
    ("operation_id", .str (F.uuidText identity.operationId)),
    ("dataspace", .str identity.dataspace), ("namespace", .str identity.namespaceName),
    ("signer_account", .str identity.signerAccount),
    ("signer_public_key_sha256", .str identity.signerPublicKeySha256),
    ("request_sha256", .str identity.requestSha256),
    ("artifact_sha256", .str identity.artifactSha256)]

def SignedTransaction.toJson (t : SignedTransaction) : Json :=
  .obj [("transaction_id", .str t.transactionId), ("signed_bytes_hex", .str t.signedBytesHex),
    ("signed_bytes_sha256", .str t.signedBytesSha256)]

def ChainProof.toJson (p : ChainProof) : Json :=
  .obj [("transaction_id", .str p.transactionId), ("block_height", .num p.blockHeight.toNat),
    ("block_hash", .str p.blockHash), ("observed_state_sha256", .str p.observedStateSha256),
    ("evidence_hex", .str p.evidenceHex), ("evidence_sha256", .str p.evidenceSha256)]

def CompletionProofs.toJson (p : CompletionProofs) : Json :=
  .obj [("catalog_proof_sha256", .str p.catalogProofSha256),
    ("bootstrap_proof_sha256", .str p.bootstrapProofSha256),
    ("aliases_proof_sha256", .str p.aliasesProofSha256),
    ("native_receipt_name", .str p.nativeReceiptName),
    ("native_receipt_hex", .str p.nativeReceiptHex),
    ("native_receipt_sha256", .str p.nativeReceiptSha256)]

def DeploymentPhase.details : DeploymentPhase → Option Json
  | intent => none
  | catalogPrepared t | bootstrapPrepared t | aliasesPrepared t =>
    some (.obj [("signed_transaction", t.toJson)])
  | catalogVerified p | bootstrapVerified p | aliasesVerified p => some (.obj [("proof", p.toJson)])
  | completed proofs => some proofs.toJson

def DeploymentPhase.toJson (phase : DeploymentPhase) : Json :=
  match phase.details with
  | none => .obj [("phase", .str phase.kind.tag)]
  | some details => .obj [("phase", .str phase.kind.tag), ("details", details)]

def JournalEntry.toJson (entry : JournalEntry) : Json :=
  .obj [("format", .num entry.format.toNat), ("identity", entry.identity.toJson F),
    ("phase", entry.phase.toJson)]

def ChunkManifest.toJson (m : ChunkManifest) : Json :=
  .obj [("format", .num m.format.toNat), ("identity", m.identity.toJson F),
    ("phase", .str m.phase), ("payload_sha256", .str m.payloadSha256),
    ("payload_bytes", .num m.payloadBytes), ("chunks", .num m.chunks)]

def ChunkDocument.toJson (c : ChunkDocument) : Json :=
  .obj [("format", .num c.format.toNat), ("identity", c.identity.toJson F),
    ("phase", .str c.phase), ("index", .num c.index), ("chunks", .num c.chunks),
    ("payload_sha256", .str c.payloadSha256), ("data_hex", .str c.dataHex),
    ("data_sha256", .str c.dataSha256)]

/-! Decoding. Records deny unknown members; the tagged phase does not. -/

def scopeOf (v : Value) : Option MutationReceiptScope := do
  guard (onlyMembers v ["tenant", "incarnation", "principal"])
  let tenant ← textMember v "tenant"
  let incarnation ← textMember v "incarnation"
  let principal ← textMember v "principal"
  pure ⟨tenant, incarnation, principal⟩

def DeploymentIdentity.ofValue (v : Value) : Option DeploymentIdentity := do
  guard (onlyMembers v ["journal_scope", "network", "genesis_sha256", "operation_id", "dataspace",
    "namespace", "signer_account", "signer_public_key_sha256", "request_sha256",
    "artifact_sha256"])
  let journalScope ← (member v "journal_scope").bind scopeOf
  let network ← textMember v "network"
  let genesisSha256 ← textMember v "genesis_sha256"
  let operationId ← (textMember v "operation_id").bind F.parseUuid
  let dataspace ← textMember v "dataspace"
  let namespaceName ← textMember v "namespace"
  let signerAccount ← textMember v "signer_account"
  let signerPublicKeySha256 ← textMember v "signer_public_key_sha256"
  let requestSha256 ← textMember v "request_sha256"
  let artifactSha256 ← textMember v "artifact_sha256"
  pure ⟨journalScope, network, genesisSha256, operationId, dataspace, namespaceName,
    signerAccount, signerPublicKeySha256, requestSha256, artifactSha256⟩

def SignedTransaction.ofValue (v : Value) : Option SignedTransaction := do
  guard (onlyMembers v ["transaction_id", "signed_bytes_hex", "signed_bytes_sha256"])
  let transactionId ← textMember v "transaction_id"
  let signedBytesHex ← textMember v "signed_bytes_hex"
  let signedBytesSha256 ← textMember v "signed_bytes_sha256"
  pure ⟨transactionId, signedBytesHex, signedBytesSha256⟩

def ChainProof.ofValue (v : Value) : Option ChainProof := do
  guard (onlyMembers v ["transaction_id", "block_height", "block_hash", "observed_state_sha256",
    "evidence_hex", "evidence_sha256"])
  let transactionId ← textMember v "transaction_id"
  let blockHeight ← numberMember (2 ^ 64) v "block_height"
  let blockHash ← textMember v "block_hash"
  let observedStateSha256 ← textMember v "observed_state_sha256"
  let evidenceHex ← textMember v "evidence_hex"
  let evidenceSha256 ← textMember v "evidence_sha256"
  pure ⟨transactionId, UInt64.ofNat blockHeight, blockHash, observedStateSha256, evidenceHex,
    evidenceSha256⟩

def CompletionProofs.ofValue (v : Value) : Option CompletionProofs := do
  guard (onlyMembers v ["catalog_proof_sha256", "bootstrap_proof_sha256", "aliases_proof_sha256",
    "native_receipt_name", "native_receipt_hex", "native_receipt_sha256"])
  let catalogProofSha256 ← textMember v "catalog_proof_sha256"
  let bootstrapProofSha256 ← textMember v "bootstrap_proof_sha256"
  let aliasesProofSha256 ← textMember v "aliases_proof_sha256"
  let nativeReceiptName ← textMember v "native_receipt_name"
  let nativeReceiptHex ← textMember v "native_receipt_hex"
  let nativeReceiptSha256 ← textMember v "native_receipt_sha256"
  pure ⟨catalogProofSha256, bootstrapProofSha256, aliasesProofSha256, nativeReceiptName,
    nativeReceiptHex, nativeReceiptSha256⟩

def contentOf {α : Type} (v : Value) (key : String) (read : Value → Option α) : Option α := do
  let details ← member v "details"
  let content ← member details key
  read content

def DeploymentPhase.ofValue (v : Value) : Option DeploymentPhase := do
  let tag ← textMember v "phase"
  let kind ← PhaseKind.ofTag tag
  match kind with
  | .intent =>
    -- a unit variant takes no content, or a null one
    match member v "details" with
    | none | some .null => some .intent
    | some _ => none
  | .catalogPrepared =>
    (contentOf v "signed_transaction" SignedTransaction.ofValue).map .catalogPrepared
  | .catalogVerified => (contentOf v "proof" ChainProof.ofValue).map .catalogVerified
  | .bootstrapPrepared =>
    (contentOf v "signed_transaction" SignedTransaction.ofValue).map .bootstrapPrepared
  | .bootstrapVerified => (contentOf v "proof" ChainProof.ofValue).map .bootstrapVerified
  | .aliasesPrepared =>
    (contentOf v "signed_transaction" SignedTransaction.ofValue).map .aliasesPrepared
  | .aliasesVerified => (contentOf v "proof" ChainProof.ofValue).map .aliasesVerified
  | .completed => ((member v "details").bind CompletionProofs.ofValue).map .completed

def JournalEntry.ofValue (v : Value) : Option JournalEntry := do
  guard (onlyMembers v ["format", "identity", "phase"])
  let format ← numberMember (2 ^ 32) v "format"
  let identity ← (member v "identity").bind (DeploymentIdentity.ofValue F)
  let phase ← (member v "phase").bind DeploymentPhase.ofValue
  pure ⟨UInt32.ofNat format, identity, phase⟩

def ChunkManifest.ofValue (v : Value) : Option ChunkManifest := do
  guard (onlyMembers v ["format", "identity", "phase", "payload_sha256", "payload_bytes",
    "chunks"])
  let format ← numberMember (2 ^ 32) v "format"
  let identity ← (member v "identity").bind (DeploymentIdentity.ofValue F)
  let phase ← textMember v "phase"
  let payloadSha256 ← textMember v "payload_sha256"
  let payloadBytes ← numberMember wordSize v "payload_bytes"
  let chunks ← numberMember wordSize v "chunks"
  pure ⟨UInt32.ofNat format, identity, phase, payloadSha256, payloadBytes, chunks⟩

def ChunkDocument.ofValue (v : Value) : Option ChunkDocument := do
  guard (onlyMembers v ["format", "identity", "phase", "index", "chunks", "payload_sha256",
    "data_hex", "data_sha256"])
  let format ← numberMember (2 ^ 32) v "format"
  let identity ← (member v "identity").bind (DeploymentIdentity.ofValue F)
  let phase ← textMember v "phase"
  let index ← numberMember wordSize v "index"
  let chunks ← numberMember wordSize v "chunks"
  let payloadSha256 ← textMember v "payload_sha256"
  let dataHex ← textMember v "data_hex"
  let dataSha256 ← textMember v "data_sha256"
  pure ⟨UInt32.ofNat format, identity, phase, index, chunks, payloadSha256, dataHex, dataSha256⟩

@[simp] theorem scopeOf_scopeJson (scope : MutationReceiptScope) :
    scopeOf (valueOf (scopeJson scope)) = some scope := by
  simp [scopeOf, scopeJson, onlyMembers_valueOf, textMember, List.lookup]

@[simp] theorem DeploymentIdentity.ofValue_toJson (identity : DeploymentIdentity) :
    ofValue F (valueOf (identity.toJson F)) = some identity := by
  simp [ofValue, toJson, onlyMembers_valueOf, textMember, List.lookup, F.parseUuid_text]

@[simp] theorem SignedTransaction.ofValue_toJson (t : SignedTransaction) :
    ofValue (valueOf t.toJson) = some t := by
  simp [ofValue, toJson, onlyMembers_valueOf, textMember, List.lookup]

@[simp] theorem ChainProof.ofValue_toJson (p : ChainProof) :
    ofValue (valueOf p.toJson) = some p := by
  simp [ofValue, toJson, onlyMembers_valueOf, textMember, numberMember, List.lookup,
    number_num p.blockHeight.toNat_lt]

@[simp] theorem CompletionProofs.ofValue_toJson (p : CompletionProofs) :
    ofValue (valueOf p.toJson) = some p := by
  simp [ofValue, toJson, onlyMembers_valueOf, textMember, List.lookup]

@[simp] theorem DeploymentPhase.ofValue_toJson (phase : DeploymentPhase) :
    ofValue (valueOf phase.toJson) = some phase := by
  cases phase <;>
    simp [ofValue, toJson, details, kind, PhaseKind.tag, PhaseKind.ofTag, PhaseKind.order,
      textMember, contentOf, List.lookup]

@[simp] theorem JournalEntry.ofValue_toJson (entry : JournalEntry) :
    ofValue F (valueOf (entry.toJson F)) = some entry := by
  simp [ofValue, toJson, onlyMembers_valueOf, numberMember, List.lookup,
    number_num entry.format.toNat_lt]

theorem ChunkManifest.ofValue_toJson (hb : m.payloadBytes < wordSize)
    (hc : m.chunks < wordSize) : ofValue F (valueOf (m.toJson F)) = some m := by
  simp [ofValue, toJson, onlyMembers_valueOf, textMember, numberMember, List.lookup,
    number_num m.format.toNat_lt, number_num hb, number_num hc]

theorem ChunkDocument.ofValue_toJson (hi : c.index < wordSize)
    (hc : c.chunks < wordSize) : ofValue F (valueOf (c.toJson F)) = some c := by
  simp [ofValue, toJson, onlyMembers_valueOf, textMember, numberMember, List.lookup,
    number_num c.format.toNat_lt, number_num hi, number_num hc]

/-! Documents of the journal. -/

def toVec (entry : JournalEntry) : List UInt8 := encode (entry.toJson F)

def proofDigest (proof : ChainProof) : String := digest F (encode proof.toJson)

def documentId (operationId : Uuid) (phase : PhaseKind) : String :=
  "dpn-taira-v1/" ++ F.uuidText operationId ++ "/" ++ phase.slug

def threeDigits (n : ℕ) : String :=
  String.ofList (List.replicate (3 - (Nat.repr n).toList.length) '0') ++ Nat.repr n

def chunkId (operationId : Uuid) (phase : PhaseKind) (index : ℕ) : String :=
  documentId F operationId phase ++ "/chunk-" ++ threeDigits index

def JournalEntry.documentId (entry : JournalEntry) : String :=
  JournalRecords.documentId F entry.identity.operationId entry.phase.kind

def putBatch (collection id : String) (body : Value) : MutationBatch :=
  { idempotencyKey := id
    readSet := []
    operations := [.put collection id body .absent] }

/-- The batch of an entry that is stored in its phase document. The source measures the text
of the value, which has the members in another order and so the same length. -/
def JournalEntry.mutation (entry : JournalEntry) (collection : String) :
    Except JournalError MutationBatch := do
  entry.validate F
  name collection "journal collection"
  failWhen (size (entry.toJson F) > inlineEntryBytes)
    (.invalid "entry requires chunked journal storage")
  pure (putBatch collection (entry.documentId F) (valueOf (entry.toJson F)))

def boundedBody (record : Json) : Except JournalError Value := do
  failWhen (size record > requiredMaxDocumentBytes)
    (.invalid "journal document exceeds required Kasumi limit")
  pure (valueOf record)

def chunkCount (bytes : ℕ) : ℕ := (bytes + chunkBytes - 1) / chunkBytes

def payloadChunk (payload : List UInt8) (index : ℕ) : List UInt8 :=
  (payload.drop (index * chunkBytes)).take chunkBytes

def chunkManifest (entry : JournalEntry) (payload : List UInt8) : ChunkManifest :=
  { format := 1
    identity := entry.identity
    phase := entry.phase.kind.slug
    payloadSha256 := digest F payload
    payloadBytes := payload.length
    chunks := chunkCount payload.length }

def chunkDocument (entry : JournalEntry) (payload : List UInt8) (index : ℕ) : ChunkDocument :=
  { format := 1
    identity := entry.identity
    phase := entry.phase.kind.slug
    index := index
    chunks := chunkCount payload.length
    payloadSha256 := digest F payload
    dataHex := HexText.encode (payloadChunk payload index)
    dataSha256 := digest F (payloadChunk payload index) }

def storedChunk (entry : JournalEntry) (payload : List UInt8) (index : ℕ) :
    Except JournalError (String × Value) := do
  let body ← boundedBody ((chunkDocument F entry payload index).toJson F)
  pure (chunkId F entry.identity.operationId entry.phase.kind index, body)

def chunkedStorage (entry : JournalEntry) (collection : String) (payload : List UInt8) :
    Except JournalError (MutationBatch × List (String × Value)) := do
  let chunks := chunkCount payload.length
  failWhen (chunks == 0 || chunks > maxChunks)
    (.invalid "journal payload exceeds chunked storage envelope")
  let manifest ← boundedBody ((chunkManifest F entry payload).toJson F)
  let documents ← (List.range chunks).mapM (storedChunk F entry payload)
  pure (putBatch collection (entry.documentId F) manifest, documents)

def checkPair (entries : List JournalEntry) (prepared verified : ℕ) : Except JournalError Unit :=
  match entries[verified]? with
  | none => .ok ()
  | some entry =>
    match (entries[prepared]?).bind fun e => e.phase.signedTransaction, entry.phase.proof with
    | some t, some p => failWhen (p.transactionId != t.transactionId) .inconsistent
    | _, _ => .error .inconsistent

def checkLinked (entries : List JournalEntry) (proofSha256 : String) (verified : ℕ) :
    Except JournalError Unit :=
  match (entries[verified]?).bind fun e => e.phase.proof with
  | none => .error .inconsistent
  | some p => failWhen (proofSha256 != proofDigest F p) .inconsistent

def checkCompletion (entries : List JournalEntry) : Except JournalError Unit :=
  match (entries[7]?).map JournalEntry.phase with
  | some (.completed proofs) => do
    checkLinked F entries proofs.catalogProofSha256 2
    checkLinked F entries proofs.bootstrapProofSha256 4
    checkLinked F entries proofs.aliasesProofSha256 6
  | _ => .ok ()

def validateSequence (entries : List JournalEntry) : Except JournalError Unit := do
  failWhen (entries.length > PhaseKind.order.length) .inconsistent
  failWhen ((entries.zip PhaseKind.order).any fun e => e.1.phase.kind != e.2) .inconsistent
  checkPair entries 1 2
  checkPair entries 3 4
  checkPair entries 5 6
  checkCompletion F entries

end JournalRecords
