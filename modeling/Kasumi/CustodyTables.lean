import Kasumi.CustodyReducer
import Kasumi.PermanentRows

/-! Custody of a retired source in point records: a small head with the policy and the running
totals, one row for each receipt and one for each audit event. A command reads the head and
the one receipt of its identity, runs the closed reducer on them and writes the new head, the
event and a new receipt together with the applied position. A snapshot collects the rows into
scratch tables and checks them against the head. Rows are records: a stored row is the
canonical encoding of its record and decodes to it. -/
namespace CustodyTables

open TenantTypes TenantAccess JsonText CustodyReducer PermanentRows

def headBytes : ℕ := 2 * mib

def recordBytes : ℕ := 64 * 1024

def maxCustodyCommandBytes : ℕ := 256 * 1024

structure CustodyHead where
  version : ℕ
  policy : CustodyState
  commands : ℕ
  audit : ℕ
  historyBytes : ℕ

def policy (state : CustodyState) : CustodyState :=
  { state with
    commands := OrdMap.empty
    audit := [] }

def encodingError : Error := ⟨.corruption, "custody point record encoding failed"⟩

def orQuota {α : Type} : Option α → Except Error α :=
  orError .quotaExceeded "custody history budget exhausted"

def encodedLen (value : Json) : Except Error ℕ :=
  if size value < wordSize then pure (size value) else .error encodingError

def commandBytes (receipt : CustodyReceipt) : Except Error ℕ := do
  let length ← encodedLen (.obj [(receipt.commandId, receiptJson receipt)])
  orError encodingError.code encodingError.message (checkedSub length 2)

def addCommands : ℕ → List CustodyReceipt → Except Error ℕ
  | total, [] => pure total
  | total, receipt :: rest => do
    let bytes ← commandBytes receipt
    let total ← orQuota (checkedAdd total bytes)
    addCommands total rest

def addEvents : ℕ → List CustodyAudit → Except Error ℕ
  | total, [] => pure total
  | total, event :: rest => do
    let bytes ← encodedLen (eventJson event)
    let total ← orQuota (checkedAdd total bytes)
    addEvents total rest

section Head

variable {Idx Acc : Type} (X : CustodyExternals Idx Acc)

def headJson (head : CustodyHead) : Json :=
  .obj [("version", .num head.version), ("policy", stateJson X head.policy),
    ("commands", .num head.commands), ("audit", .num head.audit),
    ("history_bytes", .num head.historyBytes)]

def CustodyHead.validate (head : CustodyHead) : Except Error Unit := do
  require (!(head.version ≠ 1 || head.policy.commands.size ≠ 0 || head.policy.audit ≠ [] ||
    head.commands > head.audit || (head.audit = 0) ≠ (head.commands = 0) ||
    (head.commands = 0) ≠ (head.historyBytes = 0))) .corruption
    "unsupported custody point table head"
  head.policy.validate X
  let bytes ← encodedLen (stateJson X head.policy)
  let total ← orQuota (checkedAdd bytes head.historyBytes)
  require (total ≤ head.policy.limits.maxStateBytes) .quotaExceeded
    "custody history budget exhausted"

def CustodyHead.fromState (state : CustodyState) : Except Error CustodyHead := do
  state.validate X
  let bytes ← addCommands 0 state.commands.values
  let bytes ← addEvents bytes state.audit
  let commands := state.commands.size
  let audit := state.audit.length
  let bytes ← orQuota ((checkedAdd bytes (commands - 1)).bind (checkedAdd · (audit - 1)))
  let head : CustodyHead :=
    { version := 1, policy := CustodyTables.policy state, commands := commands, audit := audit,
      historyBytes := bytes }
  head.validate X
  pure head

def comma (count : ℕ) : ℕ := if count ≠ 0 then 1 else 0

def CustodyHead.select (head : CustodyHead) (request : CustodyRequest) :
    Option CustodyReceipt → Except Error CustodyState
  | none => pure head.policy
  | some prior => do
    prior.validate
    require (!(prior.commandId ≠ request.commandId || prior.revision > head.policy.revision ||
      prior.policyEpoch > head.policy.policyEpoch)) .corruption "custody point receipt differs"
    pure { head.policy with commands := head.policy.commands.insert prior.commandId prior }

def CustodyHead.addReceipt (head : CustodyHead) (fresh : Bool) (receipt : CustodyReceipt)
    (bytes : ℕ) : Except Error ℕ :=
  if fresh then do
    let receiptBytes ← commandBytes receipt
    orQuota ((checkedAdd bytes receiptBytes).bind (checkedAdd · (comma head.commands)))
  else pure bytes

def CustodyHead.apply (head : CustodyHead) (prior : Option CustodyReceipt)
    (context : RequestContext) (request : CustodyRequest) (admittedAtMs revision : ℕ) :
    Except Error (CustodyHead × CustodyReceipt × CustodyAudit) := do
  head.validate X
  let fresh := prior.isNone
  let selected ← head.select request prior
  let (candidate, receipt) ← selected.apply X context request admittedAtMs revision
  let event ← orError encodingError.code encodingError.message candidate.audit.getLast?
  let eventBytes ← encodedLen (eventJson event)
  let bytes ← orQuota ((checkedAdd head.historyBytes eventBytes).bind
    (checkedAdd · (comma head.audit)))
  let bytes ← head.addReceipt fresh receipt bytes
  let commands ← orQuota (checkedAdd head.commands (if fresh then 1 else 0))
  let audit ← orQuota (checkedAdd head.audit 1)
  let next : CustodyHead :=
    { version := 1, policy := CustodyTables.policy candidate, commands := commands, audit := audit,
      historyBytes := bytes }
  next.validate X
  pure (next, receipt, event)

end Head

structure LogId where
  term : ℕ
  nodeId : ℕ
  index : ℕ
  deriving DecidableEq

structure AppliedPosition where
  logId : LogId
  previous : Option LogId
  commandSha256 : String

inductive AppliedCursor where
  | entry (position : AppliedPosition)
  | snapshot (lastLogId : Option LogId)

def AppliedCursor.logId : AppliedCursor → Option LogId
  | .entry position => some position.logId
  | .snapshot lastLogId => lastLogId

structure AppliedEntryContext where
  logId : LogId
  previous : Option LogId
  commandSha256 : String
  retirementSeed : Bool

def AppliedEntryContext.record (position : AppliedEntryContext) : AppliedPosition :=
  ⟨position.logId, position.previous, position.commandSha256⟩

structure RetiredBoundary where
  position : AppliedPosition
  request : RetireSourceRequest
  receipt : RetirementReceipt
  seedSha256 : String

/-- The custody rows of one replica. `control` stands for the rows of the consensus log that
a custody command reads to validate the boundary and never writes. -/
structure CustodyStore (Control : Type) where
  control : Control
  boundary : Option RetiredBoundary
  head : Option CustodyHead
  applied : Option AppliedCursor
  commands : OrdMap String CustodyReceipt
  audit : OrdMap ℕ CustodyAudit

structure CustodyCommand where
  context : RequestContext
  admittedAtMs : ℕ
  request : CustodyRequest

def actionText : Action → String
  | .read => "read"
  | .write => "write"
  | .admin => "admin"
  | .audit => "audit"

def bounded {α : Type} (limit : ℕ) (length : α → ℕ) : Option α → Except Failure (Option α)
  | none => pure none
  | some row => do
    ensure (length row ≤ limit) "stored value exceeds read limit"
    pure (some row)

section Store

variable {Idx Acc Control : Type} (X : CustodyExternals Idx Acc)

def resourceJson : CredentialResource → Json
  | .database incarnation =>
    .obj [("kind", .str "database"), ("incarnation", .str (X.uuidText incarnation))]
  | .control incarnation =>
    .obj [("kind", .str "control"), ("incarnation", .str (X.uuidText incarnation))]
  | .authority authorityId part =>
    .obj [("kind", .str "authority"), ("authority_id", .str (X.uuidText authorityId)),
      ("partition", .num part)]
  | .custody incarnation =>
    .obj [("kind", .str "custody"), ("incarnation", .str (X.uuidText incarnation))]

def authorizationJson : RequestAuthorization → Json
  | .serviceIdentity => .obj [("kind", .str "service_identity")]
  | .credential expiresAtMs resource =>
    .obj [("kind", .str "credential"), ("expires_at_ms", .num expiresAtMs),
      ("resource", resourceJson X resource)]

def contextJson (context : RequestContext) : Json :=
  .obj [("authorization", authorizationJson X context.authorization),
    ("principal", .str context.principal), ("tenant", .str context.tenant),
    ("scopes", .arr (context.scopes.map fun a => .str (actionText a))),
    ("request_id", .str context.requestId)]

def commandJson (command : CustodyCommand) : Json :=
  .obj [("context", contextJson X command.context),
    ("admitted_at_ms", .num command.admittedAtMs), ("request", requestJson command.request)]

def CustodyCommand.validate (command : CustodyCommand) : Except Failure Unit := do
  lift command.request.validate
  ensure (command.context.scopes.contains .admin)
    "custody command requires administrative credential scope"
  lift (validateName command.context.tenant)
  lift (validateName command.context.principal)
  lift (validateName command.context.requestId)
  lift (checkAdmittedAt command.context.authorization command.admittedAtMs)

def CustodyCommand.encoded (command : CustodyCommand) : Except Failure (List UInt8) := do
  command.validate
  let bytes := encode (commandJson X command)
  ensure (bytes.length ≤ maxCustodyCommandBytes) "custody command quota exceeded"
  pure bytes

-- The control rows accept the boundary: its seed, its commit and its installed source.
variable (validateRetiredBoundary : Control → RetiredBoundary → Except Failure Unit)

def retiredBoundary (store : CustodyStore Control) : Except Failure (Option RetiredBoundary) := do
  match store.boundary with
  | none => pure none
  | some boundary =>
    validateRetiredBoundary store.control boundary
    pure (some boundary)

def load (store : CustodyStore Control) : Except Failure CustodyHead := do
  let row ← bounded headBytes (fun head => size (headJson X head)) store.head
  let head ← context "custody point table head absent; unsupported custody storage format" row
  lift (head.validate X)
  pure head

def custodyHead (store : CustodyStore Control) : Except Failure CustodyHead := do
  let boundary ← retiredBoundary validateRetiredBoundary store
  let boundary ← context "source is not proven retired" boundary
  let head ← load X store
  ensure (head.policy.origin.request = boundary.request &&
    head.policy.origin.receipt = boundary.receipt)
    "custody point table retirement binding differs"
  pure head

def CustodyHead.write (head : CustodyHead) : Except Failure CustodyHead := do
  lift (head.validate X)
  ensure (size (headJson X head) ≤ headBytes) "custody policy head exceeds record bound"
  pure head

/-- What the committed retirement seed says of its source: the base of its revisions and its
administrators. -/
structure SeedSource where
  revisionBase : ℕ
  administrators : OrdSet String

def retiredOrigin (boundary : RetiredBoundary) (source : SeedSource) : RetiredSnapshotState :=
  { revisionBase := source.revisionBase, revision := boundary.receipt.revision,
    policyEpoch := boundary.receipt.policyEpoch, administrators := source.administrators,
    request := boundary.request, receipt := boundary.receipt }

def retire (control : Control) (boundary : RetiredBoundary) (source : SeedSource) :
    Except Failure (CustodyStore Control) := do
  let state ← lift (CustodyState.new X (retiredOrigin boundary source) .default)
  let head ← lift (CustodyHead.fromState X state)
  let row ← head.write X
  pure { control := control, boundary := some boundary, head := some row,
         applied := some (.entry boundary.position), commands := OrdMap.empty,
         audit := OrdMap.empty }

def transitionWrites (store : CustodyStore Control) (head : CustodyHead)
    (receipt : CustodyReceipt) (event : CustodyAudit) :
    Except Failure (CustodyStore Control) := do
  ensure (head.audit ≠ 0 && event.revision = head.policy.revision)
    "custody audit publication position differs"
  ensure (size (eventJson event) ≤ recordBytes && size (receiptJson receipt) ≤ recordBytes)
    "custody point record exceeds bound"
  let row ← head.write X
  pure { store with
    head := some row
    audit := store.audit.insert (head.audit - 1) event
    commands :=
      if event.replay then store.commands
      else store.commands.insert receipt.commandId receipt }

def checkPosition (applied : Option AppliedCursor) (position : AppliedEntryContext) :
    Except Failure Unit := do
  let previous ← context "retired custody applied cursor absent" applied
  ensure (previous.logId = position.previous &&
    (position.previous.any fun id => id.index < position.logId.index))
    "custody command predecessor differs"

def checkCommand (position : AppliedEntryContext) (command : CustodyCommand) :
    Except Failure Unit := do
  ensure (!position.retirementSeed) "closed custody applied command differs"
  let bytes ← command.encoded X
  ensure (position.commandSha256 = X.sha256 bytes) "closed custody applied command differs"

def applyCustody (store : CustodyStore Control) (position : AppliedEntryContext)
    (command : CustodyCommand) :
    Except Failure (CustodyStore Control × Except Error CustodyReceipt) := do
  checkCommand X position command
  let head ← custodyHead X validateRetiredBoundary store
  checkPosition store.applied position
  let revision ← context "custody revision exhausted"
    (checkedAdd head.policy.origin.revisionBase position.logId.index)
  let prior ← bounded recordBytes (fun receipt => size (receiptJson receipt))
    (store.commands.get command.request.commandId)
  let store := { store with applied := some (.entry position.record) }
  match head.apply X prior command.context command.request command.admittedAtMs revision with
  | .ok (next, receipt, event) => do
    let store ← transitionWrites X store next receipt event
    pure (store, .ok receipt)
  | .error error => pure (store, .error error)

end Store

/-! Scratch tables of a snapshot. Rows enter in batches of a bounded number of entries and
bytes, which become readable when the batch is committed. -/

def maxBatchEntries : ℕ := 16

def maxBatchBytes : ℕ := 4 * mib

structure ScratchBatch (K V : Type) [LinearOrder K] where
  rows : OrdMap K V
  bytes : ℕ
  entries : ℕ

structure ScratchTable (K V : Type) [LinearOrder K] where
  rows : OrdMap K V
  batch : Option (ScratchBatch K V)

namespace ScratchTable

variable {K V : Type} [LinearOrder K]

def empty : ScratchTable K V := ⟨OrdMap.empty, none⟩

def opened (table : ScratchTable K V) : ScratchBatch K V :=
  table.batch.getD ⟨table.rows, 0, 0⟩

def insert (table : ScratchTable K V) (keyLength valueLength : ℕ) (key : K) (value : V) :
    Except Failure (ScratchTable K V) := do
  let batch := table.opened
  ensure (keyLength ≤ 4096 && valueLength ≤ 32 * mib) "staged record exceeds limit"
  let bytes ← context "staging batch byte overflow"
    ((checkedAdd batch.bytes keyLength).bind (checkedAdd · valueLength))
  ensure (bytes ≤ maxBatchBytes && batch.entries < maxBatchEntries)
    "staging batch capacity exceeded"
  ensure (!batch.rows.contains key) "duplicate staged key"
  pure { table with batch := some ⟨batch.rows.insert key value, bytes, batch.entries + 1⟩ }

def commit (table : ScratchTable K V) : ScratchTable K V := ⟨table.opened.rows, none⟩

def settle (table : ScratchTable K V) (count : ℕ) : ScratchTable K V :=
  if count % maxBatchEntries = 0 then table.commit else table

end ScratchTable

structure Builder where
  head : CustodyHead
  commandRows : ScratchTable String CustodyReceipt
  auditRows : ScratchTable ℕ CustodyAudit
  commands : ℕ
  audit : ℕ
  historyBytes : ℕ

structure Records where
  head : CustodyHead
  commands : OrdMap String CustodyReceipt
  audit : OrdMap ℕ CustodyAudit

section Snapshot

variable {Idx Acc Control : Type} (X : CustodyExternals Idx Acc)

def Builder.new (head : CustodyHead) : Except Failure Builder := do
  lift (head.validate X)
  let _ ← context "custody staging quota overflow"
    ((checkedMul head.policy.limits.maxStateBytes 8).bind (checkedAdd · (64 * mib)))
  pure { head := head, commandRows := .empty, auditRows := .empty, commands := 0, audit := 0,
         historyBytes := 0 }

def Builder.command (builder : Builder) (receipt : CustodyReceipt) : Except Failure Builder := do
  ensure (size (receiptJson receipt) ≤ recordBytes) "custody receipt record exceeds bound"
  ensure (builder.commands < builder.head.commands) "unexpected custody receipt"
  lift receipt.validate
  let policy := builder.head.policy
  ensure (receipt.revision > policy.origin.revision && receipt.revision ≤ policy.revision &&
    receipt.policyEpoch ≤ policy.policyEpoch) "custody receipt position differs"
  let bytes ← lift (commandBytes receipt)
  let total ← context "custody history byte overflow"
    ((checkedAdd builder.historyBytes bytes).bind (checkedAdd · (comma builder.commands)))
  ensure (total ≤ builder.head.historyBytes) "custody history exceeds head"
  let rows ← builder.commandRows.insert receipt.commandId.utf8ByteSize
    (size (receiptJson receipt)) receipt.commandId receipt
  let commands ← context "custody command count overflow" (checkedAdd builder.commands 1)
  pure { builder with
    historyBytes := total
    commands := commands
    commandRows := rows.settle commands }

def Builder.event (builder : Builder) (index : ℕ) (event : CustodyAudit) :
    Except Failure Builder := do
  ensure (size (eventJson event) ≤ recordBytes) "custody audit record exceeds bound"
  ensure (builder.audit < builder.head.audit) "unexpected custody audit"
  ensure (index < builder.head.audit) "custody audit sequence exceeds head"
  let total ← context "custody history byte overflow"
    ((checkedAdd builder.historyBytes (size (eventJson event))).bind
      (checkedAdd · (comma builder.audit)))
  ensure (total ≤ builder.head.historyBytes) "custody history exceeds head"
  let rows ← builder.auditRows.insert 8 (size (eventJson event)) index event
  let audit ← context "custody audit count overflow" (checkedAdd builder.audit 1)
  pure { builder with
    historyBytes := total
    audit := audit
    auditRows := rows.settle audit }

def checkEvents (head : CustodyHead) (commands : OrdMap String CustodyReceipt)
    (audit : OrdMap ℕ CustodyAudit) : List ℕ → ℕ → ℕ → Except Failure ℕ
  | [], _, originals => pure originals
  | index :: rest, previous, originals => do
    let event ← context "custody audit sequence missing" (audit.get index)
    lift (validateName event.principal)
    lift (validateName event.requestId)
    let receipt ← context "custody audit command absent" (commands.get event.commandId)
    ensure (event.revision > previous && event.revision ≤ head.policy.revision &&
      event.requestDigest = receipt.requestDigest &&
      event.policyEpoch ≤ head.policy.policyEpoch &&
      event.policyEpoch ≥ receipt.policyEpoch &&
      event.accepted = receipt.outcome.isOk) "custody audit linkage differs"
    if event.replay then do
      ensure (receipt.revision < event.revision) "custody replay precedes original receipt"
      checkEvents head commands audit rest event.revision originals
    else do
      ensure (event.revision = receipt.revision && event.principal = receipt.principal &&
        event.admittedAtMs = receipt.admittedAtMs &&
        event.policyEpoch = receipt.policyEpoch) "custody original receipt differs"
      let originals ← context "custody original count overflow" (checkedAdd originals 1)
      checkEvents head commands audit rest event.revision originals

def Builder.finish (builder : Builder) : Except Failure Records := do
  ensure (builder.commands = builder.head.commands && builder.audit = builder.head.audit &&
    builder.historyBytes = builder.head.historyBytes) "custody terminal accounting differs"
  let commands := builder.commandRows.commit.rows
  let audit := builder.auditRows.commit.rows
  let originals ← checkEvents builder.head commands audit (List.range builder.head.audit)
    builder.head.policy.origin.revision 0
  ensure (originals = builder.head.commands) "custody original receipt missing"
  pure { head := builder.head, commands := commands, audit := audit }

def captureCommands : List (String × CustodyReceipt) → Builder → Except Failure Builder
  | [], builder => pure builder
  | (key, receipt) :: rest, builder => do
    ensure (size (receiptJson receipt) ≤ recordBytes) "stored value exceeds read limit"
    ensure (key = receipt.commandId) "custody receipt key differs"
    let builder ← builder.command receipt
    captureCommands rest builder

def captureAudit : List (ℕ × CustodyAudit) → Builder → Except Failure Builder
  | [], builder => pure builder
  | (index, event) :: rest, builder => do
    ensure (size (eventJson event) ≤ recordBytes) "stored value exceeds read limit"
    let builder ← builder.event index event
    captureAudit rest builder

def capture (store : CustodyStore Control) : Except Failure Records := do
  let row ← bounded headBytes (fun head => size (headJson X head)) store.head
  let head ← context "custody point table head absent" row
  let builder ← Builder.new X head
  let builder ← captureCommands store.commands.entries builder
  let builder ← captureAudit store.audit.entries builder
  builder.finish

end Snapshot

end CustodyTables
