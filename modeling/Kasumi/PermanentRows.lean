import Kasumi.ChainTable
import Kasumi.Staging

/-! Permanent rows: the outcomes of staged transactions and the receipts of ordinary
mutations. Each kind is an append-only table of chained rows under a head that selects a
prefix. A row stored beyond the head is no evidence that its command was applied; an exact
replay of the command finds it and advances over it. -/
namespace PermanentRows

open TenantTypes TenantAccess Staging

/-- Why a command publishes nothing on this replica: an error of the model's own kind, a
failed internal check or a failure of the local document source. -/
inductive Failure where
  | error (e : Error)
  | message (text : String)
  | source
  deriving DecidableEq

def ensure (condition : Bool) (text : String) : Except Failure Unit :=
  if condition then .ok () else .error (.message text)

def context {α : Type} (text : String) : Option α → Except Failure α
  | some a => .ok a
  | none => .error (.message text)

/-- The source converts an ordinary error into an outer failure with `?`. -/
def lift {α : Type} : Except Error α → Except Failure α
  | .ok a => .ok a
  | .error e => .error (.error e)

def chained {α : Type} : Except String α → Except Failure α
  | .ok a => .ok a
  | .error text => .error (.message text)

def terminalError : Failure → Error
  | .error e => e
  | .message text => ⟨.corruption, text⟩
  | .source => ⟨.corruption, "selected document resolver missing"⟩

def maxRowBytes : ℕ := 2 * mib

namespace AppliedIdentity

def validate (applied : AppliedIdentity) : Except Failure Unit := do
  lift (validateName applied.incarnation)
  ensure (0 < applied.revision && validDigest applied.commandSha256)
    "invalid terminal applied identity"
  ensure (0 < applied.index && applied.index ≤ applied.revision &&
    validDigest applied.contextSha256) "invalid terminal Raft binding"

/-- The genesis revision of the incarnation a row was applied in, and the last revision of it
that the state retains. -/
def bounds (applied : AppliedIdentity) (state : TenantState) : Except Failure (ℕ × ℕ) :=
  if applied.incarnation = state.incarnation then .ok (state.revisionBase, state.revision)
  else do
    let last ← context "terminal applied incarnation is outside retained lineage"
      (state.restoreLineage.find? fun link =>
        link.checkpoint.sourceIncarnation = applied.incarnation)
    match state.restoreLineage.find? fun link => link.targetIncarnation = applied.incarnation with
    | none => pure (0, last.checkpoint.revision)
    | some link => do
      let genesis ← context "terminal applied genesis revision overflow"
        (checkedAdd link.checkpoint.revision 1)
      pure (genesis, last.checkpoint.revision)

/-- Validate an immutable applied position against the retained original incarnation. -/
def validateOriginalPosition (applied : AppliedIdentity) (state : TenantState) :
    Except Failure (ℕ × ℕ) := do
  validate applied
  let position ← bounds applied state
  ensure (applied.revision > position.1 && applied.revision ≤ position.2)
    "terminal applied revision is outside its original incarnation"
  ensure (checkedAdd position.1 applied.index = some applied.revision)
    "terminal Raft position differs from original incarnation revision"
  pure position

end AppliedIdentity

variable {Idx Acc : Type} (X : Externals Idx Acc)

def emptyTerminalHead (tenant incarnation : String) : StagedTerminalHead :=
  ⟨incarnation, 0, 0, X.sha (.terminalRoot tenant incarnation)⟩

structure TerminalView where
  table : ChainTable.Table TerminalRow
  head : StagedTerminalHead

/-- Terminal rows chain from the root of the history's original incarnation. -/
def terminalLayout (origin : String) : ChainTable.Layout TerminalRow :=
  { noun := "terminal"
    point := "staged"
    key := TerminalRow.key
    ordinal := TerminalRow.ordinal
    parent := TerminalRow.previousSha256
    digest := fun row => X.sha (.terminalRow row)
    root := fun row => X.sha (.terminalRoot row.stage.scope.tenant origin)
    atHead := fun _ => true
    valid := validDigest }

def TerminalView.get (view : TerminalView) (key : String) : Except Failure (Option TerminalRow) :=
  chained (ChainTable.get (terminalLayout X view.head.originIncarnation) view.table view.head.count
    view.head.sha256 key)

def TerminalRow.framedBytes (row : TerminalRow) : Except Failure ℕ := do
  ensure (X.len (.terminalRow row) ≤ maxRowBytes) "terminal row exceeds canonical record budget"
  context "terminal row length overflow" (checkedAdd (X.len (.terminalRow row)) frameHeaderBytes)

def terminalReceipt : StagedOutcome → Option WriteReceipt
  | .finished (.ok receipt) => some receipt
  | .aborted receipt => some receipt
  | .expired receipt => some receipt
  | _ => none

def TerminalRow.validate (row : TerminalRow) (state : TenantState) : Except Failure Unit := do
  ensure (0 < row.ordinal && validDigest row.key && validDigest row.previousSha256)
    "invalid terminal chain identity"
  AppliedIdentity.validate row.applied
  ensure (!row.stage.isActive && row.stage.chunks.size = 0) "terminal row contains a live upload"
  let live ← lift (validateSnapshotRecord X row.key row.stage state noChunks)
  ensure (!live) "terminal row contains a live upload"
  let _ ← AppliedIdentity.validateOriginalPosition row.applied state
  ensure ((terminalReceipt row.stage.outcome).all fun receipt =>
    receipt.revision = row.applied.revision)
    "terminal receipt differs from original applying revision"
  let _ ← TerminalRow.framedBytes X row
  pure ()

def advanceTerminal (head : StagedTerminalHead) (row : TerminalRow) :
    Except Failure StagedTerminalHead := do
  let next ← context "terminal ordinal exhausted" (checkedAdd head.count 1)
  ensure (row.ordinal = next && row.previousSha256 = head.sha256)
    "terminal row is not the next committed prefix"
  let bytes ← TerminalRow.framedBytes X row
  let encoded ← context "terminal permanent byte overflow" (checkedAdd head.encodedBytes bytes)
  pure { head with
    encodedBytes := encoded
    count := row.ordinal
    sha256 := X.sha (.terminalRow row) }

structure TerminalPending where
  head : StagedTerminalHead
  rows : List TerminalRow

def checkReservation (previous : TenantState) (key : String) (rowBytes : ℕ) :
    Except Failure Unit :=
  match previous.stagedTransactions.get key with
  | none => .ok ()
  | some active => do
    let charge ← lift (permanentCharge X key active)
    ensure (active.isActive && (checkedAdd charge.1 charge.2).any fun capacity =>
      rowBytes ≤ capacity) "terminal envelope exceeds its original Begin reservation"

def moveNew (previous : TenantState) (applied : AppliedIdentity) (next : TenantState)
    (pending : TerminalPending) (key : String) (stage : StagedTransaction) :
    Except Failure (TenantState × TerminalPending) := do
  let headerBytes ← lift (stagedHeader X key stage)
  let ordinal ← context "terminal ordinal exhausted" (checkedAdd pending.head.count 1)
  let row : TerminalRow := ⟨ordinal, key, pending.head.sha256, applied, stage⟩
  TerminalRow.validate X row next
  let rowBytes ← TerminalRow.framedBytes X row
  checkReservation X previous key rowBytes
  let permanent ← context "terminal row accounting overflow"
    ((checkedSub next.permanentStagedBytes headerBytes).bind fun n => checkedAdd n rowBytes)
  let head ← advanceTerminal X pending.head row
  pure ({ next with permanentStagedBytes := permanent }, ⟨head, pending.rows ++ [row]⟩)

/-- Take one ended record out of the resident map. A record of the history stays the row it
is; any other gets the next one. -/
def moveOne (view : TerminalView) (previous : TenantState) (applied : AppliedIdentity)
    (next : TenantState) (pending : TerminalPending) (key : String) :
    Except Failure (TenantState × TerminalPending) := do
  let stage ← context "terminal overlay row missing" (next.stagedTransactions.get key)
  let next := { next with stagedTransactions := next.stagedTransactions.remove key }
  match ← TerminalView.get X view key with
  | some existing => do
    ensure (X.sha (.stage existing.stage) = X.sha (.stage stage) &&
      X.len (.stage existing.stage) = X.len (.stage stage)) "permanent terminal outcome changed"
    pure (next, pending)
  | none => moveNew X previous applied next pending key stage

def moveEach (view : TerminalView) (previous : TenantState) (applied : AppliedIdentity) :
    List String → TenantState → TerminalPending → Except Failure (TenantState × TerminalPending)
  | [], next, pending => .ok (next, pending)
  | key :: keys, next, pending => do
    let moved ← moveOne X view previous applied next pending key
    moveEach view previous applied keys moved.1 moved.2

def endedKeys (state : TenantState) : List String :=
  (state.stagedTransactions.entries.filter fun entry => !entry.2.isActive).map Prod.fst

def maxEndedKeys : ℕ := 65

def prepareTerminals (view : TerminalView) (previous next : TenantState)
    (applied : AppliedIdentity) : Except Failure (TenantState × TerminalPending) := do
  ensure (view.head = previous.stagedTerminalHead && next.stagedTerminalHead = view.head)
    "terminal starting prefix differs"
  ensure ((endedKeys next).length ≤ maxEndedKeys)
    "terminal apply overlay exceeds bounded active set"
  let moved ← moveEach X view previous applied (endedKeys next) next ⟨view.head, []⟩
  pure ({ moved.1 with stagedTerminalHead := moved.2.head }, moved.2)

def TerminalPending.get (pending : TerminalPending) (view : TerminalView) (key : String) :
    Except Failure (Option StagedTransaction) :=
  match pending.rows.find? fun row => row.key = key with
  | some row => .ok (some row.stage)
  | none => do
    let row ← TerminalView.get X view key
    pure (row.map TerminalRow.stage)

def TerminalView.checkHead (view : TerminalView) (tenant : String) : Except Failure Unit := do
  lift (validateName view.head.originIncarnation)
  ensure (validDigest view.head.sha256) "invalid terminal head digest"
  if view.head.count = 0 then do
    lift (validateName tenant)
    ensure (view.head = emptyTerminalHead X tenant view.head.originIncarnation)
      "nonempty terminal accounting without rows"
  else do
    ensure (0 < view.head.encodedBytes) "terminal physical prefix differs from selected root"
    let last ← chained (ChainTable.indexAt (terminalLayout X view.head.originIncarnation)
      view.table view.head.count view.head.count)
    ensure (last.2 = view.head.sha256) "terminal physical prefix differs from selected root"

def stageTerminals (view : TerminalView) (pending : TerminalPending) :
    Except Failure TerminalView :=
  match pending.rows with
  | [] => .ok view
  | first :: _ => do
    let table ← chained (ChainTable.stageRows (terminalLayout X view.head.originIncarnation)
      view.table pending.rows)
    let staged : TerminalView := ⟨table, pending.head⟩
    TerminalView.checkHead X staged first.stage.scope.tenant
    pure staged

def emptyReceiptHead (tenant incarnation : String) : MutationReceiptHead :=
  ⟨incarnation, 0, 0, 0, X.sha (.receiptRoot tenant incarnation)⟩

structure ReceiptView where
  table : ChainTable.Table ReceiptRow
  head : MutationReceiptHead

/-- Receipt rows chain from the root of the history's original incarnation, and the last one
carries the revision the head names. -/
def receiptLayout (origin : String) (lastAppliedRevision : ℕ) : ChainTable.Layout ReceiptRow :=
  { noun := "receipt"
    point := "mutation receipt"
    key := ReceiptRow.key
    ordinal := ReceiptRow.ordinal
    parent := ReceiptRow.previousSha256
    digest := fun row => X.sha (.receiptRow row)
    root := fun row => X.sha (.receiptRoot row.receipt.scope.tenant origin)
    atHead := fun row => row.applied.revision = lastAppliedRevision
    valid := validDigest }

def ReceiptView.layout (view : ReceiptView) : ChainTable.Layout ReceiptRow :=
  receiptLayout X view.head.originIncarnation view.head.lastAppliedRevision

def ReceiptView.get (view : ReceiptView) (key : String) : Except Failure (Option ReceiptRow) :=
  chained (ChainTable.get (ReceiptView.layout X view) view.table view.head.count view.head.sha256 key)

def ReceiptRow.framedBytes (row : ReceiptRow) : Except Failure ℕ := do
  ensure (X.len (.receiptRow row) ≤ maxRowBytes) "receipt exceeds canonical per-record budget"
  context "receipt canonical length overflow"
    (checkedAdd (X.len (.receiptRow row)) frameHeaderBytes)

def StoredReceipt.validateIdentity (receipt : StoredReceipt) (key tenant : String)
    (genesis maximum : ℕ) : Except Error Unit := do
  validateName receipt.scope.tenant
  validateName receipt.scope.incarnation
  validateName receipt.scope.principal
  validateName receipt.idempotencyKey
  validateSha256 receipt.requestDigest
  require (!(receipt.scope.tenant ≠ tenant ||
    X.sha (.identity receipt.scope.principal receipt.idempotencyKey) ≠ key ||
    receipt.recordedRevision ≤ genesis || receipt.recordedRevision > maximum ||
    match receipt.outcome with
    | .ok r => r.revision ≠ receipt.recordedRevision
    | .error _ => false)) .corruption "receipt original identity or position differs"

def checkCollections : Option String → List String → Except Failure Unit
  | _, [] => .ok ()
  | previous, collection :: rest => do
    lift (validateName collection)
    ensure (previous.all fun old => old < collection) "receipt collections are not canonical"
    checkCollections (some collection) rest

def decodeEscapes : List Char → Except Failure (List Char)
  | [] => .ok []
  | '/' :: _ => .error (.message "receipt path has an extra segment")
  | '~' :: '0' :: rest => do
    let decoded ← decodeEscapes rest
    pure ('~' :: decoded)
  | '~' :: '1' :: rest => do
    let decoded ← decodeEscapes rest
    pure ('/' :: decoded)
  | '~' :: _ => .error (.message "receipt path escape is not canonical")
  | c :: rest => do
    let decoded ← decodeEscapes rest
    pure (c :: decoded)

def decodePathSegment (segment : List Char) : Except Failure String := do
  let decoded ← decodeEscapes segment
  lift (validateName (String.ofList decoded))
  pure (String.ofList decoded)

def pathCollection (path : String) : Except Failure String :=
  match path.toList with
  | '/' :: rest =>
    if rest.contains '/' then do
      let collection ← decodePathSegment (rest.takeWhile (· ≠ '/'))
      let _ ← decodePathSegment ((rest.dropWhile (· ≠ '/')).drop 1)
      pure collection
    else .error (.message "receipt path lacks document segment")
  | _ => .error (.message "receipt path lacks root slash")

def versionCollections (revision : ℕ) : List (String × ℕ) → Except Failure (List String)
  | [] => .ok []
  | (path, version) :: rest => do
    ensure (path.utf8ByteSize ≤ 1026 && version = revision) "receipt document version differs"
    let collection ← pathCollection path
    let collections ← versionCollections revision rest
    pure (collection :: collections)

def checkVersions (receipt : StoredReceipt) (revision : ℕ) : Except Failure Unit :=
  match receipt.outcome with
  | .error _ => .ok ()
  | .ok outcome => do
    ensure (0 < outcome.versions.size && outcome.versions.size ≤ 256)
      "receipt version count exceeds per-operation bound"
    let collections ← versionCollections revision outcome.versions.entries
    ensure ((OrdSet.ofList collections).keys = receipt.collections)
      "receipt versions and authorized collection set differ"

def ReceiptRow.validate (row : ReceiptRow) (state : TenantState) : Except Failure ℕ := do
  ensure (0 < row.ordinal && validDigest row.key && validDigest row.previousSha256)
    "receipt chain identity differs"
  let position ← AppliedIdentity.validateOriginalPosition row.applied state
  lift (StoredReceipt.validateIdentity X row.receipt row.key state.tenant position.1 position.2)
  ensure (row.receipt.scope.incarnation = row.applied.incarnation &&
    row.receipt.recordedRevision = row.applied.revision)
    "receipt original scope differs from its applying command"
  ensure (!row.receipt.collections.isEmpty && row.receipt.collections.length ≤ 256)
    "receipt collection count exceeds per-operation bound"
  checkCollections none row.receipt.collections
  checkVersions row.receipt row.applied.revision
  ReceiptRow.framedBytes X row

def advanceReceipt (head : MutationReceiptHead) (row : ReceiptRow) (framedBytes : ℕ) :
    Except Failure MutationReceiptHead := do
  let next ← context "receipt ordinal exhausted" (checkedAdd head.count 1)
  ensure (row.ordinal = next && row.previousSha256 = head.sha256 &&
    row.applied.revision > head.lastAppliedRevision) "receipt row is not the next committed prefix"
  let encoded ← context "receipt permanent byte overflow" (checkedAdd head.encodedBytes framedBytes)
  pure { head with
    encodedBytes := encoded
    count := row.ordinal
    lastAppliedRevision := row.applied.revision
    sha256 := X.sha (.receiptRow row) }

/-- At most one receipt arises from one ordered mutation. -/
structure ReceiptPending where
  head : MutationReceiptHead
  row : ReceiptRow

def prepareReceipt (view : ReceiptView) (state : TenantState) (receipt : StoredReceipt)
    (absent : String) (applied : AppliedIdentity) : Except Failure ReceiptPending := do
  ensure (view.head = state.mutationReceiptHead) "receipt starting prefix differs"
  let key := X.sha (.identity receipt.scope.principal receipt.idempotencyKey)
  ensure (absent = key) "cannot rewrite permanent receipt"
  let ordinal ← context "receipt ordinal overflow" (checkedAdd view.head.count 1)
  let row : ReceiptRow := ⟨ordinal, key, view.head.sha256, applied, receipt⟩
  let framedBytes ← ReceiptRow.validate X row state
  let head ← advanceReceipt X view.head row framedBytes
  ensure (head.encodedBytes ≤ state.limits.maxMutationReceiptBytes)
    "receipt byte admission was not reserved"
  pure ⟨head, row⟩

def ReceiptView.checkHead (view : ReceiptView) (tenant : String) : Except Failure Unit := do
  lift (validateName view.head.originIncarnation)
  ensure (validDigest view.head.sha256) "invalid receipt head digest"
  if view.head.count = 0 then do
    lift (validateName tenant)
    ensure (view.head = emptyReceiptHead X tenant view.head.originIncarnation)
      "nonempty receipt accounting without rows"
  else do
    ensure (0 < view.head.encodedBytes && 0 < view.head.lastAppliedRevision)
      "receipt physical prefix differs from selected root"
    let last ← chained (ChainTable.indexAt (ReceiptView.layout X view) view.table view.head.count
      view.head.count)
    ensure (last.2 = view.head.sha256) "receipt physical prefix differs from selected root"

def stageReceipt (view : ReceiptView) (pending : ReceiptPending) : Except Failure ReceiptView := do
  let table ← chained (ChainTable.stageRow (ReceiptView.layout X view) view.table pending.row)
  let staged : ReceiptView := ⟨table, pending.head⟩
  ReceiptView.checkHead X staged pending.row.receipt.scope.tenant
  pure staged

end PermanentRows
