import Kasumi.CutLoops
import Kasumi.RaftLogTypes

/-! The Raft log store: rows of four namespaces, a purge and a commit cursor, and the two
retained endpoints that are kept in memory. Each operation reaches the rows in batches, and
each batch is one durable transaction. -/
namespace RaftLogStore

open FallibleSteps TenantTypes RaftLogTypes

structure RetainedSpan where
  first : LogId
  last : LogId
  deriving DecidableEq

inductive Bound
  | included (value : ℕ)
  | excluded (value : ℕ)
  | unbounded
  deriving DecidableEq

def Bound.start : Bound → Option ℕ
  | .included value => some value
  | .excluded value => checkedAdd value 1
  | .unbounded => some 0

def Bound.stop : Bound → Option ℕ
  | .included value => some value
  | .excluded value => checkedSub value 1
  | .unbounded => some (wordSize - 1)

/-- The retained indices within the bounds, as the first and the last of them. -/
def RetainedSpan.intersect (span : RetainedSpan) (bounds : Bound × Bound) : Option (ℕ × ℕ) := do
  let first := max (← bounds.1.start) span.first.index
  let last := min (← bounds.2.stop) span.last.index
  if first ≤ last then some (first, last) else none

def RetainedSpan.checkEndpoint (span : RetainedSpan) (id : LogId) : Except String Unit :=
  check ((id.index ≠ span.first.index || id == span.first) &&
    (id.index ≠ span.last.index || id == span.last)) "raft retained endpoint log ID mismatch"

section Spans

variable {M : Type}

def checkWindows : List (Entry M) → Except String Unit
  | a :: b :: rest => do
    check (checkedAdd a.index 1 == some b.index) "raft append contains a hole or repeated index"
    checkWindows (b :: rest)
  | _ => pure ()

def extend (previous : RetainedSpan) (first last : LogId) : RetainedSpan where
  first := if first.index ≤ previous.first.index then first else previous.first
  last := if last.index ≥ previous.last.index then last else previous.last

def including (previous : Option RetainedSpan) (entries : List (Entry M)) :
    Except String RetainedSpan := do
  let first ← demand "empty raft append chunk" entries.head?
  let last ← demand "empty raft append chunk" entries.getLast?
  checkWindows entries
  match previous with
  | none => pure ⟨first.logId, last.logId⟩
  | some previous => do
    check (decide (first.index ≤ previous.last.index + 1) &&
      decide (last.index + 1 ≥ previous.first.index)) "raft append would leave a hole"
    pure (extend previous first.logId last.logId)

structure HeaderFold where
  span : Option RetainedSpan
  count : ℕ

def HeaderFold.observeId (fold : HeaderFold) (index : ℕ) (logId : LogId) :
    Except String HeaderFold := do
  check (logId.index == index) "raft key/index mismatch"
  let span : RetainedSpan := match fold.span with
    | none => ⟨logId, logId⟩
    | some span =>
      ⟨if index < span.first.index then logId else span.first,
        if index > span.last.index then logId else span.last⟩
  pure ⟨some span, fold.count + 1⟩

def HeaderFold.finish (fold : HeaderFold) : Except String (Option RetainedSpan) :=
  match fold.span with
  | none => pure none
  | some span => do
    check (fold.count == span.last.index - span.first.index + 1) "raft log contains a hole"
    pure (some span)

def HeaderFold.observe (F : Formats M) (fold : HeaderFold) (row : ℕ × LogHeader M) :
    Except String HeaderFold := do
  row.2.validate F
  fold.observeId row.1 row.2.logId

/-- The rows come in the order of their hidden keys, which is any order at all. -/
def retainedSpan (F : Formats M) (rows : List (ℕ × LogHeader M)) :
    Except String (Option RetainedSpan) := do
  let fold ← rows.foldlM (HeaderFold.observe F) ⟨none, 0⟩
  fold.finish

end Spans

/-- What the log store asks of the rest of the node. `K` is everything else that the control
rows say: the installed identities, the first membership and the snapshot. -/
structure Node (M K : Type) extends Formats M where
  /-- Whether the application key domain is there, or only that of custody. -/
  serving : Bool
  bindInput : Entry M → Except String Unit
  validateEntry : K → Entry M → Except String Unit
  bootstrapSha256 : K → Option String
  storageBindingSha256 : K → String
  purgeReady : K → Except String Unit
  /-- The check of a retired boundary against the seed retained for it and the commit cursor. -/
  validateRetiredBoundary : K → Option LogId → LogId → RetainedSeed M → Except String Unit

structure Rows (M : Type) where
  headers : OrdMap ℕ (LogHeader M)
  seeds : OrdMap ℕ (RetainedSeed M)
  custodyLog : OrdMap ℕ Bytes
  log : OrdMap ℕ Bytes
  purged : Option LogId
  committed : Option LogId

inductive WriteOp (M : Type)
  | putHeader (index : ℕ) (header : LogHeader M)
  | putSeed (index : ℕ) (seed : RetainedSeed M)
  | putCustody (index : ℕ) (body : Bytes)
  | putLog (index : ℕ) (body : Bytes)
  | putPurged (id : LogId)
  | putCommitted (id : Option LogId)
  | deleteHeader (index : ℕ)
  | deleteSeed (index : ℕ)
  | deleteCustody (index : ℕ)
  | deleteLog (index : ℕ)

variable {M K : Type}

def Rows.apply (rows : Rows M) : WriteOp M → Rows M
  | .putHeader index header => { rows with headers := rows.headers.insert index header }
  | .putSeed index seed => { rows with seeds := rows.seeds.insert index seed }
  | .putCustody index body => { rows with custodyLog := rows.custodyLog.insert index body }
  | .putLog index body => { rows with log := rows.log.insert index body }
  | .putPurged id => { rows with purged := some id }
  | .putCommitted id => { rows with committed := id }
  | .deleteHeader index => { rows with headers := rows.headers.remove index }
  | .deleteSeed index => { rows with seeds := rows.seeds.remove index }
  | .deleteCustody index => { rows with custodyLog := rows.custodyLog.remove index }
  | .deleteLog index => { rows with log := rows.log.remove index }

def Rows.applyAll (rows : Rows M) (ops : List (WriteOp M)) : Rows M := ops.foldl Rows.apply rows

section Batches

variable (F : Formats M)

def maxRecord : ℕ := 32 * 1024 * 1024

def maxBatch : ℕ := 64 * 1024 * 1024

def maxOperations : ℕ := 65536

def WriteOp.namespaceName : WriteOp M → String
  | .putHeader .. | .deleteHeader .. => "raft.headers"
  | .putSeed .. | .deleteSeed .. => "raft.retirement-seeds"
  | .putCustody .. | .deleteCustody .. => "raft.custody-log"
  | .putLog .. | .deleteLog .. => "raft.log"
  | .putPurged .. | .putCommitted .. => "raft.meta"

/-- An index is a key of eight bytes; the cursors are keyed by their names. -/
def WriteOp.keyLength : WriteOp M → ℕ
  | .putPurged .. => "purged".utf8ByteSize
  | .putCommitted .. => "committed".utf8ByteSize
  | _ => 8

def WriteOp.valueLength : WriteOp M → ℕ
  | .putHeader _ header => (F.headerJson header).length
  | .putSeed _ seed => (F.seedJson seed).length
  | .putCustody _ body => body.length
  | .putLog _ body => body.length
  | .putPurged id => (F.logIdJson id).length
  | .putCommitted id => (F.committedJson id).length
  | _ => 0

def WriteOp.size (op : WriteOp M) : ℕ :=
  op.namespaceName.utf8ByteSize + op.keyLength + op.valueLength F

def validateRecord (op : WriteOp M) : Except String Unit := do
  check (!op.namespaceName.isEmpty && decide (op.namespaceName.utf8ByteSize ≤ 1024))
    "invalid record namespace"
  check (decide (op.keyLength ≤ 4096)) "record key exceeds 4096 bytes"
  check (decide (op.valueLength F ≤ maxRecord)) "record exceeds 32 MiB"

def validateOperations : List (WriteOp M) → ℕ → Except String ℕ
  | [], bytes => pure bytes
  | op :: ops, bytes => do
    validateRecord F op
    check (decide (bytes + op.size F ≤ maxBatch)) "batch exceeds 64 MiB"
    validateOperations ops (bytes + op.size F)

def validateDomains : List (List (WriteOp M)) → ℕ → ℕ → Except String Unit
  | [], _, _ => pure ()
  | ops :: rest, count, bytes => do
    check (decide (count + ops.length ≤ maxOperations)) "too many batch operations"
    let bytes ← validateOperations F ops bytes
    validateDomains rest (count + ops.length) bytes

def validateBatch (domains : List (List (WriteOp M))) : Except String Unit :=
  validateDomains F domains 0 0

end Batches

variable (X : Node M K)

def Rows.writeCustody (rows : Rows M) (custody : List (WriteOp M)) : Except String (Rows M) := do
  validateBatch X.toFormats [custody]
  pure (rows.applyAll custody)

def Rows.writeBatch (rows : Rows M) (application custody : List (WriteOp M)) :
    Except String (Rows M) :=
  if X.serving then do
    validateBatch X.toFormats [application, custody]
    pure (rows.applyAll (application ++ custody))
  else do
    check application.isEmpty "application mutation forbidden in retired custody"
    rows.writeCustody X custody

structure LogStore (M K : Type) where
  rows : Rows M
  boundary : Option LogId
  controls : K
  retained : Option RetainedSpan

def retiredBoundary (s : LogStore M K) : Except String (Option LogId) :=
  match s.boundary with
  | none => pure none
  | some boundary => do
    let source ← demand "retired boundary seed absent" (s.rows.seeds.get boundary.index)
    X.validateRetiredBoundary s.controls s.rows.committed boundary source
    pure (some boundary)

def openStore (rows : List (ℕ × LogHeader M)) (s : LogStore M K) :
    Except String (LogStore M K) := do
  let retained ← retainedSpan X.toFormats rows
  pure { s with retained := retained }

def readHeader (rows : Rows M) (index : ℕ) : Except String (LogHeader M) := do
  let header ← demand "missing retained raft header" (rows.headers.get index)
  header.validate X.toFormats
  check (header.logId.index == index) "raft key/index mismatch"
  pure header

abbrev EntryWrites (M : Type) := Option (WriteOp M) × List (WriteOp M)

def seedRecord (k : K) (header : LogHeader M) : Option Bytes →
    Except String (Option (RetainedSeed M))
  | none => pure none
  | some seed => do
    let bootstrap ← demand "retirement seed lacks installed application bootstrap"
      (X.bootstrapSha256 k)
    pure (some ⟨header, seed, bootstrap, X.storageBindingSha256 k⟩)

/-- The rows of one entry: its body in the application domain, and its header, seed and closed
body in the custody domain. -/
def recordWrites (index : ℕ) (header : LogHeader M) (seed : Option (RetainedSeed M))
    (encoded : Bytes) : EntryWrites M :=
  (if X.serving then
      some (if header.payload.closed then .deleteLog index else .putLog index encoded)
    else none,
    [.putHeader index header,
      match seed with
      | some seed => .putSeed index seed
      | none => .deleteSeed index,
      if header.payload.closed then .putCustody index encoded else .deleteCustody index])

def entryWrite (k : K) (entry : Entry M) : Except String (EntryWrites M) := do
  X.validateEntry k entry
  let encoded := encodeEntry X.toFormats entry
  let (header, seed) ← LogHeader.build X.toFormats entry encoded
  header.validate X.toFormats
  let record ← seedRecord X k header seed
  check (X.serving || header.payload.closed || !entry.payload.isNormal)
    "payload log append forbidden in retired custody"
  pure (recordWrites X entry.index header record encoded)

/-- An application input is bound to the position it is logged at. -/
def bindApplication (entry : Entry M) : Except String Unit :=
  match entry.payload with
  | .normal (.application _) => X.bindInput entry
  | _ => pure ()

def entryWrites (k : K) (entries : List (Entry M)) : Except String (List (EntryWrites M)) := do
  entries.forM (bindApplication X)
  entries.mapM (entryWrite X k)

/-- After permanent retirement only closed custody commands are appended. -/
def checkAfterBoundary (boundary : LogId) (entry : Entry M) : Except String Unit :=
  match entry.payload with
  | .normal command =>
    if entry.index > boundary.index then do
      let closed ← custodyCommand X.toFormats command
      check closed "application log entry after permanent retirement"
    else pure ()
  | _ => pure ()

def checkAtBoundary (rows : Rows M) (boundary : LogId) (entry : Entry M) : Except String Unit :=
  if entry.index = boundary.index then do
    let retained ← demand "accepted retirement seed absent" (rows.seeds.get entry.index)
    retained.header.checkEntry X.toFormats entry (encodeEntry X.toFormats entry)
  else pure ()

def checkBoundary (rows : Rows M) (entries : List (Entry M)) : Option LogId → Except String Unit
  | none => pure ()
  | some boundary => do
    entries.forM (checkAfterBoundary X boundary)
    entries.forM (checkAtBoundary X rows boundary)

def checkAppend (s : LogStore M K) (entries : List (Entry M)) (commitLocal : Bool) :
    Except String Unit := do
  let boundary ← retiredBoundary X s
  checkBoundary X s.rows entries boundary
  if commitLocal then
    check (positionLt s.rows.committed (entries.head?.map Entry.logId))
      "local committed cursor must advance"
  else pure ()

def appendBatchBytes : ℕ := 48 * 1024 * 1024

structure EntryBatches where
  forwardStart : ℕ
  forwardEnd : ℕ
  backwardEnd : ℕ

def pivotOf (previous : Option RetainedSpan) (entries : List (Entry M)) : ℕ :=
  match previous with
  | none => 0
  | some span => (entries.takeWhile fun entry => entry.index < span.first.index).length

def EntryBatches.new (previous : Option RetainedSpan) (entries : List (Entry M)) :
    Except String EntryBatches :=
  if entries.isEmpty then pure ⟨0, 0, 0⟩
  else do
    let _ ← including previous entries
    let pivot := pivotOf previous entries
    pure ⟨pivot, entries.length, pivot⟩

def EntryWrites.bytes (F : Formats M) (writes : EntryWrites M) : ℕ :=
  ((writes.1.toList ++ writes.2).map (WriteOp.size F)).sum

def EntryWrites.count (writes : EntryWrites M) : ℕ := (writes.1.toList ++ writes.2).length

/-- How many of the next entries one batch takes: at least one, and more as long as they fit. -/
def takeFitting (F : Formats M) : List (EntryWrites M) → ℕ → ℕ → ℕ → ℕ
  | [], _, _, taken => taken
  | next :: rest, bytes, count, taken =>
    if taken ≠ 0 ∧ (bytes + EntryWrites.bytes F next > appendBatchBytes ∨
        count + EntryWrites.count next > maxOperations) then taken
    else takeFitting F rest (bytes + EntryWrites.bytes F next) (count + EntryWrites.count next)
      (taken + 1)

def EntryBatches.nextRange (F : Formats M) (batches : EntryBatches)
    (writes : List (EntryWrites M)) : Option ((ℕ × ℕ) × EntryBatches) :=
  if batches.forwardStart < batches.forwardEnd then
    let taken := takeFitting F
      ((writes.take batches.forwardEnd).drop batches.forwardStart) 0 0 0
    some ((batches.forwardStart, batches.forwardStart + taken),
      { batches with forwardStart := batches.forwardStart + taken })
  else if batches.backwardEnd ≠ 0 then
    let taken := takeFitting F (writes.take batches.backwardEnd).reverse 0 0 0
    some ((batches.backwardEnd - taken, batches.backwardEnd),
      { batches with backwardEnd := batches.backwardEnd - taken })
  else none

def gather (writes : List (EntryWrites M)) : List (WriteOp M) × List (WriteOp M) :=
  (writes.flatMap fun w => w.1.toList, writes.flatMap fun w => w.2)

def committedWrites (entries : List (Entry M)) (commitLocal : Bool) : List (WriteOp M) :=
  match commitLocal, entries with
  | true, entry :: _ => [.putCommitted (some entry.logId)]
  | _, _ => []

def appendTurn (entries : List (Entry M)) (writes : List (EntryWrites M)) (commitLocal : Bool)
    (state : LogStore M K × EntryBatches) : Except String (Option (LogStore M K × EntryBatches)) :=
  match state.2.nextRange X.toFormats writes with
  | none => pure none
  | some ((start, stop), batches) => do
    let (data, control) := gather ((writes.take stop).drop start)
    let next ← including state.1.retained ((entries.take stop).drop start)
    let rows ← state.1.rows.writeBatch X data (control ++ committedWrites entries commitLocal)
    pure (some ({ state.1 with rows := rows, retained := some next }, batches))

/-- Every operation is given the number of batches after which the process is cut off; the flag
says whether it returned before that. -/
def append (entries : List (Entry M)) (commitLocal : Bool) (cut : ℕ) (s : LogStore M K) :
    Except String (LogStore M K × Bool) := do
  check (!commitLocal || entries.length == 1) "local append requires one entry"
  let writes ← entryWrites X s.controls entries
  checkAppend X s entries commitLocal
  let batches ← EntryBatches.new s.retained entries
  let (state, finished) ← CutLoops.run (appendTurn X entries writes commitLocal) cut (s, batches)
  pure (state.1, finished)

structure PreparedLocalAppend (M : Type) where
  application : List (WriteOp M)
  custody : List (WriteOp M)
  next : RetainedSpan
  previous : Option RetainedSpan

def wholeRange (F : Formats M) (batches : EntryBatches) (writes : List (EntryWrites M))
    (count : ℕ) : Bool :=
  match batches.nextRange F writes with
  | none => false
  | some (range, batches) => range == (0, count) && (batches.nextRange F writes).isNone

def extendsSpan (previous : Option RetainedSpan) (entries : List (Entry M)) : Bool :=
  match previous with
  | none => true
  | some span => checkedAdd span.last.index 1 == entries.head?.map Entry.index

def prepareLocalAppend (entries : List (Entry M)) (s : LogStore M K) :
    Except String (PreparedLocalAppend M) := do
  check (!entries.isEmpty) "standalone append has no entry"
  let writes ← entryWrites X s.controls entries
  checkAppend X s entries true
  let batches ← EntryBatches.new s.retained entries
  check (wholeRange X.toFormats batches writes entries.length && extendsSpan s.retained entries)
    "standalone append must extend the retained journal"
  let next ← including s.retained entries
  let (data, control) := gather writes
  pure ⟨data, control ++ [.putCommitted (some next.last)], next, s.retained⟩

def installLocalAppend (prepared : PreparedLocalAppend M) (s : LogStore M K) :
    Except String (LogStore M K) := do
  check (s.retained == prepared.previous) "raft retained span changed during a standalone append"
  pure { s with retained := some prepared.next }

/-- The publication commits the prepared rows, and the span is installed after it. -/
def localTurn (prepared : PreparedLocalAppend M) (state : LogStore M K × Bool) :
    Except String (Option (LogStore M K × Bool)) :=
  if state.2 then pure none
  else do
    let rows ← state.1.rows.writeBatch X prepared.application prepared.custody
    let s ← installLocalAppend prepared { state.1 with rows := rows }
    pure (some (s, true))

def localAppend (entries : List (Entry M)) (cut : ℕ) (s : LogStore M K) :
    Except String (LogStore M K × Bool) := do
  let prepared ← prepareLocalAppend X entries s
  let (state, finished) ← CutLoops.run (localTurn X prepared) cut (s, false)
  pure (state.1, finished)

def covered (rows : Rows M) (id : LogId) : Bool :=
  (rows.headers.get id.index).any (fun header => header.logId == id) || rows.purged == some id

def checkCommitted (rows : Rows M) (committed : Option LogId) : Except String Unit := do
  check (!positionLt committed rows.committed) "committed source position cannot regress"
  match committed with
  | none => pure ()
  | some id => check (covered rows id) "commit position lacks exact source log coverage"

def commitTurn (committed : Option LogId) (state : LogStore M K × Bool) :
    Except String (Option (LogStore M K × Bool)) :=
  if state.2 then pure none
  else do
    let rows ← state.1.rows.writeCustody X [.putCommitted committed]
    pure (some ({ state.1 with rows := rows }, true))

def saveCommitted (committed : Option LogId) (cut : ℕ) (s : LogStore M K) :
    Except String (LogStore M K × Bool) := do
  checkCommitted s.rows committed
  let (state, finished) ← CutLoops.run (commitTurn X committed) cut (s, false)
  pure (state.1, finished)

def indices (start stop : ℕ) : List ℕ := List.range' start (stop + 1 - start)

def lastBefore (rows : Rows M) (span : RetainedSpan) (start : ℕ) :
    Except String (Option RetainedSpan) :=
  if start = span.first.index then pure none
  else do
    let header ← readHeader X rows (start - 1)
    pure (some ⟨span.first, header.logId⟩)

def truncateBodies (start stop : ℕ) : List (WriteOp M) :=
  if X.serving then (indices start stop).reverse.map .deleteLog else []

def truncateControl (isProtected : Option ℕ) (start stop : ℕ) : List (WriteOp M) :=
  (indices start stop).reverse.flatMap fun index =>
    [.deleteHeader index, .deleteCustody index] ++
      (if some index ≠ isProtected then [.deleteSeed index] else [])

def truncateTurn (logId : LogId) (isProtected : Option ℕ) (s : LogStore M K) :
    Except String (Option (LogStore M K)) :=
  match s.retained with
  | none => pure none
  | some span =>
    if span.last.index < logId.index then pure none
    else do
      let stop := span.last.index
      let start := max (max (stop - 16383) logId.index) span.first.index
      let next ← lastBefore X s.rows span start
      let rows ← s.rows.writeBatch X (truncateBodies X start stop)
        (truncateControl isProtected start stop)
      pure (some { s with rows := rows, retained := next })

def checkTruncate (rows : Rows M) (logId : LogId) : Except String Unit :=
  match rows.committed with
  | none => pure ()
  | some committed =>
    check (decide (logId.index > committed.index)) "cannot truncate committed source log"

def truncate (logId : LogId) (cut : ℕ) (s : LogStore M K) :
    Except String (LogStore M K × Bool) := do
  checkTruncate s.rows logId
  let boundary ← retiredBoundary X s
  CutLoops.run (truncateTurn X logId (boundary.map LogId.index)) cut s

def firstAfter (rows : Rows M) (span : RetainedSpan) (stop : ℕ) :
    Except String (Option RetainedSpan) :=
  if stop = span.last.index then pure none
  else do
    let header ← readHeader X rows (stop + 1)
    pure (some ⟨header.logId, span.last⟩)

def purgeControl (start stop : ℕ) (purged : LogId) : List (WriteOp M) :=
  ((indices start stop).flatMap fun index => [.deleteHeader index, .deleteCustody index]) ++
    [.putPurged purged]

/-- A retired store keeps its application bodies. -/
def purgeRows (rows : Rows M) (retired : Bool) (start stop : ℕ) (purged : LogId) :
    Except String (Rows M) :=
  if retired then rows.writeCustody X (purgeControl start stop purged)
  else rows.writeBatch X ((indices start stop).map .deleteLog) (purgeControl start stop purged)

/-- After the last removal the cursor itself is written if it is not there yet. -/
def purgeCursor (logId : LogId) (s : LogStore M K) (lastRemoved : Option LogId) :
    Except String (Option (LogStore M K × Option LogId)) :=
  if lastRemoved = some logId then pure none
  else do
    let rows ← s.rows.writeCustody X [.putPurged logId]
    pure (some ({ s with rows := rows }, some logId))

def purgeChunk (retired : Bool) (s : LogStore M K) (span : RetainedSpan) (stop : ℕ) :
    Except String (Option (LogStore M K × Option LogId)) := do
  let header ← readHeader X s.rows stop
  span.checkEndpoint header.logId
  let next ← firstAfter X s.rows span stop
  let rows ← purgeRows X s.rows retired span.first.index stop header.logId
  pure (some ({ s with rows := rows, retained := next }, some header.logId))

def purgeTurn (logId : LogId) (retired : Bool) (state : LogStore M K × Option LogId) :
    Except String (Option (LogStore M K × Option LogId)) :=
  match state.1.retained with
  | none => purgeCursor X logId state.1 state.2
  | some span =>
    if span.first.index > logId.index then purgeCursor X logId state.1 state.2
    else purgeChunk X retired state.1 span
      (min (min (span.first.index + 21844) logId.index) span.last.index)

def purge (logId : LogId) (cut : ℕ) (s : LogStore M K) :
    Except String (LogStore M K × Bool) := do
  X.purgeReady s.controls
  let boundary ← retiredBoundary X s
  let (state, finished) ← CutLoops.run (purgeTurn X logId boundary.isSome) cut (s, none)
  pure (state.1, finished)

def readBatchEntries : ℕ := 64

structure ReadBatch where
  entries : ℕ
  bytes : ℕ

def ReadBatch.full (batch : ReadBatch) : Bool :=
  decide (batch.entries ≥ readBatchEntries) || decide (batch.bytes ≥ appendBatchBytes)

def ReadBatch.admits (batch : ReadBatch) (bytes : ℕ) : Option ReadBatch :=
  if batch.entries ≠ 0 ∧ (batch.full = true ∨ batch.bytes + bytes > appendBatchBytes) then none
  else some ⟨batch.entries + 1, batch.bytes + bytes⟩

def metadataEntry (header : LogHeader M) : Option (Entry M) :=
  match header.payload with
  | .blank => some ⟨header.logId, .blank, none⟩
  | .membership membership => some ⟨header.logId, .membership membership, header.initialization⟩
  | _ => none

def applicationGet (rows : Rows M) (index : ℕ) : Except String Bytes := do
  check X.serving "retired custody has no application key domain"
  demand "missing application raft body" (rows.log.get index)

def encodedBody (rows : Rows M) (index : ℕ) (header : LogHeader M) : Except String Bytes :=
  match header.payload with
  | .custody _ => demand "missing closed custody raft body" (rows.custodyLog.get index)
  | _ => applicationGet X rows index

def encodedEntry (rows : Rows M) (index : ℕ) (header : LogHeader M) : Except String Bytes :=
  match metadataEntry header with
  | some entry => pure (encodeEntry X.toFormats entry)
  | none => encodedBody X rows index header

def decodedEntry (header : LogHeader M) (encoded : Bytes) : Except String (Entry M) :=
  match metadataEntry header with
  | some entry => pure entry
  | none => decodeEntry X.toFormats encoded

def admitted (batch : Option ReadBatch) (bytes : ℕ) : Option (Option ReadBatch) :=
  match batch with
  | none => some none
  | some batch => (batch.admits bytes).map some

def readFrom (rows : Rows M) (span : RetainedSpan) :
    List ℕ → Option ReadBatch → Except String (List (Entry M))
  | [], _ => pure []
  | index :: rest, batch =>
    if batch.any ReadBatch.full then pure []
    else do
      let header ← readHeader X rows index
      span.checkEndpoint header.logId
      let encoded ← encodedEntry X rows index header
      match admitted batch encoded.length with
      | none => pure []
      | some batch => do
        let entry ← decodedEntry X header encoded
        header.checkEntry X.toFormats entry encoded
        let entries ← readFrom rows span rest batch
        pure (entry :: entries)

def readEntries (bounds : Bound × Bound) (batch : Option ReadBatch) (s : LogStore M K) :
    Except String (List (Entry M)) :=
  match s.retained with
  | none => do
    check batch.isNone "requested raft read prefix is unavailable"
    pure []
  | some span =>
    match span.intersect bounds with
    | none => do
      check batch.isNone "requested raft read prefix is unavailable"
      pure []
    | some (first, last) => do
      check (batch.isNone || bounds.1 == .included first)
        "requested raft read prefix is unavailable"
      readFrom X s.rows span (indices first last) batch

def tryGetLogEntries (bounds : Bound × Bound) (s : LogStore M K) :
    Except String (List (Entry M)) :=
  readEntries X bounds none s

def limitedGetLogEntries (start stop : ℕ) (s : LogStore M K) : Except String (List (Entry M)) :=
  if start ≥ stop then pure []
  else readEntries X (.included start, .excluded stop) (some ⟨0, 0⟩) s

end RaftLogStore
