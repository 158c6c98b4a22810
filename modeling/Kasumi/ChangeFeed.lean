import Kasumi.Mutations

/-! The durable change feed of a tenant: every commit of documents appends its after-images
under the next sequence numbers, and retention drops whole commits from the oldest end. -/
namespace ChangeFeed

open TenantTypes Mutations

variable {Idx Acc : Type} (X : Externals Idx Acc)

def entryBytes (sequence : ℕ) (commit : ChangeCommit) : Except Error ℕ :=
  orError .corruption "change feed accounting overflow"
    ((checkedAdd (X.len (.text (toString sequence))) 1).bind fun n =>
      (checkedAdd n (X.len (.commitHeader commit.revision commit.firstSequence
        commit.recordBytes))).bind fun n =>
      (checkedAdd n commit.recordBytes).bind fun n =>
      checkedAdd n (commit.records.length - 1))

def overRetention (feed : ChangeFeedState) (limits : HistoryLimits) : Bool :=
  feed.eventCount > limits.maxFeedEvents || feed.encodedCommitBytes > limits.maxFeedBytes

def dropCommit (feed : ChangeFeedState) (sequence : ℕ) (commit : ChangeCommit) :
    Except Error ChangeFeedState := do
  let eventCount ← orError .corruption "change feed count underflow"
    (checkedSub feed.eventCount commit.records.length)
  let bytes ← entryBytes X sequence commit
  let encodedCommitBytes ← orError .corruption "change feed byte underflow"
    (checkedSub feed.encodedCommitBytes bytes)
  pure { feed with
    commits := feed.commits.remove sequence
    eventCount := eventCount
    encodedCommitBytes := encodedCommitBytes }

def trimEach (limits : HistoryLimits) :
    List (ℕ × ChangeCommit) → ChangeFeedState → Except Error ChangeFeedState
  | [], feed =>
    if overRetention feed limits then fail .corruption "missing change feed retention entry"
    else .ok feed
  | (sequence, commit) :: rest, feed =>
    if overRetention feed limits then do
      let feed ← dropCommit X feed sequence commit
      trimEach limits rest feed
    else .ok feed

def trim (feed : ChangeFeedState) (limits : HistoryLimits) : Except Error ChangeFeedState :=
  trimEach X limits feed.commits.entries feed

/-- The size of a record, counted from its document's descriptor: the header is measured with
a null document, which the document's own bytes replace. -/
def changeRecordBytes (record : ChangeRecord) : Except Error ℕ :=
  let bytes := X.len (.changeHeader record.collection record.id)
  match record.document with
  | none => .ok bytes
  | some slot => orError .corruption "document framing size overflow"
      ((checkedSub bytes 4).bind fun n => checkedAdd n (documentBytes X slot))

def resident (state : TenantState) (collection id : String) : Option DocumentSlot :=
  (state.collections.get collection).bind fun c => c.documents.get id

def changeRecord (previous next : TenantState) (collection id : String) : Option ChangeRecord :=
  let before := resident previous collection id
  let after := resident next collection id
  if before.map slotVersion = after.map slotVersion then none
  else some ⟨collection, id, after⟩

def changeRecords (previous next : TenantState) (changed : ChangedIds) : List ChangeRecord :=
  changed.entries.flatMap fun entry =>
    entry.2.keys.filterMap fun id => changeRecord previous next entry.1 id

def totalRecordBytes : List ChangeRecord → ℕ → Except Error ℕ
  | [], total => .ok total
  | record :: rest, total => do
    let bytes ← changeRecordBytes X record
    let total ← orError .quotaExceeded "change feed size overflow" (checkedAdd total bytes)
    totalRecordBytes rest total

def withCommit (feed : ChangeFeedState) (commit : ChangeCommit) (bytes : ℕ) :
    Except Error ChangeFeedState := do
  let nextSequence ← orError .quotaExceeded "change feed sequence exhausted"
    (checkedAdd feed.nextSequence commit.records.length)
  let eventCount ← orError .quotaExceeded "change feed count overflow"
    (checkedAdd feed.eventCount commit.records.length)
  let encodedCommitBytes ← orError .quotaExceeded "change feed byte overflow"
    (checkedAdd feed.encodedCommitBytes bytes)
  pure
    { nextSequence := nextSequence
      commits := feed.commits.insert commit.firstSequence commit
      eventCount := eventCount
      encodedCommitBytes := encodedCommitBytes }

/-- Append the commit of a state transition to its feed. The changed identities are targets
of applied writes, so their collections exist in both states. -/
def append (previous next : TenantState) (changed : ChangedIds) : Except Error TenantState := do
  let records := changeRecords previous next changed
  let recordBytes ← totalRecordBytes X records 0
  if records.isEmpty then pure next
  else
    let commit : ChangeCommit := ⟨next.revision, next.changeFeed.nextSequence, records, recordBytes⟩
    let bytes ← entryBytes X commit.firstSequence commit
    require (!(commit.records.length > next.limits.history.maxFeedEvents ||
      bytes > next.limits.history.maxFeedBytes)) .quotaExceeded
      "complete transaction exceeds change feed retention capacity"
    let feed ← withCommit next.changeFeed commit bytes
    let feed ← trim X feed next.limits.history
    pure { next with changeFeed := feed }

end ChangeFeed
