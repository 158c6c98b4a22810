import Kasumi.DocumentInvariants
import Kasumi.TerminalHistory

/-! The generation a tenant starts from, and that it has every property a history keeps. -/
namespace Genesis

open TenantTypes TenantAccess Staging PermanentRows FallibleSteps MutationEffects TerminalHistory
  DocumentInvariants Publications StagedTotals Engine

variable {Idx Acc : Type} (X : Externals Idx Acc)

def emptyFeed : ChangeFeedState := ⟨1, OrdMap.empty, 0, 0⟩

def emptyRetention (stream : Uuid) : AuditRetentionState := ⟨stream, 0, 0, 0, 0⟩

/-- The empty state of a tenant. `stream` is the audit stream identity, which the source
derives from both names. -/
def genesisState (tenant incarnation : String) (policy : Policy) (limits : Limits)
    (stream : Uuid) : TenantState :=
  { tenant := tenant
    incarnation := incarnation
    revision := 0
    revisionBase := 0
    policyEpoch := 0
    schemaEpoch := 0
    suspended := false
    retired := false
    pendingRestore := none
    restoreLineage := []
    lifecycleControl := none
    targetLifecycle := OrdMap.empty
    documentCount := 0
    logicalBytes := 0
    policy := policy
    limits := limits
    collections := OrdMap.empty
    mutationReceiptHead := emptyReceiptHead X tenant incarnation
    backupBindingBytes := 0
    stagedTransactions := OrdMap.empty
    activeStagedTransactions := OrdMap.empty
    permanentStagedBytes := 0
    reservedStagedTerminalBytes := 0
    stagedTerminalHead := emptyTerminalHead X tenant incarnation
    targetCompletionHead := none
    changeFeed := emptyFeed
    historyArchives := OrdMap.empty
    historyArchiveBytes := 0
    schemaActivations := OrdMap.empty
    schemaActivationBytes := 0
    retirements := OrdMap.empty
    retirementBytes := 0
    auditRetention := emptyRetention stream
    audits := [] }

def genesisMetadata (tenant incarnation : String) (policy : Policy) (limits : Limits)
    (stream : Uuid) : Except Error TenantState := do
  validateName tenant
  validateName incarnation
  validateLimits limits
  validatePolicy policy limits
  pure (genesisState X tenant incarnation policy limits stream)

def emptyGeneration (state : TenantState) (indexes : Idx) (accounting : Acc) :
    Generation Idx Acc :=
  { state := state
    receipts := ⟨ChainTable.noRows, emptyReceiptHead X state.tenant state.incarnation⟩
    terminals := ⟨ChainTable.noRows, emptyTerminalHead X state.tenant state.incarnation⟩
    indexes := indexes
    accounting := accounting }

def newGenesis (tenant incarnation : String) (policy : Policy) (limits : Limits) (stream : Uuid)
    (indexes : Idx) (accounting : Acc) : Except Error (Generation Idx Acc) := do
  let state ← genesisMetadata X tenant incarnation policy limits stream
  let fits ← X.fits accounting state
  require fits .quotaExceeded "bootstrap exceeds snapshot byte budget"
  pure (emptyGeneration X state indexes accounting)

variable {X}

theorem newGenesis_ok (h : newGenesis X tenant incarnation pol limits stream idx accounting = .ok g)
    :
    g = emptyGeneration X (genesisState X tenant incarnation pol limits stream) idx accounting := by
  obtain ⟨state, hs, h⟩ := bind_ok h
  obtain ⟨_, _, h⟩ := bind_ok h
  replace h := then_ok h
  cases h
  replace hs := then_ok hs
  replace hs := then_ok hs
  replace hs := then_ok hs
  replace hs := then_ok hs
  cases hs
  rfl

theorem emptyGeneration_history
    (hh : s.stagedTerminalHead = emptyTerminalHead X s.tenant s.incarnation)
    (hr : s.stagedTransactions = OrdMap.empty) (hm : s.activeStagedTransactions = OrdMap.empty) :
    History X (emptyGeneration X s idx accounting).state
      (emptyGeneration X s idx accounting).terminals [] := by
  refine ⟨ChainTable.Selected.nil _, rfl, rfl, hh, ?_, ?_, ?_, ?_⟩
  · intro row hro
    cases hro
  · intro row hro
    cases hro
  · intro key st hg
    change s.stagedTransactions.get key = some st at hg
    rw [hr] at hg
    cases hg
  intro key
  change s.activeStagedTransactions.contains key = (s.stagedTransactions.get key).any _
  rw [hr, hm]
  rfl

theorem emptyGeneration_kept (hex : Exact X s) (hr : ∀ c i, ChangeFeed.resident s c i = none)
    (he : ∀ c col, s.collections.get c = some col → col.dataEpoch ≤ s.revision)
    (hre : s.stagedTransactions = OrdMap.empty) (hl : s.restoreLineage = []) :
    Kept X contents (emptyGeneration X s idx accounting) := by
  refine ⟨⟨hex, ?_, ?_, he⟩, ?_, ?_⟩
  · intro c i slot hs
    change ChangeFeed.resident s c i = some slot at hs
    rw [hr] at hs
    cases hs
  · intro c i slot hs
    change ChangeFeed.resident s c i = some slot at hs
    rw [hr] at hs
    cases hs
  · intro key st hg
    change s.stagedTransactions.get key = some st at hg
    rw [hre] at hg
    cases hg
  intro link hli
  change link ∈ s.restoreLineage at hli
  rw [hl] at hli
  cases hli

theorem newGenesis_valid
    (h : newGenesis X tenant incarnation pol limits stream idx accounting = .ok g) :
    History X g.state g.terminals [] ∧ Kept X contents g := by
  rw [newGenesis_ok h]
  exact ⟨emptyGeneration_history rfl rfl rfl,
    emptyGeneration_kept ⟨rfl, rfl⟩ (fun _ _ => rfl) (fun _ _ h => by cases h) rfl rfl⟩

def textNumber (text : String) : ℕ := text.toList.foldr (fun c n => c.toNat + 256 * n) 0

def writesNumber (operations : List Mutation) : ℕ :=
  operations.foldr (fun m n => textNumber m.target.2 + 65536 * n) 0

/-- Tells the values that a small history writes apart. -/
def encodedNumber : Encoded → ℕ
  | .identity _ id => 16 * textNumber id + 1
  | .batch b => 16 * writesNumber b.operations + 2
  | .chunk c => 16 * writesNumber c.operations + 3
  | .manifest m => 16 * m.operationCount + 4
  | .terminalRow row => 16 * row.ordinal + 5
  | .receiptRow row => 16 * row.ordinal + 6
  | .terminalRoot _ _ => 7
  | .receiptRoot _ _ => 8
  | .document d => 16 * textNumber d.id + 9
  | .retirementRequest r => 16 * textNumber r.retirementId + 10
  | _ => 0

/-- The other components at their simplest: a value is told by its number, takes at least `size`
bytes and passes every check. Small tenants are evaluated with them. -/
def sampleExternals (size : ℕ) : Externals Unit Unit where
  len := fun e => size + encodedNumber e % 100
  sha := fun e => digestText (encodedNumber e)
  sha_valid := fun _ => digestText_valid _
  uuidText := toString
  parseUuid := String.toNat?
  pointer := fun _ _ => none
  documentCloneBytes := fun _ => .ok size
  validateDocument := fun _ _ _ => .ok ()
  validateCollection := fun _ _ _ _ => .ok ()
  validateChanges := fun _ _ _ _ _ => .ok ()
  updateIndexes := fun _ _ _ _ _ => .ok ()
  updated := fun _ _ _ _ _ => .ok ()
  fits := fun _ _ => .ok true
  fitsCompletion := fun _ _ _ => .ok true
  validateIntent := fun _ => .ok ()
  verifyStops := fun _ _ => true

def rootPolicy : Policy := ⟨[⟨"root", none, [.read, .write, .admin, .audit]⟩], false⟩

def rootContext : RequestContext :=
  { authorization := .serviceIdentity
    principal := "root"
    tenant := "acme"
    scopes := [.read, .write, .admin, .audit]
    requestId := "request" }

def servingSite (revision : ℕ) : Site :=
  { applied := ⟨"acme-1", revision, 0, digestText revision, 1, 1, revision, digestText revision⟩
    resolver := none
    access := ⟨.ok (), none⟩ }

def sampleState (size : ℕ) : TenantState :=
  genesisState (sampleExternals size) "acme" "acme-1" rootPolicy defaultLimits 0

def sampleStart : Generation Unit Unit :=
  emptyGeneration (sampleExternals 8) (sampleState 8) () ()

theorem sample_genesis : newGenesis (sampleExternals 8) "acme" "acme-1" rootPolicy defaultLimits 0
    () () = .ok sampleStart := rfl

/-- Pending documents are never placed in these histories, so what a descriptor holds is free. -/
def sampleContents (d : StoredDocument) : Document := ⟨d.id, d.version, .null⟩

def rootCommand (operation : Operation) : Command := ⟨rootContext, 0, operation⟩

/-- What `root` is answered at the next revision. -/
def Answered (g : Generation Unit Unit) (operation : Operation) (outcome : Outcome)
    (g' : Generation Unit Unit) : Prop :=
  ∃ changed, prepareCommandOrdered (sampleExternals 8) (servingSite (g.state.revision + 1)) g
    (rootCommand operation) = .ok ⟨some g', changed, outcome⟩

theorem Answered.publishes (h : Answered g operation outcome g') :
    Publishes (sampleExternals 8) sampleContents (servingSite (g.state.revision + 1)) g
      (rootCommand operation) outcome g' := by
  obtain ⟨changed, hp⟩ := h
  exact ⟨(fun _ hn => nomatch hn), g', changed, g'.state, hp, placed_refl _, rfl⟩

theorem Answered.run (h : Answered g operation outcome g') :
    Run (sampleExternals 8) sampleContents g g' := .single (.publish h.publishes)

/-- The answers to a list of operations, each with the generation after it. -/
def answers : Generation Unit Unit → List Operation → Option (List (Outcome × Generation Unit Unit))
  | _, [] => some []
  | g, operation :: rest =>
    match prepareCommandOrdered (sampleExternals 8) (servingSite (g.state.revision + 1)) g
        (rootCommand operation) with
    | .ok ⟨some g', _, outcome⟩ => (answers g' rest).map fun later => (outcome, g') :: later
    | _ => none

section Sample

def createLedger : Operation :=
  .createCollection ⟨"ledger", .appendOnly, .operational, .null, [], false⟩

def ledgerPut (id : String) : Mutation := .put "ledger" id .null .absent

def ledgerBatch (ids : List String) : MutationBatch := ⟨"key", [], ids.map ledgerPut⟩

def sampleChunk : StagedChunk := ⟨[], [ledgerPut "c"]⟩

def sampleManifest : StagedManifest :=
  { chunkDigests := [(sampleExternals 8).sha (.chunk sampleChunk)]
    encodedChunkBytes := (sampleExternals 8).len (.chunk sampleChunk)
    operationCount := 1
    readAssertionCount := 0
    readCollections := OrdMap.empty
    writeCollections := OrdSet.ofList ["ledger"] }

def sampleScope : StagedTransactionScope := ⟨"acme", "acme-1", "root"⟩

def sampleUpload (id : String) : BeginStagedTransaction := ⟨sampleScope, id, sampleManifest, 1000⟩

def sampleReference : StagedTransactionRef :=
  ⟨sampleScope, "first", (sampleExternals 8).sha (.manifest sampleManifest)⟩

/-- A collection is created and two documents are put. The batch is sent again, and its key with
another batch. One upload is finalized, another is left open. -/
def sampleOperations : List Operation :=
  [createLedger, .mutate (ledgerBatch ["a", "b"]), .mutate (ledgerBatch ["a", "b"]),
    .mutate (ledgerBatch ["c"]), .beginStaged (sampleUpload "first"),
    .appendStaged ⟨sampleReference, 0, sampleChunk⟩, .finalizeStaged sampleReference,
    .beginStaged (sampleUpload "second")]

def pairReceipt : WriteReceipt :=
  ⟨2, (OrdMap.empty.insert "/ledger/a" 2).insert "/ledger/b" 2⟩

def firstKey : String := (sampleExternals 8).sha (.identity "root" "first")

def ledgerOf (g : Generation Unit Unit) : Option (CollectionWriteMode × List String) :=
  (g.state.collections.get "ledger").map fun c => (c.definition.writeMode, c.documents.keys)

def endedFirst (g : Generation Unit Unit) : Bool :=
  match TerminalView.get (sampleExternals 8) g.terminals firstKey with
  | .ok row => row.isSome
  | .error _ => false

theorem endedFirst_true (h : endedFirst g = true) :
    ∃ row, TerminalView.get (sampleExternals 8) g.terminals firstKey = .ok (some row) := by
  unfold endedFirst at h
  split at h
  · next row hg =>
    obtain ⟨row, rfl⟩ := Option.isSome_iff_exists.mp h
    exact ⟨row, hg⟩
  · cases h

structure Facts where
  revision : ℕ
  ledger : Option (CollectionWriteMode × List String)
  permanent : ℕ
  reserved : ℕ
  ended : Bool
  deriving DecidableEq

def factsOf (g : Generation Unit Unit) : Facts :=
  ⟨g.state.revision, ledgerOf g, g.state.permanentStagedBytes,
    g.state.reservedStagedTerminalBytes, endedFirst g⟩

def ledgerWith (ids : List String) : Option (CollectionWriteMode × List String) :=
  some (.appendOnly, ids)

def summary (l : List (Outcome × Generation Unit Unit)) : List (Outcome × Facts) :=
  l.map fun a => (a.1, factsOf a.2)

theorem answers_step (h : answers g (operation :: rest) = some l)
    (hl : summary l = (outcome, facts) :: more) : ∃ g' later,
    Answered g operation outcome g' ∧ factsOf g' = facts ∧ answers g' rest = some later ∧
    summary later = more := by
  unfold answers at h
  split at h
  · obtain ⟨later, hr, rfl⟩ := Option.map_eq_some_iff.mp h
    obtain ⟨ha, hm⟩ := List.cons.inj hl
    cases ha
    exact ⟨_, later, ⟨_, ‹_›⟩, rfl, hr, hm⟩
  · cases h

theorem sample_answers : (answers sampleStart sampleOperations).map summary = some
      [(.ok (emptyReceipt 1), ⟨1, ledgerWith [], 0, 0, false⟩),
        (.ok pairReceipt, ⟨2, ledgerWith ["a", "b"], 0, 0, false⟩),
        (.ok pairReceipt, ⟨3, ledgerWith ["a", "b"], 0, 0, false⟩),
        (.error reusedKey, ⟨4, ledgerWith ["a", "b"], 0, 0, false⟩),
        (.ok (emptyReceipt 5), ⟨5, ledgerWith ["a", "b"], 17, 8192, false⟩),
        (.ok (emptyReceipt 6), ⟨6, ledgerWith ["a", "b"], 17, 8192, false⟩),
        (.ok (emptyReceipt 7), ⟨7, ledgerWith ["a", "b", "c"], 38, 0, true⟩),
        (.ok (emptyReceipt 8), ⟨8, ledgerWith ["a", "b", "c"], 55, 8192, true⟩)] := by
  decide +kernel

structure SampleRun (g₁ g₂ g₃ g₄ g₅ g₆ g₇ g₈ : Generation Unit Unit) : Prop where
  created : Answered sampleStart createLedger (.ok (emptyReceipt 1)) g₁
  written : Answered g₁ (.mutate (ledgerBatch ["a", "b"])) (.ok pairReceipt) g₂
  replayed : Answered g₂ (.mutate (ledgerBatch ["a", "b"])) (.ok pairReceipt) g₃
  reused : Answered g₃ (.mutate (ledgerBatch ["c"])) (.error reusedKey) g₄
  begun : Answered g₄ (.beginStaged (sampleUpload "first")) (.ok (emptyReceipt 5)) g₅
  appended : Answered g₅ (.appendStaged ⟨sampleReference, 0, sampleChunk⟩) (.ok (emptyReceipt 6)) g₆
  finalized : Answered g₆ (.finalizeStaged sampleReference) (.ok (emptyReceipt 7)) g₇
  left : Answered g₇ (.beginStaged (sampleUpload "second")) (.ok (emptyReceipt 8)) g₈
  revision : g₁.state.revision = 1
  first : ledgerOf g₁ = ledgerWith []
  pair : ledgerOf g₂ = ledgerWith ["a", "b"]
  ended : endedFirst g₇ = true
  final : factsOf g₈ = ⟨8, ledgerWith ["a", "b", "c"], 55, 8192, true⟩

theorem sample_run : ∃ g₁ g₂ g₃ g₄ g₅ g₆ g₇ g₈, SampleRun g₁ g₂ g₃ g₄ g₅ g₆ g₇ g₈ := by
  obtain ⟨_, h, hl⟩ := Option.map_eq_some_iff.mp sample_answers
  obtain ⟨g₁, _, h₁, hf₁, h, hl⟩ := answers_step h hl
  obtain ⟨g₂, _, h₂, hf₂, h, hl⟩ := answers_step h hl
  obtain ⟨g₃, _, h₃, hf₃, h, hl⟩ := answers_step h hl
  obtain ⟨g₄, _, h₄, hf₄, h, hl⟩ := answers_step h hl
  obtain ⟨g₅, _, h₅, hf₅, h, hl⟩ := answers_step h hl
  obtain ⟨g₆, _, h₆, hf₆, h, hl⟩ := answers_step h hl
  obtain ⟨g₇, _, h₇, hf₇, h, hl⟩ := answers_step h hl
  obtain ⟨g₈, _, h₈, hf₈, h, hl⟩ := answers_step h hl
  exact ⟨g₁, g₂, g₃, g₄, g₅, g₆, g₇, g₈, h₁, h₂, h₃, h₄, h₅, h₆, h₇, h₈, congrArg Facts.revision hf₁,
    congrArg Facts.ledger hf₁, congrArg Facts.ledger hf₂, congrArg Facts.ended hf₇, hf₈⟩

theorem SampleRun.uploads (h : SampleRun g₁ g₂ g₃ g₄ g₅ g₆ g₇ g₈) :
    Run (sampleExternals 8) sampleContents g₂ g₇ :=
  h.replayed.run.trans (h.reused.run.trans (h.begun.run.trans (h.appended.run.trans
    h.finalized.run)))

theorem SampleRun.start (h : SampleRun g₁ g₂ g₃ g₄ g₅ g₆ g₇ g₈) :
    Run (sampleExternals 8) sampleContents sampleStart g₂ := h.created.run.trans h.written.run

end Sample

/-- Over every history of a new tenant the counters are those of its documents, no document is
newer than the state, and an ended transaction is found by its key from then on, with no upload
resident under it. -/
theorem genesis_run_keeps
    (h : newGenesis X tenant incarnation pol limits stream idx accounting = .ok g₀)
    (hr : Run X contents g₀ g) :
    Exact X g.state ∧ (∀ c i slot, ChangeFeed.resident g.state c i = some slot →
      Mutations.slotVersion slot ≤ g.state.revision) ∧
    ∀ key row, TerminalView.get X g.terminals key = .ok (some row) →
      row.stage.isActive = false ∧ ∀ g', Run X contents g g' →
        TerminalView.get X g'.terminals key = .ok (some row) ∧
        g'.state.stagedTransactions.get key = none := by
  have hv : _ ∧ Kept X contents g₀ := newGenesis_valid h
  obtain ⟨rows, hh⟩ := hv.1.run hr
  have hk := (hv.2.run hr).accounted
  refine ⟨hk.exact, hk.versions, fun key row hg => ?_⟩
  rcases hh.get_cases hg with ⟨_, hro, rfl, hf⟩ | ⟨hn, _⟩
  · cases hf
    refine ⟨hh.ended row hro, fun g' hl => ?_⟩
    obtain ⟨more, hm⟩ := hh.run hl
    have hro := List.mem_append_left more hro
    exact ⟨hm.get_row hro, hm.apart row hro⟩
  · cases hn

/-- Three documents are written, one upload has ended and another is begun after it. -/
theorem genesis_run_keeps_sample : ∃ g₁ g₂ g₃ g₄ g₅ g₆ g₇ g₈ row,
    SampleRun g₁ g₂ g₃ g₄ g₅ g₆ g₇ g₈ ∧
    Exact (sampleExternals 8) g₈.state ∧
    (∀ c i slot, ChangeFeed.resident g₈.state c i = some slot →
      Mutations.slotVersion slot ≤ g₈.state.revision) ∧
    TerminalView.get (sampleExternals 8) g₇.terminals firstKey = .ok (some row) ∧
    row.stage.isActive = false ∧
    TerminalView.get (sampleExternals 8) g₈.terminals firstKey = .ok (some row) ∧
    g₈.state.stagedTransactions.get firstKey = none := by
  obtain ⟨g₁, g₂, g₃, g₄, g₅, g₆, g₇, g₈, h⟩ := sample_run
  have hr := h.start.trans h.uploads
  have hk := genesis_run_keeps sample_genesis (hr.trans h.left.run)
  obtain ⟨row, hg⟩ := endedFirst_true h.ended
  obtain ⟨ha, hl⟩ := (genesis_run_keeps sample_genesis hr).2.2 _ _ hg
  have hl := hl _ h.left.run
  exact ⟨g₁, g₂, g₃, g₄, g₅, g₆, g₇, g₈, row, h, hk.1, hk.2.1, hg, ha, hl⟩

/-- Over every history of a new tenant the staged byte totals are exact: the permanent bytes are
those of the resident uploads and of the rows of ended transactions, the reserved ones those of
the resident uploads. -/
theorem genesis_run_totals
    (h : newGenesis X tenant incarnation pol limits stream idx accounting = .ok g₀)
    (hr : Run X contents g₀ g) : ∃ rows, History X g.state g.terminals rows ∧
      g.state.permanentStagedBytes = usedBytes X [] g.state + (rows.map (rowBytes X)).sum ∧
      g.state.reservedStagedTerminalBytes = reservedBytes X [] g.state := by
  have hv : _ ∧ Kept X contents g₀ := newGenesis_valid h
  obtain ⟨rows, hh, hu, hre⟩ := hv.1.totals hr
  rw [newGenesis_ok h] at hu hre
  have hu : g.state.permanentStagedBytes + 0 = 0 + usedBytes X [] g.state + _ := hu
  have hre : g.state.reservedStagedTerminalBytes + 0 = 0 + reservedBytes X [] g.state := hre
  exact ⟨rows, hh, by omega, by omega⟩

/-- With one upload ended and one open, each sum counts a real record. -/
theorem genesis_run_totals_sample : ∃ g₁ g₂ g₃ g₄ g₅ g₆ g₇ g₈ rows,
    SampleRun g₁ g₂ g₃ g₄ g₅ g₆ g₇ g₈ ∧
    History (sampleExternals 8) g₈.state g₈.terminals rows ∧
    rows ≠ [] ∧
    55 = usedBytes (sampleExternals 8) [] g₈.state + (rows.map (rowBytes (sampleExternals 8))).sum ∧
    8192 = reservedBytes (sampleExternals 8) [] g₈.state := by
  obtain ⟨g₁, g₂, g₃, g₄, g₅, g₆, g₇, g₈, h⟩ := sample_run
  obtain ⟨rows, hh, hu, hre⟩ := genesis_run_totals sample_genesis
    (h.start.trans (h.uploads.trans h.left.run))
  have hp : g₈.state.permanentStagedBytes = 55 := congrArg Facts.permanent h.final
  have hm : g₈.state.reservedStagedTerminalBytes = 8192 := congrArg Facts.reserved h.final
  obtain ⟨row, hg⟩ := endedFirst_true (congrArg Facts.ended h.final)
  refine ⟨g₁, g₂, g₃, g₄, g₅, g₆, g₇, g₈, rows, h, hh, ?_, hp ▸ hu, hm ▸ hre⟩
  rcases hh.get_cases hg with ⟨_, hro, _⟩ | ⟨hn, _⟩
  · exact List.ne_nil_of_mem hro
  · cases hn

end Genesis
