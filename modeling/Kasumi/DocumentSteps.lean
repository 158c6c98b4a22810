import Kasumi.Publications

/-! What a published command did to the documents: nothing, the writes of a batch or of a
finalized transaction, the archival of a prefix, or new definitions over the same documents. -/
namespace DocumentSteps

open TenantTypes Mutations Staging PermanentRows FallibleSteps TenantFrames StagingEffects
  MutationEffects OperationEffects EffectFrames PublicationExits Engine

variable {Idx Acc : Type} (X : Externals Idx Acc)

/-- The assertions and writes a command carries: a batch has its own, a finalized transaction
those of the chunks that were uploaded for it. -/
inductive Carried (s : TenantState) (command : Command) :
    List ReadAssertion → List Mutation → Prop where
  | batch {batch : MutationBatch} : command.operation = .mutate batch →
      Carried s command batch.readSet batch.operations
  | upload {reference : StagedTransactionRef} {stage : StagedTransaction} :
      command.operation = .finalizeStaged reference →
      s.stagedTransactions.get
        (X.sha (.identity command.context.principal reference.transactionId)) = some stage →
      stage.isActive = true → stage.chunks.size = stage.manifest.chunkDigests.length →
      validateComplete X stage = .ok () →
      Carried s command (stageAssertions stage) (stageOperations stage)

/-- The writes of a command were made at `revision`: its assertions and preconditions held in
the state before, and the documents are those of the simultaneous update. -/
structure Written (command : Command) (revision : ℕ) (indexes : Idx) (resolver : Resolver)
    (s t : TenantState) (reads : List ReadAssertion) (operations : List Mutation) : Prop where
  carried : Carried X s command reads operations
  reads : ∀ a ∈ reads, checkReadAssertion s command.timestampMs a = .ok ()
  admits : Admits X indexes resolver [] s operations
  wrote : WroteAll X revision resolver s operations t

section

variable (command : Command) (revision : ℕ) (indexes : Idx) (resolver : Resolver)
  (s t : TenantState)

inductive DocumentChange : Prop where
  | kept : bodies t = bodies s → DocumentChange
  | wrote {reads : List ReadAssertion} {operations : List Mutation} :
      Written X command revision indexes resolver s t reads operations →
      DocumentChange
  | archived {request : PublishHistoryArchive} {collection archived : CollectionState}
      {rows : List HistoryArchive.Moved} {logical : ℕ} :
      command.operation = .publishHistoryArchive request →
      s.collections.get request.manifest.collection = some collection →
      HistoryArchive.archivedRows X collection request.manifest resolver = .ok rows →
      HistoryArchive.archiveEach X rows collection s.logicalBytes = .ok (archived, logical) →
      bodies t = (s.collections.insert request.manifest.collection archived, s.documentCount,
        logical) →
      DocumentChange | activated {request : SchemaChangeSet} {u v : TenantState} :
      command.operation = .activateSchema request → bodies u = bodies s →
      SchemaActivation.activateEach X resolver request.changes u = .ok v → bodies t = bodies v →
      DocumentChange
  | redefined {definition : CollectionDefinition} {create : Bool} {c : CollectionState}
      {u : TenantState} :
      SchemaActivation.prepareCollection X u (s.collections.get definition.name) definition create
        resolver = .ok c →
      bodies t = (s.collections.insert definition.name c, s.documentCount, s.logicalBytes) →
      DocumentChange

end

variable {X}

@[simp] theorem bodies_forgetStaged : bodies (forgetStaged s) = bodies s := rfl

@[simp] theorem bodies_forgetAudits : bodies (forgetAudits s) = bodies s := rfl

@[simp] theorem bodies_forgetFeed : bodies (forgetFeed s) = bodies s := rfl

@[simp] theorem bodies_forgetReceipts : bodies (forgetReceipts s) = bodies s := rfl

@[simp] theorem bodies_content : bodies (content s) = bodies s := by
  dsimp only [bodies, content, forgetLogs, forgetRetirements, forgetActivations, forgetAudits,
    forgetStaged]

@[simp] theorem bodies_atRevision : bodies (atRevision s rev) = bodies s := rfl

theorem bodies_of_frame (h : forgetStaged t = forgetStaged s) : bodies t = bodies s := by
  have hf := congrArg bodies h
  simpa using hf

theorem expires_active (h : Expires X now rev s t) (ha : st.isActive = true)
    (hg : t.stagedTransactions.get key = some st) : s.stagedTransactions.get key = some st := by
  induction h with
  | done => exact hg
  | @expire s t u k old _ _ _ hr _ ih =>
    have hb := ih hg
    rw [(replaceRecord_ok hr).2.1, OrdMap.get_insert] at hb
    split at hb
    · cases hb
      cases ha
    · exact hb

theorem checkReadAssertion_congr (hi : t.incarnation = s.incarnation)
    (hp : t.policyEpoch = s.policyEpoch) (hs : t.schemaEpoch = s.schemaEpoch)
    (hc : t.collections = s.collections) :
    checkReadAssertion t now a = checkReadAssertion s now a := by
  cases a with
  | before => rfl
  | notBefore => rfl
  | snapshot =>
    unfold checkReadAssertion
    rw [hi, hp, hs]
  | document =>
    unfold checkReadAssertion
    rw [hc]
  | collection =>
    unfold checkReadAssertion
    rw [hc]

theorem checkReadAssertions_ok :
    ∀ {seen : List (ℕ × String × String)}, checkReadAssertions s now seen reads = .ok () →
      ∀ a ∈ reads, checkReadAssertion s now a = .ok () := by
  induction reads with
  | nil =>
    intro seen _ a ha
    cases ha
  | cons a rest ih =>
    intro seen h b hb
    obtain ⟨_, hf, h⟩ := bind_ok h
    replace h := then_ok h
    rcases List.mem_cons.mp hb with he | hb
    · rw [he]
      exact hf
    · exact ih h b hb

theorem validateReadAssertions_ok (h : validateReadAssertions s reads now most = .ok ()) :
    ∀ a ∈ reads, checkReadAssertion s now a = .ok () := by
  replace h := then_ok h
  exact checkReadAssertions_ok h

theorem finished_written (hop : cmd.operation = .finalizeStaged ref) (hg : u.stagedTransactions.get
      (X.sha (.identity cmd.context.principal ref.transactionId)) = some st)
    (hac : st.isActive = true) (hsi : st.chunks.size = st.manifest.chunkDigests.length)
    (hs : settle u (attempt X st cmd.timestampMs rev idx res u) = .ok (staged, .ok rcpt))
    (hl : bodies t = bodies staged) : rcpt.revision = rev ∧ Written X cmd rev idx res u t
      (stageAssertions st) (stageOperations st) := by
  rcases settle_cases hs with ⟨_, ho, ha⟩ | ⟨_, he, _⟩
  · cases ho
    obtain ⟨hc, hre, hap⟩ := attempt_ok ha
    obtain ⟨_, had, hw, hr⟩ := applyMutations_ok hap
    exact ⟨hr, Carried.upload hop hg hac hsi hc,
      validateReadAssertions_ok hre, had, hw.congr rfl hl⟩
  · cases he

/-- A staged command writes documents only when it finalizes a complete upload. -/
theorem stagedStep_documents (h : StagedStep X cmd rev idx res u t a) :
    bodies t = bodies u ∨ ∃ reads ops rcpt, a = (.ok rcpt, true) ∧ rcpt.revision = rev ∧
    Written X cmd rev idx res u t reads ops := by
  cases h with
  | replayed => exact .inl rfl
  | repeated => exact .inl rfl
  | begun _ _ _ hr => exact .inl (bodies_of_frame (replaceRecord_ok hr).1)
  | uploaded _ _ _ _ _ hr => exact .inl (bodies_of_frame (replaceRecord_ok hr).1)
  | stopped _ _ _ hr => exact .inl (bodies_of_frame (replaceRecord_ok hr).1)
  | stoppedNew _ _ hr => exact .inl (bodies_of_frame (replaceRecord_ok hr).1)
  | finished ho hg ha hsi hs hr =>
    have hl := bodies_of_frame (replaceRecord_ok hr).1
    rcases settle_cases hs with ⟨rcpt, rfl, _⟩ | ⟨_, _, hk⟩
    · obtain ⟨hre, hw⟩ := finished_written ho hg ha hsi hs hl
      exact .inr ⟨_, _, rcpt, rfl, hre, hw⟩
    · rw [hk] at hl
      exact .inl hl

/-- What the writes of a command read: the whole state but its revision and staged records. -/
def reading (s : TenantState) : TenantState := forgetStaged (atRevision s 0)

theorem Written.of_reading {reads : List ReadAssertion}
    (h : Written X cmd rev idx res u t reads ops) (hr : reading u = reading s)
    (hac : ∀ key st, u.stagedTransactions.get key = some st → st.isActive = true →
    s.stagedTransactions.get key = some st) : Written X cmd rev idx res s t reads ops := by
  have hi := congrArg TenantState.incarnation hr
  have hp := congrArg TenantState.policyEpoch hr
  have hs := congrArg TenantState.schemaEpoch hr
  have hl := congrArg TenantState.limits hr
  have hc := congrArg TenantState.collections hr
  have hb := congrArg bodies hr
  refine ⟨?_, ?_, h.admits.congr hl.symm hc.symm, h.wrote.congr hb.symm rfl⟩
  · cases h.carried with
    | batch hop => exact Carried.batch hop
    | upload hop hg ho hsi hco =>
      exact Carried.upload hop (hac _ _ hg ho) ho hsi hco
  intro a ha
  rw [← h.reads a ha]
  exact checkReadAssertion_congr hi.symm hp.symm hs.symm hc.symm

theorem DocumentChange.of_reading (h : DocumentChange X cmd rev idx res u t)
    (hr : reading u = reading s) (ha : ∀ key st, u.stagedTransactions.get key = some st →
    st.isActive = true → s.stagedTransactions.get key = some st) :
    DocumentChange X cmd rev idx res s t := by
  have hbo : bodies u = bodies s := by
    have hb := congrArg bodies hr
    exact hb
  have hco := congrArg TenantState.collections hr
  have hcou := congrArg TenantState.documentCount hr
  have hl := congrArg TenantState.logicalBytes hr
  dsimp only [reading, forgetStaged, atRevision] at hco hcou hl
  cases h with
  | kept h => exact DocumentChange.kept (h.trans hbo)
  | wrote h => exact DocumentChange.wrote (h.of_reading hr ha)
  | archived ho hg hro he ht =>
    rw [hco] at hg
    rw [hl] at he
    rw [hco, hcou] at ht
    exact DocumentChange.archived ho hg hro he ht
  | activated ho hs hv ht => exact DocumentChange.activated ho (hs.trans hbo) hv ht
  | redefined hc ht =>
    rw [hco] at hc
    rw [hco, hcou, hl] at ht
    exact DocumentChange.redefined hc ht

/-- What an operation does to the documents, from the state it starts in. Documents change
only when the operation answers that they did. -/
theorem effect_documents (h : Effect X cmd rev idx res s result t) : bodies t = bodies s ∨
    ((∃ rcpt, result = .ok (.ok rcpt, true) ∧ rcpt.revision = rev) ∧
    DocumentChange X cmd rev idx res s t) := by
  cases h with
  | refused => exact .inl rfl
  | answered => exact .inl rfl
  | expired _ he => exact .inl (bodies_of_frame (expires_frame he))
  | @staged a u _ _ he hst =>
    have hf := expires_frame he
    rcases stagedStep_documents hst with hk |
      ⟨reads, ops, rcpt, ha, hre, hw⟩
    · exact .inl (hk.trans (bodies_of_frame hf))
    have hrea : reading u = reading s := by
      have hr := congrArg (fun v => atRevision v 0) hf
      exact hr
    exact .inr ⟨⟨rcpt, by rw [ha], hre⟩, DocumentChange.wrote
      (hw.of_reading hrea fun _ _ hg hope => expires_active he hope hg)⟩
  | audited => exact .inl rfl
  | restoreUnrecorded => exact .inl rfl
  | restored => exact .inl rfl
  | controlled _ hca _ =>
    have hf := congrArg bodies (candidate_frame hca)
    exact .inl hf
  | archived ho har =>
    obtain ⟨col, rows, archived, logical, bs, hg, hro, hea, ht⟩ := har.moved
    refine .inr ⟨⟨_, rfl, rfl⟩, DocumentChange.archived ho hg hro hea ?_⟩
    rw [ht]
    rfl
  | activated ho hac hs =>
    obtain ⟨v, hv, ht⟩ := hac.collections
    refine .inr ⟨⟨_, rfl, rfl⟩, DocumentChange.activated ho rfl hv ?_⟩
    have hf := congrArg bodies (store_activation_ok hs).1
    rw [ht] at hf
    exact hf
  | activationRejected _ hs =>
    have hf := congrArg bodies (store_activation_ok hs).1
    exact .inl hf
  | collection hc _ => exact .inr ⟨⟨_, rfl, rfl⟩, DocumentChange.redefined hc rfl⟩
  | policy => exact .inl rfl
  | limits => exact .inl rfl
  | suspended => exact .inl rfl
  | retired _ hs _ =>
    have hf := congrArg bodies (store_retirement_ok hs).1
    exact .inl hf
  | retirementRecorded _ hs =>
    have hf := congrArg bodies (store_retirement_ok hs).1
    exact .inl hf

theorem started_active (h : Started X site g cmd start)
    (hg : start.stagedTransactions.get key = some st) (ha : st.isActive = true) :
    g.state.stagedTransactions.get key = some st := by
  have hs := h.shown
  unfold reinsertTerminal at hs
  split at hs
  · cases hs
    exact hg
  obtain ⟨own, _, hs⟩ := bind_ok hs
  split at hs
  · cases hs
    exact hg
  obtain ⟨found, _, hs⟩ := bind_ok hs
  split at hs
  · cases hs
    exact hg
  next row =>
  obtain ⟨_, hv, hs⟩ := bind_ok hs
  cases hs
  rw [OrdMap.get_insert] at hg
  split at hg
  · cases hg
    replace hv := then_ok hv
    replace hv := then_ok hv
    obtain ⟨_, he, _⟩ := bind_ok hv
    have he := ensure_ok he
    rw [ha] at he
    cases he
  · exact hg

theorem operated_documents (h : Operated X site g cmd result operated) :
    bodies operated = bodies g.state ∨
    ((∃ rcpt, result = .ok (.ok rcpt, true) ∧ rcpt.revision = site.applied.revision) ∧
    DocumentChange X cmd site.applied.revision g.indexes site.resolver g.state operated) := by
  have lift : ∀ {start t : TenantState} {r : Except ReadFailure Applied},
      Started X site g cmd start →
      Effect X cmd site.applied.revision g.indexes site.resolver start r t →
      bodies t = bodies g.state ∨
        ((∃ rcpt, r = .ok (.ok rcpt, true) ∧ rcpt.revision = site.applied.revision) ∧
          DocumentChange X cmd site.applied.revision g.indexes site.resolver g.state t) := by
    intro start t r hs he
    have hf := reinsertTerminal_frame hs.shown
    have hre : reading start = reading g.state := by
      have hr := congrArg (fun v => atRevision v 0) hf
      exact hr
    rcases effect_documents he with hk | ⟨hres, hc⟩
    · refine .inl (hk.trans ?_)
      rw [bodies_of_frame hf, bodies_atRevision]
    · exact .inr ⟨hres, hc.of_reading hre fun _ _ => started_active hs⟩
  cases h with
  | stranger => exact .inl rfl
  | refused hs he => exact lift hs he
  | answered hs ha => exact lift hs ha.2

theorem DocumentChange.of_bodies (h : DocumentChange X cmd rev idx res s t)
    (ht : bodies v = bodies t) : DocumentChange X cmd rev idx res s v := by
  cases h with
  | kept h => exact DocumentChange.kept (ht.trans h)
  | wrote h =>
    exact DocumentChange.wrote ⟨h.carried, h.reads, h.admits, h.wrote.congr rfl ht⟩
  | archived ho hg hr he h => exact DocumentChange.archived ho hg hr he (ht.trans h)
  | activated ho hs hv h => exact DocumentChange.activated ho hs hv (ht.trans h)
  | redefined hc h => exact DocumentChange.redefined hc (ht.trans h)

theorem attemptBatch_written {batch : MutationBatch}
    (ho : cmd.operation = .mutate batch) (h : attemptBatch X site g cmd batch = .ok (applied, rcpt)) :
    rcpt.revision = site.applied.revision ∧ Written X cmd
    site.applied.revision g.indexes site.resolver g.state applied batch.readSet batch.operations :=
    by
  obtain ⟨next, hfe, hre, hb⟩ := attemptBatch_ok h
  obtain ⟨_, ha, hwr, hr⟩ := applyMutations_ok hb
  have hf := congrArg bodies hfe
  have hw : Written X cmd site.applied.revision g.indexes site.resolver
      (atRevision g.state site.applied.revision) applied batch.readSet batch.operations :=
    ⟨Carried.batch ho, validateReadAssertions_ok hre, ha, hwr.congr rfl hf⟩
  exact ⟨hr, hw.of_reading rfl fun _ _ hg _ => hg⟩

theorem exit_documents (h : Exit X site g cmd ⟨some g', changed, out⟩) :
    bodies g'.state = bodies g.state ∨
    ((∃ rcpt, out = .ok rcpt ∧ rcpt.revision = site.applied.revision) ∧
    DocumentChange X cmd site.applied.revision g.indexes site.resolver g.state g'.state) := by
  cases h with
  | skipped => exact .inl rfl
  | observed _ _ hap =>
    rw [(appendAudit_ok hap).2]
    exact .inl rfl
  | recorded _ _ hr =>
    have hf := congrArg bodies (recorded_frame hr)
    exact .inl hf
  | committed ho _ hat hr =>
    have hf := congrArg bodies (recorded_frame hr)
    obtain ⟨hre, hw⟩ := attemptBatch_written ho hat
    exact .inr ⟨⟨_, rfl, hre⟩, (DocumentChange.wrote hw).of_bodies hf⟩
  | published _ hra hm _ _ hfee =>
    have ha := congrArg bodies (auditCommand_frame hra.audited)
    have ht := congrArg bodies (prepareTerminals_frame hm)
    have hfe := congrArg bodies (candidateFeed_frame hfee)
    have hl := hfe.trans (ht.trans ha)
    rcases operated_documents (runOperation_operated hra.ran) with
      hk | ⟨⟨rcpt, hres, hre⟩, hc⟩
    · exact .inl (hl.trans hk)
    refine .inr ⟨⟨rcpt, ?_, hre⟩, hc.of_bodies hl⟩
    have hs := hra.settled
    rw [hres] at hs
    cases hs
    rfl
  | rejected _ _ _ _ _ hrej =>
    have hf := congrArg bodies (rejectedState_content hrej)
    rw [bodies_content, bodies_content] at hf
    exact .inl hf

end DocumentSteps
