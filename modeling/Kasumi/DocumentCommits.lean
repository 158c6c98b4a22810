import Kasumi.Genesis
import Kasumi.Rejections

/-! What a batch of writes does to the documents that a tenant shows. A batch, or a finalized
transaction, either commits as a whole, and then the documents are those of one simultaneous
update of the state before, or shows nothing of its writes. -/
namespace DocumentCommits

open TenantTypes Mutations PermanentRows FallibleSteps TenantFrames MutationEffects EffectFrames
  PublicationExits Publications ArchiveEffects DocumentSteps DocumentInvariants StagedSteps
  Rejections Genesis Engine List

open ChangeFeed (resident)

section Shown

variable (contents : StoredDocument → Document)

def documentAt (s : TenantState) (c i : String) : Option Document :=
  (resident s c i).map (document contents)

def targetOf (s : TenantState) (m : Mutation) : Option Document :=
  documentAt contents s m.target.1 m.target.2

def epochAt (s : TenantState) (c : String) : Option ℕ :=
  (s.collections.get c).map CollectionState.dataEpoch

def update (revision : ℕ) (old : Option Document) : Mutation → Option Document
  | .put _ i body _ => some ⟨i, revision, body⟩
  | .patch _ i patch _ => old.bind fun d =>
      (applyMergePatch d.body patch).toOption.map fun body => ⟨i, revision, body⟩
  | .delete _ _ _ => none

/-- The preconditions of a write: existence, archive, write mode and version. -/
structure Allowed (revision : ℕ) (s : TenantState) (m : Mutation) : Prop where
  collection : ∃ col, s.collections.get m.target.1 = some col ∧
    col.archivedDocuments.get m.target.2 = none ∧
    (col.definition.writeMode = .appendOnly → isAbsentCreate m = true)
  expected : match m.expected with
    | .any => True
    | .absent => targetOf contents s m = none
    | .version v => (targetOf contents s m).map Document.version = some v
  merged : isPatch m = true → (update revision (targetOf contents s m) m).isSome = true

structure Shows (s t : TenantState) : Prop where
  documents : ∀ c i, documentAt contents t c i = documentAt contents s c i
  shape : ∀ c, (t.collections.get c).map shape = (s.collections.get c).map shape
  epochs : ∀ c, epochAt t c = epochAt s c
  count : t.documentCount = s.documentCount
  bytes : t.logicalBytes = s.logicalBytes

end Shown

section Commits

variable {Idx Acc : Type} (X : Externals Idx Acc) (contents : StoredDocument → Document)

def encodedSize (d : Option Document) : ℤ := (d.map fun d => (X.len (.body d.body) : ℤ)).getD 0

/-- The writes of a batch were committed at `revision`: what held before, and what is shown. -/
structure Committed (revision now : ℕ) (s t : TenantState) (reads : List ReadAssertion)
    (operations : List Mutation) : Prop where
  reads : ∀ a ∈ reads, checkReadAssertion s now a = .ok ()
  allowed : ∀ m ∈ operations, Allowed contents revision s m
  distinct : (operations.map Mutation.target).Nodup
  updated : ∀ m ∈ operations, targetOf contents t m = update revision (targetOf contents s m) m
  other : ∀ c i, (c, i) ∉ operations.map Mutation.target →
    documentAt contents t c i = documentAt contents s c i
  shape : ∀ c, (t.collections.get c).map shape = (s.collections.get c).map shape
  earlier : ∀ c, epochAt s c ≠ some revision
  epoch : ∀ c, epochAt t c = if ∃ m ∈ operations, m.target.1 = c ∧
      (isDelete m = false ∨ (targetOf contents s m).isSome = true)
    then some revision else epochAt s c
  count : (t.documentCount : ℤ) = s.documentCount +
    operations.countP (fun m => (targetOf contents s m).isNone && (targetOf contents t m).isSome) -
    operations.countP (fun m => (targetOf contents s m).isSome && (targetOf contents t m).isNone)
  bytes : (t.logicalBytes : ℤ) = s.logicalBytes + (operations.map fun m =>
    encodedSize X (targetOf contents t m) - encodedSize X (targetOf contents s m)).sum

end Commits

variable {Idx Acc : Type} {X : Externals Idx Acc} {contents : StoredDocument → Document}
variable {s t : TenantState} {reads : List ReadAssertion} {α : Type}

theorem sum_lengths (a b : α → Option β) (l : List α) :
    ((l.map fun m => (b m).toList.length).sum : ℤ) + l.countP (fun m => (a m).isSome && (b m).isNone) =
      (l.map fun m => (a m).toList.length).sum + l.countP (fun m => (a m).isNone && (b m).isSome) := by
  induction l with
  | nil => rfl
  | cons m l ih =>
    rw [map_cons, map_cons, sum_cons, sum_cons, countP_cons, countP_cons]
    cases a m <;> cases b m <;> simp only [Option.toList_none, Option.toList_some, length_nil,
      length_singleton, Option.isSome_none, Option.isSome_some, Option.isNone_none,
      Option.isNone_some, Bool.and_true, Bool.and_false, Bool.false_eq_true, if_true, if_false] <;>
      omega

theorem sum_sub {f g : α → ℕ} {p q : α → ℤ} {l : List α} (hf : ∀ m ∈ l, (f m : ℤ) = p m)
    (hg : ∀ m ∈ l, (g m : ℤ) = q m) :
    ((l.map f).sum : ℤ) = (l.map g).sum + (l.map fun m => p m - q m).sum := by
  induction l with
  | nil => rfl
  | cons m l ih =>
    have hr := ih (fun n hn => hf n (mem_cons_of_mem _ hn))
      fun n hn => hg n (mem_cons_of_mem _ hn)
    have h1 := hf m mem_cons_self
    have h2 := hg m mem_cons_self
    rw [map_cons, map_cons, map_cons, sum_cons, sum_cons, sum_cons]
    omega

theorem slotBytes_encoded (h : ∀ slot, resident s c i = some slot → Honest X contents i slot) :
    (slotBytes X (resident s c i) : ℤ) = encodedSize X (documentAt contents s c i) := by
  unfold slotBytes encodedSize documentAt
  cases hs : resident s c i with
  | none => rfl
  | some slot =>
    have hb := (h slot hs).bodyBytes
    simp only [Option.map_some, Option.getD_some, hb]

variable {site : Site} {g g' : Generation Idx Acc} {m : Mutation} {col : CollectionState}
  {reads' : List ReadAssertion}

theorem Admissible.shows (rev : ℕ) (hf : Faithful contents res)
    (h : Admissible X idx res s m col body) :
    (newSlot m.target.2 rev body).map (document contents) = update rev (targetOf contents s m) m ∧
    (isPatch m = true → body.isSome = true) := by
  have hr := h.replaced
  have ht : targetOf contents s m = (col.documents.get m.target.2).map (document contents) := by
    unfold targetOf documentAt
    rw [h.resident]
  cases m with
  | put c i b e =>
    cases hr
    exact ⟨rfl, fun hp => by cases hp⟩
  | delete c i e =>
    cases hr
    exact ⟨rfl, fun hp => by cases hp⟩
  | patch c i p e =>
    cases hold : col.documents.get i with
    | none =>
      rw [show (Mutation.patch c i p e).target.2 = i from rfl, hold] at hr
      cases hr
    | some slot =>
      rw [show (Mutation.patch c i p e).target.2 = i from rfl, hold] at hr ht
      obtain ⟨d, hl, hr⟩ := bind_ok hr
      obtain ⟨merged, hm, hr⟩ := bind_ok hr
      cases hr
      refine ⟨?_, fun _ => rfl⟩
      rw [ht, update, Option.map_some, Option.bind_some, ← loan_faithful hf hl, query_ok hm]
      rfl

theorem Admissible.allowed (hf : Faithful contents res)
    (hh : ∀ slot, resident s m.target.1 m.target.2 = some slot →
    Honest X contents m.target.2 slot) (h : Admissible X idx res s m col body) :
    Allowed contents rev s m := by
  have ha := h.allowed
  obtain ⟨_, har, ha⟩ := bind_ok ha
  obtain ⟨_, hm, hex⟩ := bind_ok ha
  have har := require_ok har
  have hm := require_ok hm
  have hex := require_ok hex
  obtain ⟨hs, hpa⟩ := Admissible.shows rev hf h
  refine ⟨⟨col, h.collection, ?_, ?_⟩, ?_, ?_⟩
  · simpa [OrdMap.contains] using har
  · intro hap
    simpa [hap] using hm
  · unfold targetOf documentAt
    rw [← h.resident] at hex
    cases hsl : resident s m.target.1 m.target.2 with
    | none =>
      rw [hsl] at hex
      cases he : m.expected <;> rw [he] at hex <;> simp_all [meetsPrecondition]
    | some slot =>
      have hv : (document contents slot).version = slotVersion slot := by
        cases slot with
        | pending d => rfl
        | stored d => exact ((hh _ hsl).described d rfl).version.symm
      rw [hsl] at hex
      cases he : m.expected <;> rw [he] at hex <;> simp_all [meetsPrecondition]
  intro hp
  rw [← hs]
  obtain ⟨b, hb⟩ := Option.isSome_iff_exists.mp (hpa hp)
  rw [hb]
  rfl

theorem Committed.of_wrote (hac : Accounted X contents bound s) (hla : bound < rev)
    (hf : Faithful contents res) (hr : ∀ a ∈ reads, checkReadAssertion s now a = .ok ())
    (ha : Admits X idx res [] s ops) (hw : WroteAll X rev res s ops t) :
    Committed X contents rev now s t reads ops := by
  have haf := hac.wrote hw (Nat.le_of_lt hla)
  have hs : ∀ m ∈ ops, (written s res rev m).map (document contents) =
      targetOf contents t m := by
    intro m hm
    unfold targetOf documentAt
    rw [hw.target m hm]
  have hl : ∀ {v : TenantState} (m : Mutation),
      (resident v m.target.1 m.target.2).toList.length =
        (targetOf contents v m).toList.length := by
    intro v m
    unfold targetOf documentAt
    cases resident v m.target.1 m.target.2 <;> rfl
  refine ⟨hr, ?_, ha.distinct, ?_, ?_, hw.shape, ?_, ?_, ?_, ?_⟩
  · intro m hm
    obtain ⟨col, body, h⟩ := ha.passes m hm
    exact Admissible.allowed hf (hac.honest _ _) h
  · intro m hm
    obtain ⟨col, body, h⟩ := ha.passes m hm
    rw [← hs m hm, h.written]
    exact (Admissible.shows _ hf h).1
  · intro c i hno
    unfold documentAt
    rw [hw.other c i hno]
  · intro c he
    obtain ⟨col, hco, heq⟩ := Option.map_eq_some_iff.mp he
    have := hac.epochs c col hco
    omega
  · intro c
    unfold epochAt
    rw [hw.epoch]
    have ht : ∀ m, touches s m = true ↔
        (isDelete m = false ∨ (targetOf contents s m).isSome = true) := by
      intro m
      unfold touches targetOf documentAt
      simp
    simp only [ht]
  · have hc := hw.count hac.exact
    have hsu := sum_lengths (targetOf contents s) (targetOf contents t) ops
    have hn : (ops.map fun m => (written s res rev m).toList.length) =
        ops.map fun m => (targetOf contents t m).toList.length := by
      apply map_congr_left
      intro m hm
      rw [← hw.target m hm, hl]
    rw [hn] at hc
    simp only [hl] at hc
    omega
  have hb := hw.bytes hac.exact
  have hn : ∀ m ∈ ops, (slotBytes X (written s res rev m) : ℤ) =
      encodedSize X (documentAt contents t m.target.1 m.target.2) := by
    intro m hm
    rw [← hw.target m hm]
    exact slotBytes_encoded (haf.honest _ _)
  have hsu := sum_sub (f := fun m => slotBytes X (written s res rev m))
    (g := fun m => slotBytes X (resident s m.target.1 m.target.2)) (l := ops)
    hn fun m _ => slotBytes_encoded (hac.honest _ _)
  unfold targetOf
  omega

theorem Committed.perm (hp : reordered.Perm ops) (ht : Committed X contents rev now s t reads ops)
    (hu : Committed X contents rev now' s u reads' reordered) : Shows contents t u := by
  have hme : ∀ m, m ∈ reordered ↔ m ∈ ops := fun m => hp.mem_iff
  have hta : ∀ m ∈ ops, targetOf contents u m = targetOf contents t m := by
    intro m hm
    rw [hu.updated m ((hme m).mpr hm), ht.updated m hm]
  refine ⟨?_, ?_, ?_, ?_, ?_⟩
  · intro c i
    by_cases hi : (c, i) ∈ ops.map Mutation.target
    · obtain ⟨m, hm, he⟩ := mem_map.mp hi
      have h := hta m hm
      unfold targetOf at h
      rwa [he] at h
    have ho : (c, i) ∉ reordered.map Mutation.target := by
      rw [(hp.map Mutation.target).mem_iff]
      exact hi
    rw [ht.other c i hi, hu.other c i ho]
  · intro c
    rw [ht.shape, hu.shape]
  · intro c
    rw [ht.epoch, hu.epoch]
    simp only [hme]
  · have h1 := ht.count
    have h2 := hu.count
    rw [hp.countP_eq, hp.countP_eq] at h2
    have hc : ops.countP
        (fun m => (targetOf contents s m).isNone && (targetOf contents u m).isSome) =
        ops.countP
        (fun m => (targetOf contents s m).isNone && (targetOf contents t m).isSome) :=
      countP_congr fun m hm => by rw [hta m hm]
    have hr : ops.countP
        (fun m => (targetOf contents s m).isSome && (targetOf contents u m).isNone) =
        ops.countP
        (fun m => (targetOf contents s m).isSome && (targetOf contents t m).isNone) :=
      countP_congr fun m hm => by rw [hta m hm]
    omega
  have h1 := ht.bytes
  have h2 := hu.bytes
  rw [(hp.map _).sum_eq] at h2
  have hs : (ops.map fun m =>
      encodedSize X (targetOf contents u m) - encodedSize X (targetOf contents s m)) =
      ops.map fun m =>
        encodedSize X (targetOf contents t m) - encodedSize X (targetOf contents s m) := by
    apply map_congr_left
    intro m hm
    rw [hta m hm]
  rw [hs] at h2
  omega

theorem Committed.congr (h : Committed X contents rev now s t reads ops)
    (hu : Shows contents t u) : Committed X contents rev now s u reads ops := by
  have ht : ∀ m, targetOf contents u m = targetOf contents t m := fun m => hu.documents _ _
  refine ⟨h.reads, h.allowed, h.distinct, ?_, ?_, ?_, h.earlier, ?_, ?_, ?_⟩
  · intro m hm
    rw [ht, h.updated m hm]
  · intro c i hn
    rw [hu.documents, h.other c i hn]
  · intro c
    rw [hu.shape, h.shape]
  · intro c
    rw [hu.epochs, h.epoch]
  · rw [hu.count]
    simp only [ht]
    exact h.count
  rw [hu.bytes]
  simp only [ht]
  exact h.bytes

theorem shows_of_bodies (h : bodies t = bodies s) : Shows contents s t := by
  have hd := resident_of_bodies h
  injection h with hc h
  injection h with hn hl
  refine ⟨?_, ?_, ?_, hn, hl⟩
  · intro c i
    unfold documentAt
    rw [hd]
  · intro c
    rw [hc]
  intro c
  unfold epochAt
  rw [hc]

theorem Shows.placed (h : Shows contents s t) (hp : Placed X contents t u) :
    Shows contents s u := by
  refine ⟨?_, ?_, ?_, ?_, ?_⟩
  · intro c i
    rw [← h.documents]
    refine rel_map ?_ (hp.resident c i)
    intro a b ha
    cases ha with
    | kept => rfl
    | placed hd => exact hd.holds
  · intro c
    rw [← h.shape]
    exact hp.collection_map (fun ha => ha.shape) c
  · intro c
    rw [← h.epochs]
    exact hp.collection_map (fun ha => ha.epoch) c
  · exact (congrArg TenantState.documentCount hp.frame).trans h.count
  · exact (congrArg TenantState.logicalBytes hp.frame).trans h.bytes

section Replays

variable (hlineage : ∀ link ∈ s.restoreLineage, link.checkpoint.revision ≤ s.revision)

include hlineage

theorem position_past (h : AppliedIdentity.validateOriginalPosition applied s = .ok pos) :
    applied.revision ≤ s.revision := by
  replace h := then_ok h
  obtain ⟨found, hb, h⟩ := bind_ok h
  obtain ⟨_, hi, _⟩ := bind_ok h
  have hi := ensure_ok hi
  simp only [Bool.and_eq_true, decide_eq_true_eq] at hi
  refine hi.2.trans ?_
  unfold AppliedIdentity.bounds at hb
  split at hb
  · cases hb
    exact Nat.le_refl _
  obtain ⟨last, hl, hb⟩ := bind_ok hb
  have hp := hlineage last (mem_of_find?_eq_some (context_ok hl))
  split at hb
  · cases hb
    exact hp
  obtain ⟨_, _, hb⟩ := bind_ok hb
  cases hb
  exact hp

theorem replayed_past
    (hv : ReceiptRow.validate X row s = .ok bs) (h : replayOutcome row digest = .ok rcpt) :
    rcpt.revision ≤ s.revision := by
  have ho : row.receipt.outcome = .ok rcpt := by
    unfold replayOutcome at h
    split at h
    · exact h
    · cases h
  obtain ⟨_, hr, _, pos, hp, hi⟩ := receiptRow_ok hv
  have hs := (receiptIdentity_ok hi).2.2 rcpt ho
  have hpa := position_past hlineage hp
  omega

theorem shown_past (hv : TerminalRow.validate X row s = .ok ())
    (h : row.stage.outcome.resolved = some (.ok rcpt)) : rcpt.revision ≤ s.revision := by
  have hr : terminalReceipt row.stage.outcome = some rcpt := by
    cases ho : row.stage.outcome <;> rw [ho] at h <;> cases h
    rfl
  replace hv := then_ok hv
  replace hv := then_ok hv
  replace hv := then_ok hv
  obtain ⟨_, _, hv⟩ := bind_ok hv
  replace hv := then_ok hv
  obtain ⟨_, hp, hv⟩ := bind_ok hv
  obtain ⟨_, hs, _⟩ := bind_ok hv
  have hs := ensure_ok hs
  rw [hr] at hs
  simp only [Option.all_some, decide_eq_true_eq] at hs
  rw [hs]
  exact position_past hlineage hp

end Replays

def isBatch : Operation → Bool
  | .mutate _ => true
  | .finalizeStaged _ => true
  | _ => false

/-- A finalized transaction that answers with a receipt either wrote its documents or ended
before, and then its receipt is an earlier one. -/
theorem finalized_cases (hop : cmd.operation = .finalizeStaged ref) (hk : Kept X contents g)
    (h : Operated X site g cmd (.ok (.ok rcpt, docs)) operated) :
    (rcpt.revision = site.applied.revision ∧ ∃ reads ops,
      Written X cmd site.applied.revision g.indexes site.resolver g.state operated reads
        ops) ∨ (docs = false ∧ rcpt.revision ≤ g.state.revision ∧
      forgetStaged operated = forgetStaged (atRevision g.state site.applied.revision)) := by
  cases h with
  | answered hs han =>
    obtain ⟨u, he, hst⟩ := staged_answers (by rw [hop]; rfl) han.2
    have hf := (expires_frame he).trans (reinsertTerminal_frame hs.shown)
    cases hst with
    | @replayed id st _ _ hg hre =>
      refine .inr ⟨rfl, ?_, hf⟩
      -- The record has ended, so it is the row that was shown and no resident upload.
      have hen : st.isActive = false := by
        unfold StagedTransaction.isActive
        cases ho : st.outcome <;> simp_all [StagedOutcome.resolved]
      rcases expires_cases he (X.sha (.identity cmd.context.principal id)) with
        ⟨hsa, _⟩ | ⟨_, _, _, _, hex, _⟩
      · rw [hsa] at hg
        rcases started_cases hs with ⟨rfl, _⟩ | ⟨own, row, _, _, _, hv, rfl⟩
        · have ha := hk.active _ _ hg
          rw [hen] at ha
          cases ha
        rw [OrdMap.get_insert] at hg
        split at hg
        · cases hg
          exact shown_past hk.lineage hv hre
        have ha := hk.active _ _ hg
        rw [hen] at ha
        cases ha
      rw [hex] at hg
      cases hg
      cases hre
    | repeated _ _ hn => exact absurd hop (hn ref)
    | finished hop' hg ha hsi hse hrep =>
      obtain ⟨hrev, hw⟩ := finished_written hop' hg ha hsi hse
        (bodies_of_frame (replaceRecord_ok hrep).1)
      have hrea : reading u = reading g.state := by
        have hr := congrArg (fun v => atRevision v 0) hf
        exact hr
      exact .inl ⟨hrev, _, _, hw.of_reading hrea fun _ _ hg hope =>
        started_active hs (expires_active he hope hg) hope⟩
    | begun hoth => rw [hop] at hoth; cases hoth
    | uploaded hoth => rw [hop] at hoth; cases hoth
    | stopped hoth => rw [hop] at hoth; cases hoth
    | stoppedNew hoth => rw [hop] at hoth; cases hoth

/-- A batch commits its writes or keeps the content of the state. -/
theorem exit_batch (hb : isBatch cmd.operation = true) (hk : Kept X contents g)
    (hl : g.state.revision < site.applied.revision)
    (he : Exit X site g cmd ⟨some g', changed, out⟩) :
    ((∃ rcpt, out = .ok rcpt ∧ rcpt.revision = site.applied.revision) ∧
      ∃ reads ops, Written X cmd site.applied.revision g.indexes site.resolver g.state
        g'.state reads ops) ∨ ((∀ rcpt, out = .ok rcpt → rcpt.revision ≠ site.applied.revision) ∧
      content g'.state = content g.state) := by
  cases out with
  | error e =>
    refine .inr ⟨fun _ h => (by cases h), exit_content he ?_⟩
    rintro ⟨hrest, _⟩
    cases hop : cmd.operation <;> simp_all [isBatch]
  | ok rcpt =>
    have hp : ∀ {r : ℕ}, r ≤ g.state.revision → r ≠ site.applied.revision := by
      intro r hr
      omega
    cases he with
    | observed _ ho hap =>
      refine .inr ⟨?_, (content_of_audits (appendAudit_frame hap)).trans (content_atRevision _)⟩
      rintro _ ⟨⟩
      generalize ha : (Except.ok rcpt : Outcome) = answer at ho
      cases ho with
      | refused => cases ha
      | replayed _ _ _ hv =>
        exact hp (replayed_past hk.lineage hv ha.symm)
    | committed hop _ hat hrec =>
      have hfr := congrArg bodies (recorded_frame hrec)
      rw [bodies_forgetReceipts, bodies_forgetReceipts] at hfr
      obtain ⟨hre, hw⟩ := attemptBatch_written hop hat
      exact .inl ⟨⟨_, rfl, hre⟩, _, _, hw.carried, hw.reads, hw.admits, hw.wrote.congr rfl hfr⟩
    | @published result operated next moved final _ docs _ _ _ _ _ hop hra hm _ _ hfe =>
      have hf : ∃ ref, cmd.operation = .finalizeStaged ref := by
        cases hc : cmd.operation <;> simp_all [isBatch, isMutation]
      obtain ⟨ref, hf⟩ := hf
      have hres : result = .ok (.ok rcpt, docs) := by
        have hs := hra.settled
        unfold settleOperation at hs
        split at hs
        · cases hs
          rfl
        all_goals first | cases hs | (split at hs <;> cases hs)
      have hope := runOperation_operated hra.ran
      rw [hres] at hope
      have hau := auditCommand_frame hra.audited
      have ht := prepareTerminals_frame hm
      rcases finalized_cases hf hk hope with
        ⟨hre, reads, ops, hw⟩ | ⟨hn, hold, hfr⟩
      · have h1 := congrArg bodies hau
        have h2 := congrArg bodies ht
        have h3 := congrArg bodies (candidateFeed_frame hfe)
        rw [bodies_forgetAudits, bodies_forgetAudits] at h1
        rw [bodies_forgetStaged, bodies_forgetStaged] at h2
        rw [bodies_forgetFeed, bodies_forgetFeed] at h3
        exact .inl ⟨⟨_, rfl, hre⟩, reads, ops, hw.carried, hw.reads,
          hw.admits, hw.wrote.congr rfl (h3.trans (h2.trans h1))⟩
      refine .inr ⟨fun _ h => ?_, ?_⟩
      · cases h
        exact hp hold
      have hfi : final = moved := by
        rw [hn] at hfe
        exact (Except.ok.inj hfe).symm
      rw [hfi]
      exact (content_of_staged ht).trans ((content_of_audits hau).trans
        ((content_of_staged hfr).trans (content_atRevision _)))

theorem Carried.unique (h : Carried X s cmd reads ops)
    (h' : Carried X s cmd reads' operations') : operations' = ops := by
  cases h with
  | batch hop =>
    cases h' with
    | batch ho =>
      rw [hop] at ho
      cases ho
      rfl
    | upload ho =>
      rw [hop] at ho
      cases ho
  | upload hop hge =>
    cases h' with
    | batch ho =>
      rw [hop] at ho
      cases ho
    | upload ho hg =>
      rw [hop] at ho
      cases ho
      rw [hge] at hg
      cases hg
      rfl

theorem publishes_batch (hk : Kept X contents g) (hba : isBatch cmd.operation = true)
    (hpu : Publishes X contents site g cmd out g') :
    ((∃ rcpt, out = .ok rcpt ∧ rcpt.revision = site.applied.revision) ∧
    ∃ reads ops, Carried X g.state cmd reads ops ∧ Admits X g.indexes site.resolver [] g.state ops ∧
    Committed X contents site.applied.revision cmd.timestampMs g.state g'.state reads ops) ∨
    ((∀ rcpt, out = .ok rcpt → rcpt.revision ≠ site.applied.revision) ∧
    Shows contents g.state g'.state ∧ FeedPlaced X contents g.state.changeFeed g'.state.changeFeed)
    := by
  obtain ⟨cand, changed, placed, hpr, hp, rfl⟩ := hpu.prepared
  obtain ⟨hl, he⟩ := prepareCommand_exit hpr
  rcases exit_batch hba hk hl he with
    ⟨hr, reads, ops, hw⟩ | ⟨hn, hc⟩
  · have hco := Committed.of_wrote hk.accounted hl hpu.faithful hw.reads
      hw.admits hw.wrote
    exact .inl ⟨hr, reads, ops, hw.carried, hw.admits,
      hco.congr ((shows_of_bodies rfl).placed hp)⟩
  have hb := congrArg bodies hc
  have hf := congrArg TenantState.changeFeed hc
  rw [bodies_content, bodies_content] at hb
  dsimp only [content, forgetLogs, forgetRetirements, forgetActivations, forgetAudits,
    forgetStaged] at hf
  refine .inr ⟨hn, (shows_of_bodies hb).placed hp, ?_⟩
  rw [← hf]
  exact hp.feed

/-- From every generation of a history, a batch or finalized transaction that commits at its
revision shows the simultaneous update of the state before, the same for every order of its
writes; one that does not commit shows none of them. -/
theorem batches_commit_atomically {g₀ : Generation Idx Acc} (hstart : Kept X contents g₀)
    (hrun : Run X contents g₀ g) (hpublish : Publishes X contents site g command outcome g')
    (hbatch : isBatch command.operation = true) :
    (∀ receipt, outcome = .ok receipt → receipt.revision = site.applied.revision →
      ∃ reads operations, Carried X g.state command reads operations ∧
        Committed X contents site.applied.revision command.timestampMs g.state g'.state reads
          operations ∧
        ∀ reordered : List Mutation, reordered.Perm operations →
          (applyEach X site.applied.revision g.indexes site.resolver [] g.state reordered =
              .error (.query ⟨.quotaExceeded, "logical size overflow"⟩) ∨
            ∃ t, applyEach X site.applied.revision g.indexes site.resolver [] g.state reordered =
              .ok t ∧ Shows contents t g'.state) ∧
          ∀ {other : Site} {later : Command} {again : WriteReceipt} {h : Generation Idx Acc}
            {reads' : List ReadAssertion}, Publishes X contents other g later (.ok again) h →
            other.applied.revision = site.applied.revision →
            again.revision = other.applied.revision → Carried X g.state later reads' reordered →
            Shows contents g'.state h.state) ∧
    ((∀ receipt, outcome = .ok receipt → receipt.revision ≠ site.applied.revision) →
      Shows contents g.state g'.state ∧
        FeedPlaced X contents g.state.changeFeed g'.state.changeFeed) := by
  have hk := hstart.run hrun
  constructor
  · intro receipt ho hr
    rcases publishes_batch hk hbatch hpublish with
      ⟨_, reads, operations, hca, had, hc⟩ | ⟨hn, _⟩
    · refine ⟨reads, operations, hca, hc, ?_⟩
      intro reordered hpe
      have ha := Admits.perm hpe had
      have hl : g.state.revision < site.applied.revision := by
        obtain ⟨_, _, _, hp, _⟩ := hpublish.prepared
        exact (prepareCommand_exit hp).1
      constructor
      · rcases applyEach_cases site.applied.revision ha with he | ⟨t, ht⟩
        · exact .inl he
        obtain ⟨_, _, hwr⟩ := applyEach_ok ht
        have hoth := Committed.of_wrote hk.accounted hl hpublish.faithful hc.reads
          ha hwr
        exact .inr ⟨t, ht, Committed.perm hpe.symm hoth hc⟩
      intro other later again h reads' hoth hsa hco hre
      have hb : isBatch later.operation = true := by
        cases hre <;> simp_all [isBatch]
      rcases publishes_batch hk hb hoth with
        ⟨_, _, writes, hw, _, hc'⟩ | ⟨hno, _⟩
      · rw [hsa, Carried.unique hre hw] at hc'
        exact Committed.perm hpe hc hc'
      · exact absurd hco (hno again rfl)
    · exact absurd hr (hn receipt ho)
  intro hn
  rcases publishes_batch hk hbatch hpublish with ⟨⟨receipt, ho, hr⟩, _⟩ |
    ⟨_, hs⟩
  · exact absurd hr (hn receipt ho)
  · exact hs

/-- Two documents are put by one batch, in either order. -/
theorem pair_commits : ∃ g₁ g₂ g₃ g₄ g₅ g₆ g₇ g₈, SampleRun g₁ g₂ g₃ g₄ g₅ g₆ g₇ g₈ ∧
    Committed (sampleExternals 8) sampleContents 2 0 g₁.state g₂.state []
      [ledgerPut "a", ledgerPut "b"] ∧
    (applyEach (sampleExternals 8) 2 () none [] g₁.state [ledgerPut "b", ledgerPut "a"] =
        .error (.query ⟨.quotaExceeded, "logical size overflow"⟩) ∨
      ∃ t, applyEach (sampleExternals 8) 2 () none [] g₁.state [ledgerPut "b", ledgerPut "a"] =
        .ok t ∧ Shows sampleContents t g₂.state) := by
  obtain ⟨g₁, g₂, g₃, g₄, g₅, g₆, g₇, g₈, h⟩ := sample_run
  refine ⟨g₁, g₂, g₃, g₄, g₅, g₆, g₇, g₈, h, ?_⟩
  have hre : (servingSite (g₁.state.revision + 1)).applied.revision = 2 :=
    congrArg (· + 1) h.revision
  have hb := (batches_commit_atomically (newGenesis_valid sample_genesis).2 h.created.run
    h.written.publishes rfl).1 _ rfl hre.symm
  obtain ⟨reads, operations, hca, hc, hpe⟩ := hb
  rw [hre] at hc hpe
  cases hca with
  | batch ho =>
    cases ho
    exact ⟨hc, (hpe _ (.swap ..)).1⟩
  | upload ho => cases ho

end DocumentCommits
