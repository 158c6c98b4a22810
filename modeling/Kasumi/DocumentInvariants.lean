import Kasumi.ArchiveEffects
import Kasumi.DocumentSteps
import Kasumi.TerminalMoves

/-! The counters and epochs of a tenant over a whole history: the counters count the
documents, every slot is honest, and no version or data epoch lies in the future. -/
namespace DocumentInvariants

open TenantTypes Mutations FallibleSteps TenantFrames MutationEffects EffectFrames PublicationExits
  Publications ArchiveEffects DocumentSteps Engine OrdMap

open ChangeFeed (resident)

variable {Idx Acc : Type} (X : Externals Idx Acc) (contents : StoredDocument → Document)

/-- The documents of a state are counted, honest and not newer than `bound`. -/
structure Accounted (bound : ℕ) (s : TenantState) : Prop where
  exact : Exact X s
  honest : ∀ c i slot, resident s c i = some slot → Honest X contents i slot
  versions : ∀ c i slot, resident s c i = some slot → slotVersion slot ≤ bound
  epochs : ∀ c col, s.collections.get c = some col → col.dataEpoch ≤ bound

variable {X} {contents}

theorem resident_of_bodies (h : bodies t = bodies s) (c i : String) :
    resident t c i = resident s c i := by
  injection h with hc _
  unfold resident
  rw [hc]

theorem resident_of_get (h : s.collections.get c = some col) :
    resident s c i = col.documents.get i := by
  unfold resident
  rw [h]
  rfl

theorem Exact.of_bodies (h : Exact X s) (hb : bodies t = bodies s) : Exact X t := by
  injection hb with hc hb
  injection hb with hn hl
  constructor
  · unfold documentTotal
    rw [hc, hn]
    exact h.count
  unfold byteTotal
  rw [hc, hl]
  exact h.bytes

theorem Accounted.of_bodies (h : Accounted X contents bound s) (hb : bodies t = bodies s)
    (hr : bound ≤ later) : Accounted X contents later t := by
  refine ⟨Exact.of_bodies h.exact hb, ?_, ?_, ?_⟩
  · intro c i slot hs
    rw [resident_of_bodies hb] at hs
    exact h.honest c i slot hs
  · intro c i slot hs
    rw [resident_of_bodies hb] at hs
    exact (h.versions c i slot hs).trans hr
  intro c col hco
  injection hb with hc _
  rw [hc] at hco
  exact (h.epochs c col hco).trans hr

theorem written_slot (h : written s res rev m = some slot) :
    ∃ body, slot = .pending ⟨m.target.2, rev, body⟩ := by
  unfold written at h
  split at h
  · next body _ =>
    obtain ⟨b, _, hb⟩ := Option.map_eq_some_iff.mp h
    exact ⟨b, hb.symm⟩
  · cases h

theorem WroteAll.slot (h : WroteAll X rev res s ops t) {slot : DocumentSlot}
    (hs : resident t c i = some slot) :
    (∃ body, slot = .pending ⟨i, rev, body⟩) ∨ resident s c i = some slot := by
  by_cases ht : (c, i) ∈ ops.map Mutation.target
  · obtain ⟨m, hm, he⟩ := List.mem_map.mp ht
    have hw := h.target m hm
    rw [he, hs] at hw
    obtain ⟨body, hb⟩ := written_slot hw.symm
    rw [he] at hb
    exact .inl ⟨body, hb⟩
  · rw [h.other c i ht] at hs
    exact .inr hs

theorem Accounted.wrote (h : Accounted X contents bound s) (hw : WroteAll X rev res s ops t)
    (hr : bound ≤ rev) : Accounted X contents rev t := by
  refine ⟨hw.exact h.exact, ?_, ?_, ?_⟩
  · intro c i slot hs
    rcases WroteAll.slot hw hs with ⟨body, hb⟩ | hold
    · subst hb
      exact ⟨rfl, fun d hd => by cases hd⟩
    · exact h.honest c i slot hold
  · intro c i slot hs
    rcases WroteAll.slot hw hs with ⟨body, hb⟩ | hold
    · subst hb
      exact Nat.le_refl _
    · have := h.versions c i slot hold
      omega
  intro c col hc
  have he := hw.epoch c
  rw [hc, Option.map_some] at he
  split at he
  · injection he with he
    omega
  obtain ⟨old, hold, heq⟩ := Option.map_eq_some_iff.mp he.symm
  have := h.epochs c old hold
  omega

theorem totals_insert (hg : s.collections.get name = some a)
    (hc : t.collections = s.collections.insert name b) :
    documentTotal t + (a.documents.size + a.archivedDocuments.size) =
        documentTotal s + (b.documents.size + b.archivedDocuments.size) ∧
      byteTotal X t + a.documents.weight (fun _ slot => bodyBytes X slot) =
        byteTotal X s + b.documents.weight (fun _ slot => bodyBytes X slot) := by
  have hco := weight_set
    (fun (_ : String) (c : CollectionState) => c.documents.size + c.archivedDocuments.size)
    s.collections name (some b)
  have hb := weight_set
    (fun (_ : String) (c : CollectionState) => c.documents.weight fun _ slot => bodyBytes X slot)
    s.collections name (some b)
  rw [hg] at hco hb
  unfold documentTotal byteTotal
  rw [hc]
  exact ⟨hco, hb⟩

theorem Accounted.archived (h : Accounted X contents bound s) (hf : Faithful contents res)
    (hg : s.collections.get name = some a) (hro : HistoryArchive.archivedRows X a mf res = .ok rows)
    (he : HistoryArchive.archiveEach X rows a s.logicalBytes = .ok (b, logical))
    (ht : bodies t = (s.collections.insert name b, s.documentCount, logical)) (hr : bound ≤ later) :
    Accounted X contents later t := by
  injection ht with hc ht
  injection ht with hn hl
  have hh : ∀ i slot, a.documents.get i = some slot → Honest X contents i slot := by
    intro i slot hsl
    rw [← resident_of_get hg] at hsl
    exact h.honest name i slot hsl
  have ha := archiveEach_ok he
  have hto := archiveEach_totals he fun row hrow =>
    (archivedRows_ok hf hh hro row hrow).bodyBytes hh
  -- A slot that is still resident was resident before.
  have hs : ∀ c i slot, resident t c i = some slot → resident s c i = some slot := by
    intro c i slot hsl
    unfold resident at hsl
    rw [hc, get_insert] at hsl
    split at hsl
    · next heq =>
      rw [Option.bind_some, ha.documents] at hsl
      split at hsl
      · cases hsl
      · rw [heq, resident_of_get hg]
        exact hsl
    · exact hsl
  refine ⟨?_, fun c i slot hsl => h.honest c i slot (hs c i slot hsl), ?_, ?_⟩
  · obtain ⟨hco, hb⟩ := totals_insert (X := X) hg hc
    have h1 := h.exact.count
    have h2 := h.exact.bytes
    have h3 := hto.count
    have h4 := hto.bytes
    constructor
    · omega
    · omega
  · intro c i slot hsl
    exact (h.versions c i slot (hs c i slot hsl)).trans hr
  intro c col hcol
  rw [hc, get_insert] at hcol
  split at hcol
  · cases hcol
    rw [ha.epoch]
    exact (h.epochs name a hg).trans hr
  · exact (h.epochs c col hcol).trans hr

theorem prepareCollection_ok
    (h : SchemaActivation.prepareCollection X u current definition create res = .ok c) :
    c.definition = definition ∧ c.dataEpoch = (current.map CollectionState.dataEpoch).getD 0 ∧
    c.documents = (current.map CollectionState.documents).getD OrdMap.empty ∧
    c.archivedDocuments = OrdMap.empty ∧ c.archivedDocumentBytes = 0 ∧ ∀ a, current = some a →
    a.archivedDocuments.size = 0 ∧ definition.retentionClass = a.definition.retentionClass ∧
    (a.definition.writeMode = .appendOnly → definition.writeMode = .appendOnly) := by
  replace h := then_ok h
  replace h := then_ok h
  obtain ⟨_, hre, h⟩ := bind_ok h
  obtain ⟨_, har, h⟩ := bind_ok h
  replace h := then_ok h
  replace h := then_ok h
  obtain ⟨_, hm, h⟩ := bind_ok h
  replace h := then_ok h
  cases h
  refine ⟨rfl, rfl, rfl, rfl, rfl, ?_⟩
  intro a ha
  have har := require_ok (query_ok har)
  have hre := require_ok (query_ok hre)
  have hm := require_ok (query_ok hm)
  subst ha
  exact ⟨by simpa using har, Eq.symm (by simpa using hre), fun ha => by simpa [ha] using hm⟩

theorem Accounted.redefined (h : Accounted X contents bound s)
    (hc : SchemaActivation.prepareCollection X u (s.collections.get definition.name) definition
      create res = .ok c)
    (ht : bodies t = (s.collections.insert definition.name c, s.documentCount, s.logicalBytes))
    (hr : bound ≤ later) : Accounted X contents later t := by
  obtain ⟨_, he, hdo, ha, _, hem⟩ := prepareCollection_ok hc
  injection ht with hco ht
  injection ht with hn hl
  have hs : ∀ d i, resident t d i = resident s d i := by
    intro d i
    unfold resident
    rw [hco, get_insert]
    by_cases hd : d = definition.name
    · rw [if_pos hd, hd, Option.bind_some, hdo]
      cases s.collections.get definition.name with
      | none => rfl
      | some a => rfl
    · rw [if_neg hd]
  refine ⟨?_, ?_, ?_, ?_⟩
  · have hcou := weight_set
      (fun (_ : String) (c : CollectionState) => c.documents.size + c.archivedDocuments.size)
      s.collections definition.name (some c)
    have hb := weight_set
      (fun (_ : String) (c : CollectionState) => c.documents.weight fun _ slot => bodyBytes X slot)
      s.collections definition.name (some c)
    -- The new collection weighs what the old one did, if there was one.
    have hsa : c.documents.size + c.archivedDocuments.size =
        ((s.collections.get definition.name).map fun a =>
          a.documents.size + a.archivedDocuments.size).getD 0 ∧
        c.documents.weight (fun _ slot => bodyBytes X slot) =
          ((s.collections.get definition.name).map fun a =>
            a.documents.weight fun _ slot => bodyBytes X slot).getD 0 := by
      rw [hdo, ha]
      cases hold : s.collections.get definition.name with
      | none => exact ⟨rfl, rfl⟩
      | some a =>
        have hno := (hem a hold).1
        rw [Option.map_some, Option.getD_some, Option.map_some, Option.getD_some, Option.map_some,
          Option.getD_some, hno]
        exact ⟨rfl, rfl⟩
    simp only [Option.map_some, Option.getD_some] at hcou hb
    have h1 := h.exact.count
    have h2 := h.exact.bytes
    constructor
    · unfold documentTotal OrdMap.insert at *
      rw [hco, hn]
      omega
    unfold byteTotal OrdMap.insert at *
    rw [hco, hl]
    omega
  · intro d i slot hsl
    rw [hs] at hsl
    exact h.honest d i slot hsl
  · intro d i slot hsl
    rw [hs] at hsl
    exact (h.versions d i slot hsl).trans hr
  intro d col hcol
  rw [hco, get_insert] at hcol
  split at hcol
  · cases hcol
    rw [he]
    cases hold : s.collections.get definition.name with
    | none => exact Nat.zero_le _
    | some a => exact (h.epochs _ a hold).trans hr
  · exact (h.epochs d col hcol).trans hr

theorem Accounted.activated {changes : List SchemaChange} : ∀ {u v : TenantState},
    Accounted X contents bound u → SchemaActivation.activateEach X res changes u = .ok v →
    Accounted X contents bound v := by
  induction changes with
  | nil =>
    intro u v h hv
    cases hv
    exact h
  | cons change changes ih =>
    intro u v h hv
    replace hv := then_ok hv
    obtain ⟨c, hc, hv⟩ := bind_ok hv
    have hn := Accounted.redefined (t := { u with
      collections := u.collections.insert change.definition.name c }) h hc rfl (Nat.le_refl _)
    exact ih hn hv

theorem Accounted.change {cmd : Command} (h : Accounted X contents bound s)
    (hf : Faithful contents res) (hch : DocumentChange X cmd rev idx res s t) (hr : bound ≤ rev) :
    Accounted X contents rev t := by
  cases hch with
  | kept hb => exact h.of_bodies hb hr
  | wrote hw => exact h.wrote hw.wrote hr
  | archived _ hg hro he hb => exact h.archived hf hg hro he hb hr
  | activated _ hu hv hb =>
    have hs := h.of_bodies hu (Nat.le_refl _)
    exact (hs.activated hv).of_bodies hb hr
  | redefined hc hb => exact h.redefined hc hb hr

theorem documentTotal_placed (h : Placed X contents s t) : documentTotal t = documentTotal s := by
  apply weight_congr
  intro c
  apply h.collection_map
  intro a b hab
  have hsi : b.documents.size = a.documents.size := by
    rw [size_eq_weight, size_eq_weight]
    exact weight_congr fun i => rel_map (fun _ => rfl) (hab.documents i)
  have hs := hab.shape
  injection hs with _ hs
  injection hs with ha _
  rw [hsi, ha]

theorem byteTotal_placed (h : Placed X contents s t) : byteTotal X t = byteTotal X s := by
  apply weight_congr
  intro c
  apply h.collection_map
  intro a b ha
  exact weight_congr fun i => rel_map SlotPlaced.bodyBytes (ha.documents i)

theorem Accounted.placed (h : Accounted X contents bound s) (hp : Placed X contents s t) :
    Accounted X contents bound t := by
  have hsl : ∀ c i slot, resident t c i = some slot →
      ∃ old, resident s c i = some old ∧ SlotPlaced X contents old slot := by
    intro c i slot hslo
    have hr := hp.resident c i
    rw [hslo] at hr
    generalize hs : resident s c i = before at hr
    cases hr with
    | some hpl => exact ⟨_, rfl, hpl⟩
  refine ⟨⟨?_, ?_⟩, ?_, ?_, ?_⟩
  · have hc := congrArg TenantState.documentCount hp.frame
    rw [documentTotal_placed hp, ← h.exact.count]
    exact hc
  · have hb := congrArg TenantState.logicalBytes hp.frame
    rw [byteTotal_placed hp, ← h.exact.bytes]
    exact hb
  · intro c i slot hslo
    obtain ⟨old, hold, hpl⟩ := hsl c i slot hslo
    have hh := h.honest c i old hold
    refine ⟨by rw [hpl.id]; exact hh.keyed, ?_⟩
    intro d hd
    subst hd
    cases hpl with
    | kept => exact hh.described d rfl
    | placed hde =>
      have hho := hde.holds
      rw [hho]
      exact hde
  · intro c i slot hslo
    obtain ⟨old, hold, hpl⟩ := hsl c i slot hslo
    rw [hpl.version]
    exact h.versions c i old hold
  intro c col hco
  have he := hp.collection_map (f := CollectionState.dataEpoch) (fun ha => ha.epoch) c
  rw [hco] at he
  obtain ⟨old, hold, heq⟩ := Option.map_eq_some_iff.mp he.symm
  rw [← heq]
  exact h.epochs c old hold

/-- What every generation of a history keeps: its documents are accounted for, its resident
uploads are active, and its lineage lies in the past. -/
structure Kept (X : Externals Idx Acc) (contents : StoredDocument → Document)
    (g : Generation Idx Acc) : Prop where
  accounted : Accounted X contents g.state.revision g.state
  active : TerminalMoves.AllActive g.state
  lineage : ∀ link ∈ g.state.restoreLineage, link.checkpoint.revision ≤ g.state.revision

theorem Kept.publish (h : Kept X contents g)
    (hp : Publishes X contents site g cmd out g') : Kept X contents g' := by
  obtain ⟨cand, changed, placed, hpr, hplaced, rfl⟩ := hp.prepared
  obtain ⟨hl, he⟩ := prepareCommand_exit hpr
  have hg := exit_grounds he
  have hr : cand.state.revision = site.applied.revision :=
    congrArg Fixed.revision hg
  have hli : cand.state.restoreLineage = g.state.restoreLineage :=
    congrArg Fixed.restoreLineage hg
  have hpl := congrArg TenantState.revision hplaced.frame
  have hpla := congrArg TenantState.restoreLineage hplaced.frame
  have hplac := congrArg TenantState.stagedTransactions hplaced.frame
  dsimp only [forgetSlots] at hpl hpla hplac
  have hc : Accounted X contents site.applied.revision cand.state := by
    rcases exit_documents he with hk | ⟨_, hch⟩
    · exact h.accounted.of_bodies hk (Nat.le_of_lt hl)
    · exact h.accounted.change hp.faithful hch (Nat.le_of_lt hl)
  refine ⟨?_, ?_, ?_⟩
  · rw [hpl, hr]
    exact hc.placed hplaced
  · exact TerminalMoves.allActive_of_records (TerminalMoves.exit_allActive he h.active)
      hplac
  intro link hlin
  dsimp only at hlin ⊢
  rw [hpla, hli] at hlin
  have := h.lineage link hlin
  omega

theorem Kept.step (hs : Step X contents g g') (h : Kept X contents g) : Kept X contents g' := by
  cases hs with
  | publish hp => exact h.publish hp
  | metadata hl =>
    refine ⟨h.accounted.of_bodies rfl (Nat.le_of_lt hl),
      TerminalMoves.allActive_of_records h.active rfl, ?_⟩
    intro link hli
    exact (h.lineage link hli).trans (Nat.le_of_lt hl)
  | receiptAhead => exact ⟨h.accounted, h.active, h.lineage⟩
  | terminalAhead => exact ⟨h.accounted, h.active, h.lineage⟩

theorem Kept.run (hr : Run X contents g g') (h : Kept X contents g) : Kept X contents g' :=
  Run.keeps (fun _ _ => Kept.step) hr h

end DocumentInvariants
