import Kasumi.Genesis

/-! Append-only collections over a whole history. No command drops a collection, changes its
retention class or weakens its write mode, and a document of an append-only collection stays
as it was written, resident or as the reference its archival left. -/
namespace AppendOnly

open TenantTypes Mutations FallibleSteps TenantFrames MutationEffects PublicationExits Publications
  ArchiveEffects DocumentSteps DocumentInvariants Genesis Engine

variable {Idx Acc : Type} (X : Externals Idx Acc) (contents : StoredDocument → Document)

def Holds (c : CollectionState) (d : Document) : Prop :=
  (∃ slot, c.documents.get d.id = some slot ∧ document contents slot = d) ∨
    ∃ r, c.archivedDocuments.get d.id = some r ∧ r.version = d.version ∧
      r.documentSha256 = X.sha (.document d)

structure Continues (a b : CollectionState) : Prop where
  archived : ∀ i r, a.archivedDocuments.get i = some r → b.archivedDocuments.get i = some r
  sealed : ∀ i r, a.archivedDocuments.get i = some r → b.definition = a.definition
  retention : b.definition.retentionClass = a.definition.retentionClass
  mode : a.definition.writeMode = .appendOnly → b.definition.writeMode = .appendOnly
  documents : a.definition.writeMode = .appendOnly →
    ∀ d, Holds X contents a d → Holds X contents b d

def Carries (s t : TenantState) : Prop :=
  ∀ c a, s.collections.get c = some a →
    ∃ b, t.collections.get c = some b ∧ Continues X contents a b

variable {X contents} {a : CollectionState} {name : String}

theorem Continues.refl (a : CollectionState) : Continues X contents a a :=
  ⟨fun _ _ h => h, fun _ _ _ => rfl, rfl, fun h => h, fun _ _ h => h⟩

theorem Continues.trans (h : Continues X contents a b) (h' : Continues X contents b c) :
    Continues X contents a c where
  archived i r hr := h'.archived i r (h.archived i r hr)
  sealed i r hr := (h'.sealed i r (h.archived i r hr)).trans (h.sealed i r hr)
  retention := h'.retention.trans h.retention
  mode hm := h'.mode (h.mode hm)
  documents hm d hd := h'.documents (h.mode hm) d (h.documents hm d hd)

/-- Under the same definition only the resident documents need an argument. -/
theorem Continues.of_definition (hd : b.definition = a.definition)
    (ha : ∀ i r, a.archivedDocuments.get i = some r → b.archivedDocuments.get i = some r)
    (hs : a.definition.writeMode = .appendOnly → ∀ i slot, a.documents.get i = some slot →
      (document contents slot).id = i → Holds X contents b (document contents slot)) :
    Continues X contents a b := by
  refine ⟨ha, fun _ _ _ => hd, by rw [hd], by rw [hd]; exact fun h => h, ?_⟩
  rintro hm d (⟨slot, hsl, rfl⟩ | ⟨r, hr, hv⟩)
  · exact hs hm _ slot hsl rfl
  · exact .inr ⟨r, ha _ r hr, hv⟩

theorem Carries.trans (h : Carries X contents s t) (h' : Carries X contents t u) :
    Carries X contents s u := by
  intro c a ha
  obtain ⟨b, hb, hab⟩ := h c a ha
  obtain ⟨e, he, hbe⟩ := h' c b hb
  exact ⟨e, he, hab.trans hbe⟩

theorem Carries.of_bodies (h : bodies t = bodies s) : Carries X contents s t := by
  intro c a ha
  injection h with hc _
  exact ⟨a, hc ▸ ha, .refl a⟩

theorem Carries.insert (hc : t.collections = s.collections.insert name b)
    (h : ∀ a, s.collections.get name = some a → Continues X contents a b) :
    Carries X contents s t := by
  intro c a ha
  rw [hc, OrdMap.get_insert]
  by_cases hn : c = name
  · rw [if_pos hn]
    exact ⟨b, rfl, h a (hn ▸ ha)⟩
  · rw [if_neg hn]
    exact ⟨a, ha, .refl a⟩

theorem checkTarget_absent (h : checkTarget a m = .ok ())
    (hm : a.definition.writeMode = .appendOnly) : a.documents.get m.target.2 = none := by
  replace h := then_ok h
  obtain ⟨_, hc, h⟩ := bind_ok h
  have hc := require_ok hc
  have hp := require_ok h
  rw [hm] at hc
  cases m with
  | put _ _ _ e =>
    cases e with
    | absent => simpa [meetsPrecondition, Mutation.expected] using hp
    | any => simp [isAbsentCreate] at hc
    | version => simp [isAbsentCreate] at hc
  | patch => simp [isAbsentCreate] at hc
  | delete => simp [isAbsentCreate] at hc

theorem Carries.wrote (hw : WroteAll X rev res s ops t)
    (had : Admits X idx res [] s ops) : Carries X contents s t := by
  intro c a ha
  have hs := hw.shape c
  rw [ha, Option.map_some] at hs
  obtain ⟨b, hb, he⟩ := Option.map_eq_some_iff.mp hs
  injection he with hd he
  injection he with har _
  refine ⟨b, hb, .of_definition hd (fun i r hr => har ▸ hr) ?_⟩
  intro hm i slot hsl hi
  refine .inl ⟨slot, ?_, rfl⟩
  rw [hi, ← resident_of_get hb, hw.other, resident_of_get ha, hsl]
  -- A write to an append-only collection creates what is absent.
  intro hin
  obtain ⟨m, hmo, ht⟩ := List.mem_map.mp hin
  obtain ⟨col, body, h⟩ := had.passes m hmo
  have hc := h.collection
  rw [ht, ha] at hc
  cases hc
  have hn := checkTarget_absent h.allowed hm
  rw [ht, hsl] at hn
  cases hn

theorem Continues.archive (hf : Faithful contents res)
    (hh : ∀ i slot, a.documents.get i = some slot → Honest X contents i slot)
    (hro : HistoryArchive.archivedRows X a mf res = .ok rows)
    (he : HistoryArchive.archiveEach X rows a before = .ok (b, after)) :
    Continues X contents a b := by
  have ha := archiveEach_ok he
  refine .of_definition ha.definition ?_ ?_
  · intro i r hr
    rw [ha.others i, hr]
    intro hi
    obtain ⟨row, hrow, rfl⟩ := List.mem_map.mp hi
    rw [ha.fresh row hrow] at hr
    cases hr
  intro _ i slot hsl hi
  by_cases hin : i ∈ rows.map HistoryArchive.Moved.id
  · obtain ⟨row, hrow, rfl⟩ := List.mem_map.mp hin
    obtain ⟨held, archiveId, index, hg, hr⟩ := archivedRows_ok hf hh hro row hrow
    rw [hsl] at hg
    cases hg
    refine .inr ⟨row.reference, ?_, ?_⟩
    · rw [hi, ha.referenced row hrow]
    · rw [hr]
      exact ⟨rfl, rfl⟩
  · refine .inl ⟨slot, ?_, rfl⟩
    rw [hi, ha.documents, if_neg hin, hsl]

theorem Continues.redefine
    (h : SchemaActivation.prepareCollection X u (some a) definition create res = .ok b) :
    Continues X contents a b := by
  obtain ⟨hd, _, hdo, _, _, hg⟩ := prepareCollection_ok h
  obtain ⟨hz, hr, hm⟩ := hg a rfl
  have hn : ∀ i r, a.archivedDocuments.get i ≠ some r := by
    intro i r hi
    have he : a.archivedDocuments.entries = [] := List.eq_nil_of_length_eq_zero hz
    have hmem := OrdMap.mem_entries.mpr hi
    rw [he] at hmem
    cases hmem
  refine ⟨fun i r hi => (hn i r hi).elim, fun i r hi => (hn i r hi).elim, hd ▸ hr, hd ▸ hm, ?_⟩
  rintro _ d (hres | ⟨r, hi, _⟩)
  · rw [Option.map_some, Option.getD_some] at hdo
    exact .inl (hdo ▸ hres)
  · exact absurd hi (hn _ r)

theorem Carries.activated :
    ∀ {u v : TenantState}, SchemaActivation.activateEach X res changes u = .ok v →
      Carries X contents u v := by
  induction changes with
  | nil =>
    intro u v hv
    cases hv
    exact .of_bodies rfl
  | cons change changes ih =>
    intro u v hv
    replace hv := then_ok hv
    obtain ⟨c, hc, hv⟩ := bind_ok hv
    refine Carries.trans (Carries.insert rfl fun a ha => ?_) (ih hv)
    rw [ha] at hc
    exact Continues.redefine hc

theorem Carries.change (hf : Faithful contents res)
    (hh : ∀ c i slot, ChangeFeed.resident s c i = some slot → Honest X contents i slot)
    (h : DocumentChange X cmd rev idx res s t) : Carries X contents s t := by
  cases h with
  | kept hb => exact .of_bodies hb
  | wrote hw => exact .wrote hw.wrote hw.admits
  | @archived request _ _ _ _ _ hg hro he hb =>
    injection hb with hc _
    refine Carries.insert hc fun a ha => ?_
    rw [hg] at ha
    cases ha
    refine Continues.archive hf (fun i slot hs => hh request.manifest.collection i slot ?_) hro he
    rw [resident_of_get hg, hs]
  | activated _ hu hv hb =>
    exact (Carries.of_bodies hu).trans ((Carries.activated hv).trans (.of_bodies hb))
  | redefined hc hb =>
    injection hb with hco _
    refine Carries.insert hco fun a ha => ?_
    rw [ha] at hc
    exact Continues.redefine hc

theorem Carries.placed (h : Placed X contents s t) : Carries X contents s t := by
  intro c a ha
  have hr := h.collections c
  rw [ha] at hr
  generalize t.collections.get c = x at hr
  cases hr with
  | @some _ b hp =>
  have hs := hp.shape
  injection hs with hd hs
  injection hs with har _
  refine ⟨b, rfl, .of_definition hd (fun i r hi => har ▸ hi) fun _ i slot hsl hi => ?_⟩
  have hsp := hp.documents i
  rw [hsl] at hsp
  generalize hb : b.documents.get i = x at hsp
  cases hsp with
  | some hq =>
  refine .inl ⟨_, hi ▸ hb, ?_⟩
  cases hq with
  | kept => rfl
  | placed hde => exact hde.holds

variable {g₀ g g' : Generation Idx Acc}

theorem Carries.step (hk : Kept X contents g) (h : Step X contents g g') :
    Carries X contents g.state g'.state := by
  cases h with
  | publish hp =>
    obtain ⟨cand, changed, placed, hpr, hpl, rfl⟩ := hp.prepared
    obtain ⟨_, he⟩ := prepareCommand_exit hpr
    refine Carries.trans ?_ (Carries.placed hpl)
    rcases exit_documents he with hb | ⟨_, hch⟩
    · exact .of_bodies hb
    · exact .change hp.faithful hk.accounted.honest hch
  | metadata => exact .of_bodies rfl
  | receiptAhead => exact .of_bodies rfl
  | terminalAhead => exact .of_bodies rfl

theorem Carries.run (hk : Kept X contents g) (h : Run X contents g g') :
    Carries X contents g.state g'.state := by
  induction h with
  | refl => exact .of_bodies rfl
  | tail hr hs ih => exact ih.trans (.step (hk.run hr) hs)

/-- Over any history, from any generation on: a collection stays, its retention class is fixed
and, once a document of it is archived, its whole definition; append-only is never given up,
and there every document stays with its identity, version and body. -/
theorem append_only_documents_persist (hstart : Kept X contents g₀) (hr : Run X contents g₀ g)
    (hr' : Run X contents g g') (hc : g.state.collections.get name = some a) :
    ∃ b, g'.state.collections.get name = some b ∧
      b.definition.retentionClass = a.definition.retentionClass ∧
      (a.definition.writeMode = .appendOnly → b.definition.writeMode = .appendOnly ∧
        (∀ i slot, a.documents.get i = some slot → (document contents slot).id = i ∧
          Holds X contents b (document contents slot)) ∧
        ∀ d, Holds X contents a d → Holds X contents b d) ∧
      ∀ i r, a.archivedDocuments.get i = some r →
        b.definition = a.definition ∧ b.archivedDocuments.get i = some r := by
  have hk := hstart.run hr
  obtain ⟨b, hb, h⟩ := Carries.run hk hr' name a hc
  refine ⟨b, hb, h.retention, fun hm => ⟨h.mode hm, fun i slot hs => ?_, h.documents hm⟩,
    fun i r hi => ⟨h.sealed i r hi, h.archived i r hi⟩⟩
  have hi : (document contents slot).id = i := by
    refine (hk.accounted.honest name i slot ?_).document_id
    rw [resident_of_get hc, hs]
  exact ⟨hi, h.documents hm _ (.inl ⟨slot, hi ▸ hs, rfl⟩)⟩

section Ledger

/-- The two documents of the ledger outlive a batch sent again, a refused one, a finalized
upload that adds a third and one left open. -/
theorem append_only_documents_persist_ledger : ∃ g₁ g₂ g₃ g₄ g₅ g₆ g₇ g₈ a b,
    SampleRun g₁ g₂ g₃ g₄ g₅ g₆ g₇ g₈ ∧
    g₂.state.collections.get "ledger" = some a ∧ g₈.state.collections.get "ledger" = some b ∧
    b.definition.writeMode = .appendOnly ∧ b.documents.keys = ["a", "b", "c"] ∧
    ∀ i ∈ ["a", "b"], ∃ slot, a.documents.get i = some slot ∧
      Holds (sampleExternals 8) sampleContents b (document sampleContents slot) := by
  obtain ⟨g₁, g₂, g₃, g₄, g₅, g₆, g₇, g₈, h⟩ := sample_run
  obtain ⟨a, ha, hp⟩ := Option.map_eq_some_iff.mp h.pair
  obtain ⟨hm, hk⟩ := Prod.mk.inj hp
  obtain ⟨b, hb, _, hd, _⟩ := append_only_documents_persist (newGenesis_valid sample_genesis).2
    h.start (h.uploads.trans h.left.run) ha
  obtain ⟨_, hb', he⟩ := Option.map_eq_some_iff.mp (congrArg Facts.ledger h.final)
  cases hb.symm.trans hb'
  refine ⟨g₁, g₂, g₃, g₄, g₅, g₆, g₇, g₈, a, b, h, ha, hb, (hd hm).1, (Prod.mk.inj he).2, ?_⟩
  intro i hi
  rw [← hk] at hi
  obtain ⟨slot, hs⟩ := OrdMap.contains_iff.mp (OrdMap.mem_keys.mp hi)
  exact ⟨slot, hs, ((hd hm).2.1 i slot hs).2⟩

end Ledger

end AppendOnly
