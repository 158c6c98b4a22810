import Kasumi.Publications

/-! What an archive does to its collection: the rows it takes leave the resident documents and
are referenced instead, each by the digest of the document it was. -/
namespace ArchiveEffects

open TenantTypes Mutations FallibleSteps TenantFrames MutationEffects Publications HistoryArchive
  List OrdMap

variable {Idx Acc : Type} {X : Externals Idx Acc} {contents : StoredDocument → Document}
  {id : String} {slot : DocumentSlot} {rows : List Moved}

/-- A slot is stored under its own identity, and a descriptor describes what the store holds. -/
structure Honest (X : Externals Idx Acc) (contents : StoredDocument → Document) (id : String)
    (slot : DocumentSlot) : Prop where
  keyed : slotId slot = id
  described : ∀ d, slot = .stored d → Describes X contents d (contents d)

theorem Honest.document_id (h : Honest X contents id slot) : (document contents slot).id = id := by
  cases slot with
  | pending d => exact h.keyed
  | stored d =>
    have hi := (h.described d rfl).id
    rw [← h.keyed]
    exact hi.symm

theorem Honest.bodyBytes (h : Honest X contents id slot) :
    Mutations.bodyBytes X slot = X.len (.body (document contents slot).body) := by
  cases slot with
  | pending d => rfl
  | stored d => exact (h.described d rfl).bodyBytes

def References (X : Externals Idx Acc) (contents : StoredDocument → Document)
    (collection : CollectionState) (row : Moved) : Prop :=
  ∃ slot archiveId index, collection.documents.get row.id = some slot ∧
    row = moved X collection.definition archiveId index (document contents slot)

theorem References.bodyBytes
    (hhonest : ∀ i slot, col.documents.get i = some slot → Honest X contents i slot)
    (h : References X contents col row) : ∃ slot, col.documents.get row.id = some slot ∧
    Mutations.bodyBytes X slot = row.bodyBytes := by
  obtain ⟨slot, archiveId, index, hg, hr⟩ := h
  refine ⟨slot, hg, ?_⟩
  rw [(hhonest _ _ hg).bodyBytes, hr]
  rfl

section Rows

variable {col : CollectionState} {res : Resolver}
  (hfaithful : Faithful contents res)
  (hhonest : ∀ i slot, col.documents.get i = some slot → Honest X contents i slot)
  {mf : HistoryArchiveManifest} {cutoff : ℕ} {rows : List Moved}

include hfaithful in
theorem loadEach_ok {rows : List (String × DocumentSlot)} : ∀ {docs : List Document},
    loadEach res rows = .ok docs → ∀ d ∈ docs, ∃ entry ∈ rows, d = document contents entry.2 := by
  induction rows with
  | nil =>
    intro docs h d hd
    cases h
    cases hd
  | cons entry rest ih =>
    intro docs h d hd
    obtain ⟨first, hf, h⟩ := bind_ok h
    obtain ⟨others, ho, h⟩ := bind_ok h
    cases h
    rcases mem_cons.mp hd with he | hd
    · exact ⟨entry, mem_cons_self, by rw [he, loan_faithful hfaithful hf]⟩
    · obtain ⟨found, hfo, he⟩ := ih ho d hd
      exact ⟨found, mem_cons_of_mem _ hfo, he⟩

include hfaithful hhonest in
theorem moveChunk_ok {index : ℕ}
    (h : moveChunk X mf col.definition (eligible col cutoff) res index chunk = .ok rows) :
    ∀ row ∈ rows, References X contents col row := by
  replace h := then_ok h
  obtain ⟨docs, hdo, h⟩ := bind_ok h
  replace h := then_ok h
  cases h
  intro row hr
  obtain ⟨d, hd, hm⟩ := mem_map.mp hr
  obtain ⟨⟨key, slot⟩, hen, heq⟩ := loadEach_ok hfaithful hdo d hd
  have he := (mem_filter.mp hen).1
  have hg := mem_entries.mp (mem_filter.mp he).1
  have hi := (hhonest _ _ hg).document_id
  refine ⟨slot, mf.archiveId, index, ?_, ?_⟩
  · rw [← hm, heq]
    change col.documents.get (document contents slot).id = some slot
    rw [hi]
    exact hg
  · rw [← hm, heq]

include hfaithful hhonest in
theorem moveChunks_ok : ∀ {index : ℕ} {rows : List Moved},
    moveChunks X mf col.definition (eligible col cutoff) res index chunks = .ok rows → ∀ row ∈ rows,
    References X contents col row := by
  induction chunks with
  | nil =>
    intro index rows h row hr
    cases h
    cases hr
  | cons chunk chunks ih =>
    intro index rows h row hr
    obtain ⟨first, hf, h⟩ := bind_ok h
    obtain ⟨others, ho, h⟩ := bind_ok h
    cases h
    rcases mem_append.mp hr with hr | hr
    · exact moveChunk_ok hfaithful hhonest hf row hr
    · exact ih ho row hr

include hfaithful hhonest in
theorem archivedRows_ok (h : archivedRows X col mf res = .ok rows) :
    ∀ row ∈ rows, References X contents col row := by
  replace h := then_ok h
  obtain ⟨_, _, h⟩ := bind_ok h
  replace h := then_ok h
  obtain ⟨moved, hm, h⟩ := bind_ok h
  replace h := then_ok h
  cases h
  exact moveChunks_ok hfaithful hhonest hm

end Rows

structure ArchivedAll (X : Externals Idx Acc) (rows : List Moved) (a b : CollectionState) :
    Prop where
  definition : b.definition = a.definition
  epoch : b.dataEpoch = a.dataEpoch
  documents : ∀ i, b.documents.get i =
    if i ∈ rows.map Moved.id then none else a.documents.get i
  referenced : ∀ row ∈ rows, b.archivedDocuments.get row.id = some row.reference
  others : ∀ i, i ∉ rows.map Moved.id → b.archivedDocuments.get i = a.archivedDocuments.get i
  fresh : ∀ row ∈ rows, a.archivedDocuments.get row.id = none

/-- The totals of a collection whose rows are archived: no document is lost, and the resident
bytes shrink by those of the rows. -/
structure ArchivedTotals (X : Externals Idx Acc) (a b : CollectionState) (before after : ℕ) :
    Prop where
  count : b.documents.size + b.archivedDocuments.size = a.documents.size + a.archivedDocuments.size
  bytes : after + a.documents.weight (fun _ slot => Mutations.bodyBytes X slot) =
    before + b.documents.weight (fun _ slot => Mutations.bodyBytes X slot)

def archiveOne (collection : CollectionState) (row : Moved) (total : ℕ) : CollectionState :=
  { collection with
    archivedDocumentBytes := total
    archivedDocuments := collection.archivedDocuments.insert row.id row.reference
    documents := collection.documents.remove row.id }

theorem archiveEach_ok : ∀ {a b : CollectionState} {before after : ℕ},
    archiveEach X rows a before = .ok (b, after) → ArchivedAll X rows a b := by
  induction rows with
  | nil =>
    intro a b before after h
    cases h
    exact ⟨rfl, rfl, by simp, by simp, fun _ _ => rfl, by simp⟩
  | cons row rest ih =>
    intro a b before after h
    obtain ⟨_, hf, h⟩ := bind_ok h
    obtain ⟨bs, _, h⟩ := bind_ok h
    obtain ⟨total, _, h⟩ := bind_ok h
    obtain ⟨logical, _, h⟩ := bind_ok h
    have hr : ArchivedAll X rest (archiveOne a row total) b := ih h
    have hne : a.archivedDocuments.get row.id = none := by
      have := require_ok hf
      unfold OrdMap.contains at this
      simpa using this
    -- A row that is archived cannot be archived again, so the identities are distinct.
    have hd : ∀ other ∈ rest, other.id ≠ row.id := by
      intro other ho he
      have hno := hr.fresh other ho
      change (a.archivedDocuments.insert row.id row.reference).get other.id = none at hno
      rw [he, get_insert_self] at hno
      cases hno
    have hn : row.id ∉ rest.map Moved.id := by
      intro hm
      obtain ⟨other, ho, he⟩ := mem_map.mp hm
      exact hd other ho he
    refine ⟨hr.definition, hr.epoch, ?_, ?_, ?_, ?_⟩
    · intro i
      rw [hr.documents]
      change (if _ then none else (a.documents.remove row.id).get i) = _
      rw [get_remove, map_cons]
      by_cases hi : i = row.id
      · simp [hi]
      · simp [hi]
    · intro other ho
      rcases mem_cons.mp ho with he | ho
      · rw [he, hr.others _ hn]
        exact get_insert_self _ _ _
      · exact hr.referenced other ho
    · intro i hi
      rw [map_cons, mem_cons, not_or] at hi
      rw [hr.others i hi.2]
      exact get_insert_of_ne _ _ hi.1
    intro other ho
    rcases mem_cons.mp ho with he | ho
    · rw [he]
      exact hne
    have hno := hr.fresh other ho
    change (a.archivedDocuments.insert row.id row.reference).get other.id = none at hno
    rw [get_insert_of_ne _ _ (hd other ho)] at hno
    exact hno

theorem archiveEach_totals : ∀ {a b : CollectionState} {before after : ℕ},
    archiveEach X rows a before = .ok (b, after) → (∀ row ∈ rows, ∃ slot, a.documents.get row.id =
    some slot ∧ Mutations.bodyBytes X slot = row.bodyBytes) → ArchivedTotals X a b before after :=
    by
  induction rows with
  | nil =>
    intro a b before after h _
    cases h
    exact ⟨rfl, rfl⟩
  | cons row rest ih =>
    intro a b before after h hr
    have hal := archiveEach_ok h
    obtain ⟨_, hf, h⟩ := bind_ok h
    obtain ⟨bs, _, h⟩ := bind_ok h
    obtain ⟨total, _, h⟩ := bind_ok h
    obtain ⟨logical, hl, h⟩ := bind_ok h
    obtain ⟨slot, hs, hb⟩ := hr row mem_cons_self
    have hre := archiveEach_ok h
    have hne : ArchivedTotals X (archiveOne a row total) b logical after := by
      apply ih h
      intro other ho
      obtain ⟨held, hh, hsi⟩ := hr other (mem_cons_of_mem _ ho)
      refine ⟨held, ?_, hsi⟩
      rw [get_remove, if_neg, hh]
      intro he
      have hn := hre.fresh other ho
      rw [he, get_insert_self] at hn
      cases hn
    have hg := size_set a.documents row.id none
    have ha := size_set a.archivedDocuments row.id (some row.reference)
    have hw := weight_set (fun (_ : String) slot => Mutations.bodyBytes X slot)
      a.documents row.id none
    rw [hs] at hg hw
    rw [hal.fresh row mem_cons_self] at ha
    obtain ⟨hsub, hle⟩ := checkedSub_some (orError_ok hl)
    have hc := hne.count
    have hsu := hne.bytes
    change _ = (a.documents.set row.id none).size +
      (a.archivedDocuments.set row.id (some row.reference)).size at hc
    change after + (a.documents.set row.id none).weight _ = _ at hsu
    simp only [Option.toList_some, length_singleton, Option.toList_none, length_nil,
      Option.map_some, Option.getD_some, Option.map_none, Option.getD_none] at hg ha hw
    constructor
    · omega
    · omega

end ArchiveEffects
