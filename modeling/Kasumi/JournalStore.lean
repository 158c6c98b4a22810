import Kasumi.JournalStorage

/-! The document store behind the journal and what is recorded in it. The store creates
documents that are absent and never changes one; a call may fail before or after it takes
effect, or take effect at any later time. -/
namespace JournalStore

open TenantTypes JournalRecords JournalClient JournalStorage JsonValue SharedCalls List

abbrev Records := String → String → Option Document

/-- Stored documents by collection and id, and the submitted batches that may still arrive. -/
structure Backend where
  records : Records
  inflight : List MutationBatch

def setRecord (records : Records) (collection id : String) (document : Document) : Records :=
  fun c i => if c = collection ∧ i = id then some document else records c i

def createAll (version : ℕ) : List Mutation → Records → Option Records
  | [], records => some records
  | .put collection id body .absent :: rest, records =>
    if records collection id = none then
      createAll version rest (setRecord records collection id ⟨id, version, body⟩)
    else none
  | _ :: _, _ => none

/-- The effect of a batch was had before: its documents are stored as it has them. -/
def AlreadyApplied (records : Records) (batch : MutationBatch) : Prop :=
  ∀ collection id body expected, .put collection id body expected ∈ batch.operations →
    ∃ version, records collection id = some ⟨id, version, body⟩

/-- The answers of the store. Only in a `faulty` world do calls fail that could succeed. -/
inductive Answers (faulty : Prop) : Backend → (c : BackendCall) → Backend → c.Reply → Prop where
  | read (b : Backend) (collection : String) (ids : List String) :
      Answers faulty b (.readRecords collection ids) b (.ok (ids.map (b.records collection)))
  | readFailed (b : Backend) (collection : String) (ids : List String) (message : String)
      (fault : faulty) : Answers faulty b (.readRecords collection ids) b (.error message)
  | applied (b : Backend) (batch : MutationBatch) (version : ℕ) (records : Records)
      (receipt : WriteReceipt) (positive : 0 < version)
      (created : createAll version batch.operations b.records = some records) :
      Answers faulty b (.mutate batch) ⟨records, b.inflight⟩ (.ok receipt)
  | replayed (b : Backend) (batch : MutationBatch) (receipt : WriteReceipt)
      (before : AlreadyApplied b.records batch) :
      Answers faulty b (.mutate batch) b (.ok receipt)
  | refused (b : Backend) (batch : MutationBatch) (message : String) :
      Answers faulty b (.mutate batch) b (.error message)
  | unheard (b : Backend) (batch : MutationBatch) (version : ℕ) (records : Records)
      (message : String) (positive : 0 < version)
      (created : createAll version batch.operations b.records = some records) (fault : faulty) :
      Answers faulty b (.mutate batch) ⟨records, b.inflight⟩ (.error message)
  | delayed (b : Backend) (batch : MutationBatch) (message : String) (fault : faulty) :
      Answers faulty b (.mutate batch) ⟨b.records, batch :: b.inflight⟩ (.error message)
  -- nothing depends on what a receipt says
  | resolved (b : Backend) (scope : MutationReceiptScope) (batch : MutationBatch)
      (reply : Except String (Option MutationReceipt)) :
      Answers faulty b (.resolve scope batch) b reply

variable (F : Serde) (identity : DeploymentIdentity) {s t : Backend}

def phaseId (phase : PhaseKind) : String := documentId F.toFormats identity.operationId phase

/-- A delayed batch arrives, or somebody else creates a document that is not a phase of this
deployment. -/
inductive Drifts : Backend → Backend → Prop where
  | arrives (b : Backend) (batch : MutationBatch) (version : ℕ) (records : Records)
      (sent : batch ∈ b.inflight) (positive : 0 < version)
      (created : createAll version batch.operations b.records = some records) :
      Drifts b ⟨records, b.inflight⟩
  | foreign (b : Backend) (collection id : String) (document : Document)
      (absent : b.records collection id = none) (other : ∀ phase, id ≠ phaseId F identity phase) :
      Drifts b ⟨setRecord b.records collection id document, b.inflight⟩

def service (faulty : Prop) : Service BackendCall.Reply Backend :=
  ⟨Answers faulty, Drifts F identity⟩

def Grows (s t : Backend) : Prop :=
  ∀ collection id document, s.records collection id = some document →
    t.records collection id = some document

theorem Grows.refl (s : Backend) : Grows s s := fun _ _ _ h => h

theorem Grows.trans (hs : Grows s t) (ht : Grows t u) : Grows s u :=
  fun c i d h => ht c i d (hs c i d h)

theorem setRecord_grows {id : String} (sent : List MutationBatch)
    (h : b.records col id = none) : Grows b ⟨setRecord b.records col id doc, sent⟩ := by
  intro c i d hd
  change setRecord _ _ _ _ c i = some d
  rw [setRecord, if_neg]
  · exact hd
  rintro ⟨rfl, rfl⟩
  rw [h] at hd
  cases hd

theorem createAll_grows {after : Records} (h : createAll version ops before = some after) :
    Grows ⟨before, sent⟩ ⟨after, sent'⟩ := by
  induction ops generalizing before with
  | nil =>
    obtain rfl := Option.some.inj h
    exact fun _ _ _ hd => hd
  | cons operation rest ih =>
    match operation, h with
    | .put col id body .absent, h =>
      rw [createAll] at h
      by_cases hn : before col id = none
      · rw [if_pos hn] at h
        exact (setRecord_grows (b := ⟨before, sent⟩) sent hn).trans (ih h)
      · rw [if_neg hn] at h
        cases h

theorem answers_grows (h : Answers faulty s c t r) : Grows s t := by
  cases h with
  | read | readFailed | replayed | refused | resolved => exact Grows.refl _
  | delayed => exact fun _ _ _ hd => hd
  | applied _ _ _ _ _ created => exact createAll_grows created
  | unheard _ _ _ _ _ created => exact createAll_grows created

theorem drifts_grows (h : Drifts F identity s t) : Grows s t := by
  cases h with
  | arrives _ _ _ _ _ created => exact createAll_grows created
  | foreign _ _ _ absent _ => exact setRecord_grows _ absent

section Stored

variable {F identity}

def Present (s : Backend) (collection id : String) (body : Value) : Prop :=
  ∃ version, 0 < version ∧ s.records collection id = some ⟨id, version, body⟩

theorem Present.later {id : String} (h : Present s col id body)
    (hs : Grows s t) : Present t col id body := by
  obtain ⟨version, hv, hr⟩ := h
  exact ⟨version, hv, hs _ _ _ hr⟩

variable (F) in
def ChunksStored (s : Backend) (collection : String) (entry : JournalEntry) : Prop :=
  ∀ i, i < chunkCount (toVec F.toFormats entry).length →
    Present s collection (chunkId F.toFormats entry.identity.operationId entry.phase.kind i)
      (valueOf ((chunkDocument F.toFormats entry (toVec F.toFormats entry) i).toJson F.toFormats))

variable (F) in
inductive Body (s : Backend) (collection : String) (entry : JournalEntry) : Value → Prop where
  | inline : Body s collection entry (valueOf (entry.toJson F.toFormats))
  | chunked (large : inlineEntryBytes < (toVec F.toFormats entry).length)
      (nonempty : chunkCount (toVec F.toFormats entry).length ≠ 0)
      (few : chunkCount (toVec F.toFormats entry).length ≤ maxChunks)
      (stored : ChunksStored F s collection entry) :
      Body s collection entry
        (valueOf ((chunkManifest F.toFormats entry (toVec F.toFormats entry)).toJson F.toFormats))

theorem Body.later {entry : JournalEntry} (h : Body F s col entry body)
    (hs : Grows s t) : Body F t col entry body := by
  cases h with
  | inline => exact .inline
  | chunked large nonempty few stored =>
    exact .chunked large nonempty few fun i hi => (stored i hi).later hs

variable (F identity) in
structure Recorded (s : Backend) (collection : String) (entry : JournalEntry) : Prop where
  same : entry.identity = identity
  valid : entry.validate F.toFormats = .ok ()
  stored : ∃ body, Present s collection (phaseId F identity entry.phase.kind) body ∧
    Body F s collection entry body

theorem Recorded.later {entry : JournalEntry} (h : Recorded F identity s col entry)
    (hs : Grows s t) : Recorded F identity t col entry := by
  obtain ⟨body, hp, hb⟩ := h.stored
  exact ⟨h.same, h.valid, body, hp.later hs, hb.later hs⟩

end Stored

section Reading

variable {F identity} {faulty : Prop} {D : Discipline (service F identity faulty)}

structure Reads (D : Discipline (service F identity faulty)) : Prop where
  grows : ∀ {s t}, D.grows s t → Grows s t
  permits : ∀ t collection ids, D.permits t (.readRecords collection ids)

def ReadBack {α : Type} (faulty : Prop) (a : α) (_ : Backend) (r : Except JournalError α) : Prop :=
  r = .ok a ∨ (faulty ∧ ∃ message, r = .error (.backend message))

theorem ReadBack.ok (h : ReadBack faulty a s (.ok b)) : a = b := by
  obtain h | ⟨-, msg, h⟩ := h
  · exact (Except.ok.inj h).symm
  · cases h

theorem ReadBack.error (h : ReadBack faulty a s (.error e)) : ReadBack faulty b t (.error e) := by
  obtain h | ⟨hf, msg, h⟩ := h
  · cases h
  · cases h
    exact .inr ⟨hf, msg, rfl⟩

theorem answers_read (h : Answers faulty b (.readRecords col ids) b' r) : b' = b ∧
    (r = .ok (ids.map (b.records col)) ∨ (faulty ∧ ∃ msg, r = .error msg)) := by
  cases h with
  | read => exact ⟨rfl, .inl rfl⟩
  | readFailed _ _ msg fault => exact ⟨rfl, .inr ⟨fault, msg, rfl⟩⟩

section

variable (hD : Reads D)

include hD

/-- A read returns what is stored at some moment between its call and its return. -/
theorem readRecords_safe (ids : List String) (ho : ∀ t u, D.grows s t → D.inv t → D.grows t u → D.inv u →
    post u (.ok (ids.map (t.records col)))) (he : ∀ u msg, faulty → D.inv u → post u
    (.error (.backend msg))) : Safe D post (readRecords col ids) s := by
  intro t ht hi
  refine ⟨hD.permits t col ids, fun t' r hr => ?_⟩
  obtain ⟨rfl, rfl | ⟨hf, msg, rfl⟩⟩ := answers_read hr
  · exact fun u hu hiu => ho t' u ht hi hu hiu
  · exact fun u _ hiu => he u msg hf hiu

theorem readRecords_stored (hi : ∀ id ∈ ids, (s.records col id).isSome = true) :
    Safe D (ReadBack faulty (ids.map (s.records col))) (readRecords col ids) s := by
  refine readRecords_safe hD ids (fun t u ht _ _ _ => .inl ?_)
    fun u msg hf _ => .inr ⟨hf, msg, rfl⟩
  congr 1
  apply map_congr_left
  intro id hid
  obtain ⟨doc, hd⟩ := Option.isSome_iff_exists.mp (hi id hid)
  rw [hd, hD.grows ht _ _ _ hd]

theorem readGroups_safe (hs : ChunksStored F s col entry)
    (hc : chunkCount (toVec F.toFormats entry).length ≤ maxChunks) (n : ℕ) :
    ∀ j, j + n = (chunkCount (toVec F.toFormats entry).length + 3) / 4 →
      Safe D (ReadBack faulty (toVec F.toFormats entry))
        (readGroups F col (chunkManifest F.toFormats entry (toVec F.toFormats entry))
          entry.phase.kind ((List.range' j n).map (4 * ·)) ((toVec F.toFormats entry).take
            (min (4 * j) (chunkCount (toVec F.toFormats entry).length) * chunkBytes))) s := by
  induction n generalizing s with
  | zero =>
    intro j hj t _ _
    left
    rw [Nat.min_eq_right (by omega), take_chunkCount]
  | succ n ih =>
    intro j hj
    rw [range'_succ, map_cons, readGroups]
    have hst : 4 * j < chunkCount (toVec F.toFormats entry).length := by omega
    have hids : ∀ id ∈ groupIds F (chunkManifest F.toFormats entry (toVec F.toFormats entry))
        entry.phase.kind (4 * j), (s.records col id).isSome = true := by
      intro id hid
      obtain ⟨i, hi, rfl⟩ := mem_map.mp hid
      rw [mem_range'_1] at hi
      obtain ⟨version, -, hr⟩ := hs i (by simp only [chunkManifest] at hi; omega)
      change (s.records col (chunkId F.toFormats entry.identity.operationId
        entry.phase.kind i)).isSome = true
      rw [hr]
      rfl
    refine (readRecords_stored hD hids).bind (fun t docs ht hi hre => ?_) ?_
    · obtain rfl := hre.ok
      have hl : ChunksStored F t col entry :=
        fun i hi => (hs i hi).later (hD.grows ht)
      have hg := takeChunks_stored entry hc (fun i =>
        (s.records col (chunkId F.toFormats entry.identity.operationId entry.phase.kind i),
          chunkId F.toFormats entry.identity.operationId entry.phase.kind i))
        (min (4 * j + 4) (chunkCount (toVec F.toFormats entry).length) - 4 * j) (4 * j) (by omega)
        fun i _ hi => hs i (by omega)
      refine Safe.lift_ok (failWhen_false (by simp)) (Safe.lift_ok (a := (toVec F.toFormats entry).take
        (min (4 * (j + 1)) (chunkCount (toVec F.toFormats entry).length) * chunkBytes)) ?_
        (ih hl (j + 1) (by omega)))
      rw [groupIds, map_map, zip_map', Nat.min_eq_left (by omega : 4 * j ≤ _)]
      have hsto : 4 * j + (min (4 * j + 4) (chunkCount (toVec F.toFormats entry).length) - 4 * j) =
          min (4 * (j + 1)) (chunkCount (toVec F.toFormats entry).length) := by omega
      rw [hsto] at hg
      exact hg
    · exact fun t e _ _ he => he.error

theorem readChunked_safe (hs : ChunksStored F s col entry) (hl : inlineEntryBytes <
    (toVec F.toFormats entry).length) (hn : chunkCount (toVec F.toFormats entry).length ≠ 0) (hc :
    chunkCount (toVec F.toFormats entry).length ≤ maxChunks) : Safe D (ReadBack faulty entry)
    (readChunked F col (chunkManifest F.toFormats entry (toVec F.toFormats entry))
    entry.phase.kind) s := by
  set mf := chunkManifest F.toFormats entry (toVec F.toFormats entry) with hmf
  have hch : (mf.format != 1 || mf.phase != entry.phase.kind.slug || mf.chunks == 0 ||
      mf.chunks > maxChunks ||
      mf.payloadBytes ≤
        inlineEntryBytes ||
      chunkCount mf.payloadBytes !=
        mf.chunks ||
      (sha256 mf.payloadSha256
        "chunked payload digest").toOption.isNone) = false := by
    simp [hmf, chunkManifest, sha256_digest, Except.toOption, hn, hc, Nat.not_le.mpr hl]
  have hg := readGroups_safe hD hs hc
    ((chunkCount (toVec F.toFormats entry).length + 3) / 4) 0 (Nat.zero_add _)
  rw [Nat.mul_zero, Nat.zero_min, Nat.zero_mul, take_zero, ← range_eq_range'] at hg
  refine Safe.lift_ok (failWhen_false hch) (hg.bind (fun t payload _ _ hr => ?_)
    fun t e _ _ he => he.error)
  obtain rfl := hr.ok
  exact fun u _ _ => .inl (decodePayload_toVec entry)

theorem readBody_safe (hb : Body F s jnl.collection entry body) (hs : entry.identity = identity) :
    Safe D (ReadBack faulty entry) (readBody F jnl identity entry.phase.kind body) s := by
  cases hb with
  | inline =>
    rw [readBody, member_entry]
    intro t _ _
    left
    rw [JournalEntry.ofValue_toJson]
    rfl
  | chunked large nonempty few stored =>
    rw [readBody, member_manifest, if_pos rfl, manifest_ofValue few]
    refine Safe.lift_ok rfl (Safe.lift_ok (failWhen_false ?_) ?_)
    · simp [chunkManifest, hs]
    · exact readChunked_safe hD stored large nonempty few

theorem readPhase_safe (hb : Body F s jnl.collection entry doc.body)
    (hs : entry.identity = identity) (hv : entry.validate F.toFormats = .ok ()) :
    Safe D (ReadBack faulty entry) (readPhase F jnl identity entry.phase.kind doc) s := by
  refine (readBody_safe hD hb hs).bind (fun t e _ _ hr => ?_) fun t e _ _ he => he.error
  obtain rfl := hr.ok
  rw [hv]
  refine Safe.lift_ok rfl (Safe.lift_ok (failWhen_false ?_) fun u _ _ => .inl rfl)
  simp [hs]

end

end Reading

end JournalStore
