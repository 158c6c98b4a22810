import Kasumi.JournalStore
import Kasumi.JsonUnique

/-! The journal keeps its phases: however the calls of any number of clients interleave, fail
and arrive late, the stored phase records of a deployment are an accepted sequence that only
grows at its end. -/
namespace JournalSafety

open TenantTypes JournalRecords JournalClient JournalStorage JournalStore JsonValue SharedCalls List

variable (F : Serde) (identity : DeploymentIdentity)

def frozen (s : Backend) : (c : BackendCall) → c.Reply
  | .mutate _ => .error ""
  | .resolve _ _ => .ok none
  | .readRecords collection ids => .ok (ids.map (s.records collection))

/-- What is stored for one phase, decoded as the journal decodes it. -/
def storedEntry (s : Backend) (collection : String) (phase : PhaseKind) :
    Except JournalError (Option JournalEntry) :=
  match s.records collection (phaseId F identity phase) with
  | none => .ok none
  | some document =>
    ((readPhase F ⟨collection, identity.journalScope⟩ identity phase document).eval
      (frozen s)).map some

/-- The stored phase records are exactly the entries of an accepted sequence. -/
structure StoredPrefix (s : Backend) (collection : String) (entries : List JournalEntry) :
    Prop where
  accepted : validateSequence F.toFormats entries = .ok ()
  stored : ∀ phase, storedEntry F identity s collection phase = .ok entries[phase.index]?

def reading : Discipline (service F identity False) where
  inv _ := True
  grows := Grows
  permits _ c := ∃ collection ids, c = .readRecords collection ids
  refl := Grows.refl
  trans := Grows.trans
  answered := fun _ _ h => ⟨trivial, answers_grows h⟩
  drifted := fun _ h => ⟨trivial, drifts_grows F identity h⟩

variable {F identity} {s t : Backend} {col : String} {batch : MutationBatch}

theorem reading_reads : Reads (reading F identity) :=
  ⟨id, fun _ col ids => ⟨col, ids, rfl⟩⟩

theorem storedEntry_recorded (h : Recorded F identity s col entry) :
    storedEntry F identity s col entry.phase.kind = .ok (some entry) := by
  obtain ⟨body, ⟨version, -, hr⟩, hb⟩ := h.stored
  have hs : Safe (reading F identity) (ReadBack False entry)
      (readPhase F ⟨col, identity.journalScope⟩ identity entry.phase.kind
        ⟨phaseId F identity entry.phase.kind, version, body⟩) s :=
    readPhase_safe reading_reads hb h.same h.valid
  have hre := hs.eval trivial (frozen s) (by
    rintro c ⟨col, ids, rfl⟩
    exact .read s col ids)
  obtain hre | ⟨hf, -⟩ := hre
  · rw [storedEntry, hr]
    simp only [hre]
    rfl
  · exact hf.elim

theorem Recorded.unique (ha : Recorded F identity s col a)
    (hb : Recorded F identity s col b) (hk : a.phase.kind = b.phase.kind) : a = b := by
  have he := storedEntry_recorded ha
  rw [hk, storedEntry_recorded hb] at he
  exact (Option.some.inj (Except.ok.inj he)).symm

theorem storedPrefix_unique (ha : StoredPrefix F identity s col a)
    (hb : StoredPrefix F identity s col b) : a = b := by
  apply ext_getElem?
  intro i
  by_cases hi : i < PhaseKind.order.length
  · have hin : (PhaseKind.order.get ⟨i, hi⟩).index = i :=
      index_of_order (getElem?_eq_getElem hi)
    have hs := ha.stored (PhaseKind.order.get ⟨i, hi⟩)
    rw [hb.stored, hin] at hs
    exact (Except.ok.inj hs).symm
  have hl := accepted_length ha.accepted
  have hlb := accepted_length hb.accepted
  rw [getElem?_eq_none (by omega), getElem?_eq_none (by omega)]

variable (F identity) in
/-- The phase records of a collection: those of the sequence, and none after them. -/
structure Holds (s : Backend) (collection : String) (entries : List JournalEntry) : Prop where
  accepted : validateSequence F.toFormats entries = .ok ()
  recorded : ∀ e ∈ entries, Recorded F identity s collection e
  absent : ∀ phase : PhaseKind, entries.length ≤ phase.index →
    s.records collection (phaseId F identity phase) = none

section Holding

variable {entries : List JournalEntry}

section

variable (h : Holds F identity s col entries)

include h

theorem Holds.place (he : Recorded F identity s col entry) :
    entries[entry.phase.kind.index]? = some entry := by
  have hl : entry.phase.kind.index < entries.length := by
    by_contra hg
    obtain ⟨body, ⟨version, -, hr⟩, -⟩ := he.stored
    rw [h.absent _ (by omega)] at hr
    cases hr
  have hp := getElem?_eq_getElem hl
  have hk := accepted_kind h.accepted hp
  rw [order_index] at hk
  have hs := Recorded.unique he (h.recorded _ (getElem_mem hl)) (Option.some.inj hk)
  rw [hp, ← hs]

theorem Holds.storedPrefix : StoredPrefix F identity s col entries := by
  refine ⟨h.accepted, fun phase => ?_⟩
  by_cases hl : phase.index < entries.length
  · have hp := getElem?_eq_getElem hl
    have hk := accepted_kind h.accepted hp
    rw [order_index] at hk
    have hs := storedEntry_recorded (h.recorded _ (getElem_mem hl))
    rw [← Option.some.inj hk] at hs
    rw [hp, hs]
  · rw [storedEntry, h.absent phase (by omega), getElem?_eq_none (by omega)]

theorem Holds.extends (hl : Holds F identity t col later) (hs : Grows s t) : entries <+: later := by
  have hp : ∀ i (hi : i < entries.length), later[i]? = some (entries.get ⟨i, hi⟩) := by
    intro i hi
    have hk := accepted_kind h.accepted (getElem?_eq_getElem hi)
    have hr := (h.recorded _ (getElem_mem hi)).later hs
    have := hl.place hr
    rwa [index_of_order hk] at this
  rw [prefix_iff_eq_take]
  apply ext_getElem?
  intro i
  by_cases hi : i < entries.length
  · rw [getElem?_take_of_lt hi, hp i hi, getElem?_eq_getElem hi]
    rfl
  · rw [getElem?_eq_none (by omega), getElem?_eq_none (by simp; omega)]

theorem Holds.set_other {id : String} (ha : s.records c id = none)
    (ho : c ≠ col ∨ ∀ phase, id ≠ phaseId F identity phase) :
    Holds F identity ⟨setRecord s.records c id doc, sent⟩ col entries := by
  refine ⟨h.accepted, fun e he => (h.recorded e he).later (setRecord_grows sent ha),
    fun phase hp => ?_⟩
  change setRecord _ _ _ _ _ _ = none
  rw [setRecord, if_neg]
  · exact h.absent phase hp
  rintro ⟨rfl, hid⟩
  obtain hc | hi := ho
  · exact hc rfl
  · exact hi phase hid.symm

theorem Holds.set_next {entry : JournalEntry}
    {body : Value} (hea : ∀ e ∈ earlier, Recorded F identity s col e)
    (ha : validateSequence F.toFormats (earlier ++ [entry]) = .ok ())
    (hs : entry.identity = identity) (hva : entry.validate F.toFormats = .ok ())
    (hb : Body F s col entry body) (hv : 0 < version)
    (hab : s.records col (phaseId F identity entry.phase.kind) = none) :
    Holds F identity ⟨setRecord s.records col (phaseId F identity entry.phase.kind)
      ⟨phaseId F identity entry.phase.kind, version, body⟩, sent⟩ col (earlier ++ [entry]) := by
  have hg : Grows s ⟨setRecord s.records col (phaseId F identity entry.phase.kind)
      ⟨phaseId F identity entry.phase.kind, version, body⟩, sent⟩ := setRecord_grows sent hab
  have hi : entry.phase.kind.index = earlier.length := by
    apply index_of_order
    exact accepted_kind ha (by simp)
  have hl : entries.length ≤ earlier.length := by
    by_contra hgt
    have hlt : entry.phase.kind.index < entries.length := by omega
    have hk := accepted_kind h.accepted (getElem?_eq_getElem hlt)
    rw [order_index] at hk
    obtain ⟨_, ⟨_, -, hr⟩, -⟩ := (h.recorded _ (getElem_mem hlt)).stored
    rw [← Option.some.inj hk, hab] at hr
    cases hr
  refine ⟨ha, fun e he => ?_, fun phase hp => ?_⟩
  · obtain he | he := mem_append.mp he
    · exact (hea e he).later hg
    obtain rfl := mem_singleton.mp he
    refine ⟨hs, hva, body, ⟨version, hv, ?_⟩, hb.later hg⟩
    exact if_pos ⟨rfl, rfl⟩
  rw [length_append, length_singleton] at hp
  change setRecord _ _ _ _ _ _ = none
  rw [setRecord, if_neg]
  · exact h.absent phase (by omega)
  rintro ⟨-, hid⟩
  have := documentId_injective hid
  subst this
  omega

end

end Holding

variable (F identity) in
/-- The batches clients may submit: documents that are no phase, and the phase document of an
entry that continues recorded ones. -/
inductive Writable (s : Backend) : MutationBatch → Prop where
  | other (collection id : String) (body : Value) (h : ∀ phase, id ≠ phaseId F identity phase) :
      Writable s (putBatch collection id body)
  | next (collection : String) (entry : JournalEntry) (body : Value) (earlier : List JournalEntry)
      (same : entry.identity = identity) (valid : entry.validate F.toFormats = .ok ())
      (stored : Body F s collection entry body)
      (recorded : ∀ e ∈ earlier, Recorded F identity s collection e)
      (accepted : validateSequence F.toFormats (earlier ++ [entry]) = .ok ()) :
      Writable s (putBatch collection (phaseId F identity entry.phase.kind) body)

theorem Writable.later (h : Writable F identity s batch) (hs : Grows s t) :
    Writable F identity t batch := by
  cases h with
  | other col id body h => exact .other col id body h
  | next col entry body earlier same valid stored recorded accepted =>
    exact .next col entry body earlier same valid (stored.later hs)
      (fun e he => (recorded e he).later hs) accepted

theorem createAll_put {id : String} {body : Value} {after : Records}
    (h : createAll version (putBatch col id body).operations before = some after) :
    before col id = none ∧ after = setRecord before col id ⟨id, version, body⟩ := by
  by_cases hn : before col id = none
  · simp only [putBatch, createAll, if_pos hn, Option.some.injEq] at h
    exact ⟨hn, h.symm⟩
  · simp only [putBatch, createAll, if_neg hn] at h
    cases h

variable (F identity) in
/-- Every collection holds an accepted sequence, and so it will when delayed batches arrive. -/
structure Kept (s : Backend) : Prop where
  holds : ∀ collection, ∃ entries, Holds F identity s collection entries
  writable : ∀ batch ∈ s.inflight, Writable F identity s batch

theorem Kept.created {records : Records} (h : Kept F identity s) (hba : Writable F identity s batch)
    (hv : 0 < version) (hcr : createAll version batch.operations s.records = some records) :
    Kept F identity ⟨records, s.inflight⟩ := by
  refine ⟨fun c => ?_, fun b hb => (h.writable b hb).later (createAll_grows hcr)⟩
  obtain ⟨entries, he⟩ := h.holds c
  cases hba with
  | other col id body ho =>
    obtain ⟨ha, rfl⟩ := createAll_put hcr
    exact ⟨entries, he.set_other ha (.inr ho)⟩
  | next col entry body earlier same valid stored recorded accepted =>
    obtain ⟨ha, rfl⟩ := createAll_put hcr
    by_cases hc : col = c
    · subst hc
      exact ⟨_, he.set_next recorded accepted same valid stored hv ha⟩
    · exact ⟨entries, he.set_other ha (.inl hc)⟩

variable (F identity) in
def keeping : Discipline (service F identity True) where
  inv := Kept F identity
  grows := Grows
  permits s c := ∀ batch, c = .mutate batch → Writable F identity s batch
  refl := Grows.refl
  trans := Grows.trans
  answered := by
    intro s t c r hkept hpermits hanswer
    refine ⟨?_, answers_grows hanswer⟩
    cases hanswer with
    | read | readFailed | replayed | refused | resolved => exact hkept
    | applied batch version records receipt positive created =>
      exact hkept.created (hpermits batch rfl) positive created
    | unheard batch version records message positive created =>
      exact hkept.created (hpermits batch rfl) positive created
    | delayed batch =>
      refine ⟨fun collection => ?_, fun b hb => ?_⟩
      · obtain ⟨entries, hentries⟩ := hkept.holds collection
        exact ⟨entries, hentries.accepted, fun e he => (hentries.recorded e he).later fun _ _ _ h => h,
          hentries.absent⟩
      · obtain rfl | hb := List.mem_cons.mp hb
        · exact (hpermits b rfl).later fun _ _ _ h => h
        · exact (hkept.writable b hb).later fun _ _ _ h => h
  drifted := by
    intro s t hkept hdrift
    refine ⟨?_, drifts_grows F identity hdrift⟩
    cases hdrift with
    | arrives batch version records sent positive created =>
      exact hkept.created (hkept.writable batch sent) positive created
    | foreign collection id document absent other =>
      refine ⟨fun c => ?_, fun b hb => (hkept.writable b hb).later (setRecord_grows _ absent)⟩
      obtain ⟨entries, hentries⟩ := hkept.holds c
      exact ⟨entries, hentries.set_other absent (.inr other)⟩

theorem keeping_reads : Reads (keeping F identity) :=
  ⟨id, fun _ _ _ _ h => nomatch h⟩

section Operations

variable {entries : List JournalEntry} {u : Backend} {id : String} {entry : JournalEntry}

/-- The phase documents read at one moment give the sequence held then. -/
theorem readPhases_safe (h : Holds F identity u jnl.collection entries) (n : ℕ) :
    ∀ i, i + n = PhaseKind.order.length → ∀ s, Grows u s →
      Safe (keeping F identity) (ReadBack True entries)
        (readPhases F jnl identity (decide (entries.length < i))
          ((PhaseKind.order.drop i).map fun phase =>
            ((u.records jnl.collection (phaseId F identity phase), phaseId F identity phase),
              phase)) (entries.take i)) s := by
  induction n with
  | zero =>
    intro i hi s _
    have hl := accepted_length h.accepted
    rw [drop_of_length_le (by omega), map_nil, readPhases,
      take_of_length_le (by omega)]
    exact fun t _ _ => .inl rfl
  | succ n ih =>
    intro i hi s hu
    have hi' : i < PhaseKind.order.length := by omega
    rw [drop_eq_getElem_cons hi', map_cons]
    by_cases hlt : i < entries.length
    · have hk := accepted_kind h.accepted (getElem?_eq_getElem hlt)
      rw [getElem?_eq_getElem hi'] at hk
      have hr := h.recorded _ (getElem_mem hlt)
      obtain ⟨body, ⟨version, hv, hre⟩, hb⟩ := hr.stored
      rw [Option.some.inj hk, hre, readPhases]
      refine Safe.lift_ok (failWhen_false ?_) ((readPhase_safe keeping_reads (hb.later hu) hr.same
        hr.valid).bind (fun t e hs _ hrea => ?_) fun t e _ _ he => he.error)
      · simp only [Bool.or_eq_false_iff, decide_eq_false_iff_not, bne_self_eq_false,
          beq_eq_false_iff_ne]
        exact ⟨⟨by omega, trivial⟩, by omega⟩
      obtain rfl := hrea.ok
      have hn := ih (i + 1) (by omega) t (hu.trans hs)
      rw [take_succ_eq_append_getElem hlt] at hn
      have hg : decide (entries.length < i) = decide (entries.length < i + 1) := by
        rw [decide_eq_decide]
        omega
      rw [hg]
      exact hn
    have hin : (PhaseKind.order.get ⟨i, hi'⟩).index = i :=
      index_of_order (getElem?_eq_getElem hi')
    have ha := h.absent (PhaseKind.order.get ⟨i, hi'⟩) (by omega)
    have hn := ih (i + 1) (by omega) s hu
    rw [get_eq_getElem] at ha
    rw [ha, readPhases]
    rw [take_of_length_le (by omega), decide_eq_true (by omega)] at hn
    rw [take_of_length_le (by omega)]
    exact hn

/-- A recovery that succeeds returns the sequence held at some moment while it ran. -/
def Observed (F : Serde) (identity : DeploymentIdentity) (collection : String) (s : Backend)
    (t : Backend) (view : JournalView) : Prop :=
  ∃ u, Grows s u ∧ Grows u t ∧ Holds F identity u collection view.entries

theorem recoverUntil_safe (jnl : Journal) (s : Backend) : Safe (keeping F identity) (Yields
    (Observed F identity jnl.collection s)) (recoverUntil F jnl identity) s := by
  refine Safe.lift_andThen fun _ _ => Safe.lift_andThen fun _ _ => ?_
  have hd : Safe (keeping F identity) (Yields fun t docs =>
      ∃ u, Grows s u ∧ Grows u t ∧ (∃ entries, Holds F identity u jnl.collection entries) ∧
        docs = (phaseIds F identity).map (u.records jnl.collection))
      (readRecords jnl.collection (phaseIds F identity)) s := by
    refine readRecords_safe keeping_reads _ (fun u t hs hk hu _ docs h => ?_)
      fun t msg _ _ docs h => nomatch h
    exact ⟨u, hs, hu, hk.holds _, (Except.ok.inj h).symm⟩
  refine hd.andThen fun t docs _ _ hr => ?_
  obtain ⟨u, hs, hu, ⟨entries, he⟩, rfl⟩ := hr
  refine Safe.lift_ok (failWhen_false (by simp)) ?_
  have hp := readPhases_safe he 8 0 rfl t hu
  have hz : (((phaseIds F identity).map (u.records jnl.collection)).zip
      (phaseIds F identity)).zip PhaseKind.order = (PhaseKind.order.drop 0).map fun phase =>
        ((u.records jnl.collection (phaseId F identity phase), phaseId F identity phase),
          phase) := rfl
  rw [← hz, take_zero, decide_eq_false (Nat.not_lt_zero _)] at hp
  refine hp.bind (fun v read ht _ hr => ?_) fun v e _ _ _ view h => nomatch h
  obtain rfl := hr.ok
  refine Safe.lift_ok he.accepted fun w hv _ view h => ?_
  obtain rfl := Except.ok.inj h
  exact ⟨u, hs, hu.trans (ht.trans hv), he⟩

theorem submit_safe (h : Writable F identity s batch) :
    Safe (keeping F identity) (Yields fun _ _ => True) (submit F scope batch) s := by
  have hr : ∀ t submission, Safe (keeping F identity) (Yields fun _ _ => True)
      (resolution scope batch submission) t := by
    intro t submission
    cases submission with
    | ok rcpt => exact fun _ _ _ _ _ => trivial
    | error msg =>
      refine (Safe.ask fun _ _ _ _ h => nomatch h).andThen ?_
      exact fun _ _ _ _ _ _ _ _ _ _ => trivial
  have hm : Safe (keeping F identity) (Yields fun _ _ => True) (mutate batch) s := by
    apply Safe.ask
    rintro t hs - b ⟨⟩
    exact h.later hs
  refine hm.andThen fun t submission _ _ _ => ?_
  refine (hr t submission).andThen fun u rcpt _ _ _ => ?_
  exact Safe.lift_andThen fun _ _ _ _ _ _ _ => trivial

theorem readOne_safe (id : String) : Safe (keeping F identity)
    (Yields fun t docs => ∃ u, Grows u t ∧ docs = [u.records col id]) (readRecords col [id]) s := by
  refine readRecords_safe keeping_reads [id] (fun u t _ _ hu _ docs h => ?_)
    fun t msg _ _ docs h => nomatch h
  exact ⟨u, hu, (Except.ok.inj h).symm⟩

theorem present_of_same (hr : u.records col id = some doc) (hu : Grows u t)
    (h : failWhen (!sameDocument doc id body) .conflict = .ok x) : Present t col id body := by
  have hs := failWhen_ok h
  simp only [sameDocument, Bool.not_eq_false', Bool.and_eq_true, beq_iff_eq,
    decide_eq_true_eq] at hs
  obtain ⟨⟨rfl, hv⟩, rfl⟩ := hs
  exact ⟨doc.version, hv, hu _ _ _ hr⟩

theorem appendChunk_safe (hi : ∀ phase, id ≠ phaseId F identity phase) :
    Safe (keeping F identity) (Yields fun t _ => Present t jnl.collection id body)
      (appendChunk F jnl id body) s := by
  refine (readOne_safe id).andThen fun t docs _ _ hrea => ?_
  obtain ⟨u, hut, rfl⟩ := hrea
  match hre : u.records jnl.collection id with
  | some doc =>
    exact fun v ht _ x h => present_of_same hre (hut.trans ht) h
  | none =>
    refine (submit_safe (.other jnl.collection id body hi)).andThen
      fun v submitted _ _ _ => ?_
    refine (readOne_safe id).mapError.andThen fun w after _ _ hrea => ?_
    refine Safe.lift_andThen fun _ _ => ?_
    obtain ⟨u', hu, rfl⟩ := hrea
    match hr : u'.records jnl.collection id with
    | some doc => exact fun z hw _ x h => present_of_same hr (hu.trans hw) h
    | none => exact fun _ _ _ x h => nomatch h

theorem appendChunks_safe
    (hi : ∀ c ∈ chunks, ∀ phase, c.1 ≠ phaseId F identity phase) : Safe (keeping F identity)
    (Yields fun t _ => ∀ c ∈ chunks, Present t jnl.collection c.1 c.2)
    (appendChunks F jnl chunks) s := by
  induction chunks generalizing s with
  | nil => exact fun _ _ _ _ _ c hc => nomatch hc
  | cons chunk rest ih =>
    refine (appendChunk_safe (hi chunk mem_cons_self)).andThen fun t x _ _ hf => ?_
    refine (ih fun c hc => hi c (mem_cons_of_mem _ hc)).weaken
      fun u r ht _ hr x h c hc => ?_
    obtain rfl | hc := mem_cons.mp hc
    · exact hf.later ht
    · exact hr x h c hc

theorem storeEntry_safe (hsa : entry.identity = identity) :
    Safe (keeping F identity) (Yields fun t batch => ∃ body,
      batch = putBatch jnl.collection (phaseId F identity entry.phase.kind) body ∧
        Body F t jnl.collection entry body) (storeEntry F jnl entry) s := by
  subst hsa
  by_cases hs : (toVec F.toFormats entry).length ≤ inlineEntryBytes
  · rw [storeEntry, if_pos hs]
    exact fun t _ _ batch h => ⟨_, mutation_ok h, .inline⟩
  rw [storeEntry, if_neg hs]
  refine Safe.lift_andThen fun stored hst => ?_
  obtain ⟨hn, hf, hb, hch⟩ := chunkedStorage_ok hst
  have hid : ∀ c ∈ stored.2, ∀ phase, c.1 ≠ phaseId F entry.identity phase := by
    rw [hch]
    intro c hc phase
    obtain ⟨i, -, rfl⟩ := mem_map.mp hc
    exact chunkId_ne_documentId _ _ _ _
  refine (appendChunks_safe hid).andThen fun t _ _ _ hp => ?_
  refine fun u ht _ batch h => ⟨_, (Except.ok.inj h).symm.trans hb,
    .chunked (Nat.lt_of_not_le hs) hn hf fun i hi => ?_⟩
  refine (hp (_, _) ?_).later ht
  rw [hch]
  exact mem_map.mpr ⟨i, mem_range.mpr hi, rfl⟩

theorem concluded_ok (h : concluded entry id submission found = .ok out) : found = some entry := by
  cases found with
  | none => cases h
  | some existing =>
    simp only [concluded] at h
    by_cases he : existing = entry
    · rw [he]
    · rw [if_neg he] at h
      cases h

theorem appendNext_safe (hs : entry.identity = identity) (hv : entry.validate F.toFormats = .ok ())
    (hvi : Holds F identity u jnl.collection view.entries) (hu : Grows u s) :
    Safe (keeping F identity) (Yields fun t _ => Recorded F identity t jnl.collection entry)
      (appendNext F jnl entry view) s := by
  refine Safe.lift_andThen fun _ _ => Safe.lift_andThen fun _ ha => ?_
  refine (storeEntry_safe hs).andThen fun t batch hst _ hb => ?_
  obtain ⟨body, rfl, hbo⟩ := hb
  have hw : Writable F identity t
      (putBatch jnl.collection (phaseId F identity entry.phase.kind) body) :=
    .next _ entry body view.entries hs hv hbo
      (fun e he => (hvi.recorded e he).later (hu.trans hst)) ha
  refine (submit_safe hw).andThen fun v submitted _ _ _ => ?_
  rw [hs]
  refine (recoverUntil_safe jnl v).mapError.andThen fun w after _ _ haf => ?_
  obtain ⟨x, -, hx, hh⟩ := haf
  refine Safe.lift_andThen fun _ _ z hwz _ out h => ?_
  have hf := concluded_ok h
  exact (hh.recorded _ (mem_of_getElem? hf)).later (hx.trans hwz)

/-- Every successful outcome of an append says that the entry is recorded. -/
theorem append_safe (hs : entry.identity = identity) : Safe (keeping F identity)
    (Yields fun t _ => Recorded F identity t jnl.collection entry) (append F jnl entry fits) s := by
  refine Safe.lift_andThen fun _ hv => Safe.lift_andThen fun _ _ =>
    Safe.lift_andThen fun _ _ => ?_
  rw [hs]
  refine (recoverUntil_safe jnl s).andThen fun t view hst _ hvi => ?_
  obtain ⟨u, -, hu, hh⟩ := hvi
  match hp : view.entries[entry.phase.kind.index]? with
  | some existing =>
    intro v ht _ out h
    by_cases he : existing = entry
    · rw [he] at hp
      exact (hh.recorded _ (mem_of_getElem? hp)).later (hu.trans ht)
    · rw [if_neg he] at h
      cases h
  | none => exact appendNext_safe hs hv hh hu

end Operations

section Run

inductive Request where
  | append (journal : Journal) (format : UInt32) (phase : DeploymentPhase) (timeoutFits : Bool)
  | recover (journal : Journal) (timeoutFits : Bool)

inductive Answer where
  | appended (outcome : AppendOutcome)
  | recovered (view : JournalView)
  deriving DecidableEq

variable (F identity) in
def start : Request → JournalTask Answer
  | .append journal format phase timeoutFits => do
    let outcome ← append F journal ⟨format, identity, phase⟩ timeoutFits
    pure (.appended outcome)
  | .recover journal timeoutFits => do
    let view ← recover F journal identity timeoutFits
    pure (.recovered view)

abbrev World := System BackendCall.Reply JournalError Answer Backend Request

variable (F identity) in
structure Initial (w : World) : Prop where
  absent : ∀ collection phase, w.state.records collection (phaseId F identity phase) = none
  inflight : w.state.inflight = []
  running : w.running = []

variable (F identity) in
def Later : World → World → Prop := Reaches (service F identity True) (start F identity)

variable {w : World}

theorem initial_kept (h : Initial F identity w) : Kept F identity w.state := by
  refine ⟨fun col => ⟨[], rfl, fun e he => (nomatch he), fun phase _ => h.absent _ _⟩, ?_⟩
  rw [h.inflight]
  exact fun b hb => nomatch hb

variable (F identity) in
def Established (base : Backend) : Request → Backend → Answer → Prop
  | .append journal format phase _, t, .appended _ =>
    Recorded F identity t journal.collection ⟨format, identity, phase⟩
  | .recover journal _, t, .recovered view =>
    Observed F identity journal.collection base t view
  | _, _, _ => False

theorem start_safe (hb : Grows base s) (req : Request) : Safe (keeping F
    identity) (Yields (Established F identity base req)) (start F identity req) s := by
  cases req with
  | append jnl format phase fits =>
    have ha : Safe (keeping F identity) (Yields fun t _ =>
        Recorded F identity t jnl.collection ⟨format, identity, phase⟩)
        (append F jnl ⟨format, identity, phase⟩ fits) s := append_safe rfl
    refine ha.andThen fun t out _ _ hr u ht _ answer h => ?_
    obtain rfl := Except.ok.inj h
    exact hr.later ht
  | recover jnl fits =>
    have hre : Safe (keeping F identity) (Yields (Observed F identity jnl.collection s))
        (recover F jnl identity fits) s :=
      Safe.lift_andThen fun _ _ => recoverUntil_safe jnl s
    refine hre.andThen fun t view _ _ hv v htv _ answer h => ?_
    obtain rfl := Except.ok.inj h
    obtain ⟨u, hs, hu, hh⟩ := hv
    exact ⟨u, hb.trans hs, hu.trans htv, hh⟩

def Returned (running : List (Request × JournalTask Answer)) (request : Request)
    (answer : Answer) : Prop :=
  (request, Program.done (.ok answer)) ∈ running

variable (F identity) in
/-- What the answers establish: requests at places before `cut` began after `before`, the
others after `after`. -/
def Post (cut : ℕ) (before after : Backend) (n : ℕ) (request : Request) :
    Backend → Except JournalError Answer → Prop :=
  Yields (Established F identity (if n < cut then before else after) request)

theorem returned_established {after : Backend} (hk : Kept F identity w.state)
    (hs : AllSafe (keeping F identity) (Post F identity cut before after) w)
    (hp : w.running[i]? = some (req, .done (.ok answer))) :
    Established F identity (if i < cut then before else after) req w.state answer :=
  hs i req _ hp w.state (Grows.refl _) hk answer rfl

theorem later_safe (hke : Kept F identity w.state) (hr : Later F identity w v)
    (hsa : AllSafe (keeping F identity) (Post F identity w.running.length before w.state) w) :
    Kept F identity v.state ∧ Grows w.state v.state ∧
      AllSafe (keeping F identity) (Post F identity w.running.length before w.state) v := by
  obtain ⟨hk, hg, -, hs⟩ := run_safe hr hke hsa fun n req t hn ht _ => by
    rw [Post, if_neg (Nat.not_lt.mpr hn)]
    exact start_safe ht req
  exact ⟨hk, hg, hs⟩

theorem initial_safe (h : Initial F identity w) :
    AllSafe (keeping F identity) (Post F identity w.running.length w.state w.state) w := by
  rw [AllSafe, h.running]
  exact fun i op p hp => nomatch hp

/-- For every store that only creates documents, and every interleaving of the calls of the
appends and recoveries of one deployment, the stored phase records are an accepted sequence;
an append that succeeds leaves its entry as the stored record of its phase; and from then on
records only follow, so every recovery begun later returns that entry in its place. -/
theorem phases_are_kept (F : Serde) (identity : DeploymentIdentity) {first w : World}
    (hfirst : Initial F identity first) (hrun : Later F identity first w) :
    (∀ collection, ∃ entries, StoredPrefix F identity w.state collection entries) ∧
    (∀ journal format phase fits outcome,
      Returned w.running (.append journal format phase fits) (.appended outcome) →
        storedEntry F identity w.state journal.collection phase.kind =
          .ok (some ⟨format, identity, phase⟩)) ∧
    ∀ v, Later F identity w v →
      (∀ collection entries later, StoredPrefix F identity w.state collection entries →
        StoredPrefix F identity v.state collection later → entries <+: later) ∧
      (∀ journal format phase fits outcome client fits' view,
        Returned w.running (.append journal format phase fits) (.appended outcome) →
        Returned (v.running.drop w.running.length) (.recover client fits') (.recovered view) →
        client.collection = journal.collection →
          view.entries[phase.kind.index]? = some ⟨format, identity, phase⟩) := by
  obtain ⟨hke, -, hsa⟩ := later_safe (initial_kept hfirst) hrun (initial_safe hfirst)
  have hre : ∀ journal format phase fits outcome,
      Returned w.running (.append journal format phase fits) (.appended outcome) →
        Recorded F identity w.state journal.collection ⟨format, identity, phase⟩ := by
    intro journal format phase fits outcome hr
    obtain ⟨i, hpl⟩ := mem_iff_getElem?.mp hr
    exact returned_established hke hsa hpl
  refine ⟨fun collection => ?_, fun journal format phase fits outcome hr => ?_, ?_⟩
  · obtain ⟨entries, he⟩ := hke.holds collection
    exact ⟨entries, he.storedPrefix⟩
  · exact storedEntry_recorded (hre _ _ _ _ _ hr)
  intro v hl
  -- requests begun from here on start from a state in which the phases of `w` are stored
  have hold : AllSafe (keeping F identity)
      (Post F identity w.running.length first.state w.state) w := by
    intro i request p hp
    have h := hsa i request p hp
    rw [Post, ite_self] at h
    rw [Post, if_pos (List.getElem?_eq_some_iff.mp hp).1]
    exact h
  obtain ⟨hk, hg, hs⟩ := later_safe hke hl hold
  refine ⟨fun collection entries later he hn => ?_, ?_⟩
  · obtain ⟨held, hhe⟩ := hke.holds collection
    obtain ⟨heldv, hh⟩ := hk.holds collection
    rw [storedPrefix_unique he hhe.storedPrefix, storedPrefix_unique hn hh.storedPrefix]
    exact hhe.extends hh hg
  intro journal format phase fits outcome client fits' view hr hrec hsam
  obtain ⟨j, hpl⟩ := mem_iff_getElem?.mp hrec
  rw [getElem?_drop] at hpl
  have ha := returned_established hk hs hpl
  rw [if_neg (by omega)] at ha
  obtain ⟨u, hw, -, hhe⟩ := ha
  rw [hsam] at hhe
  exact hhe.place ((hre _ _ _ _ _ hr).later hw)

end Run

/-- A backend that creates what it is asked to, but whose replies to that are lost. -/
def respond (s : Backend) : (c : BackendCall) → Backend × c.Reply
  | .mutate batch =>
    match createAll 1 batch.operations s.records with
    | some records => (⟨records, s.inflight⟩, .error "timeout")
    | none => (s, .error "refused")
  | .resolve _ _ => (s, .ok none)
  | .readRecords collection ids => (s, .ok (ids.map (s.records collection)))

theorem respond_answers (s : Backend) (c : BackendCall) :
    Answers True s c (respond s c).1 (respond s c).2 := by
  cases c with
  | mutate batch =>
    simp only [respond]
    cases h : createAll 1 batch.operations s.records with
    | none => exact .refused s batch "refused"
    | some records => exact .unheard s batch 1 records _ (by decide) h trivial
  | resolve scope batch => exact .resolved s scope batch _
  | readRecords col ids => exact .read s col ids

theorem later_request (F : Serde) (identity : DeploymentIdentity) (w : World) (req : Request) :
    Later F identity w ⟨((start F identity req).run respond w.state).1,
      w.running ++ [(req, .done ((start F identity req).run respond w.state).2)]⟩ :=
  Relation.ReflTransGen.head (.begins w req) (reaches_run respond_answers req _ _ _)

def incarnationText : String := "8c2f4a61-03d7-4e5b-9a10-6f2d7b8c9e01"

theorem incarnationText_ne (u : ℕ) : String.ofList (List.replicate u 'x') ≠ incarnationText := by
  intro h
  have hl := congrArg String.toList h
  rw [String.toList_ofList] at hl
  have hc : '8' ∈ List.replicate u 'x' := hl ▸ by decide
  cases eq_of_mem_replicate hc

/-- The one incarnation at issue has its text; other numbers are written in unary. -/
def sampleFormats : Formats where
  uuidText u := if u = 2026 then incarnationText else String.ofList (List.replicate u 'x')
  parseUuid s := some (if s = incarnationText then 2026 else s.toList.length)
  parseUuid_text u := by
    by_cases h : u = 2026
    · rw [if_pos h, if_pos rfl, h]
    · rw [if_neg h, if_neg (incarnationText_ne u), String.toList_ofList, List.length_replicate]
  sha256 bytes :=
    let hash := bytes.foldl (fun n b => (257 * n + b.toNat) % 2 ^ 61) 0
    (List.range 32).map fun i => UInt8.ofNat (hash / 256 ^ i)
  sha256_length _ := by rw [length_map, length_range]
  batchDigest batch := .ok batch.idempotencyKey

theorem toVec_injective (F : Formats) (h : toVec F a = toVec F b) : a = b := by
  have hv := congrArg (fun j => JournalEntry.ofValue F (valueOf j))
    (JsonUnique.encode_injective h)
  simp only [JournalEntry.ofValue_toJson] at hv
  exact Option.some.inj hv

open Classical in
noncomputable def textSerde : Serde where
  toFormats := sampleFormats
  fromSlice bytes := if h : ∃ entry, toVec sampleFormats entry = bytes then some h.choose else none
  fromSlice_toVec entry := by
    have h : ∃ e, toVec sampleFormats e = toVec sampleFormats entry := ⟨entry, rfl⟩
    rw [dif_pos h, toVec_injective sampleFormats h.choose_spec]

def sampleIdentity : DeploymentIdentity :=
  ⟨⟨"tenant", incarnationText, "principal"⟩, "taira", digestText 1, 1, "space", "names", "signer",
    digestText 2, digestText 3, digestText 4⟩

def sampleJournal : Journal := ⟨"journal", sampleIdentity.journalScope⟩

def noRecords : World := ⟨⟨fun _ _ => none, []⟩, []⟩

noncomputable def recordedIntent : World :=
  ⟨((start textSerde sampleIdentity (.append sampleJournal 1 .intent true)).run respond
      noRecords.state).1,
    [(.append sampleJournal 1 .intent true, .done (.ok (.appended .recovered)))]⟩

noncomputable def recoveredIntent : Except JournalError Answer :=
  ((start textSerde sampleIdentity (.recover sampleJournal true)).run respond
    recordedIntent.state).2

theorem intent_outcome :
    ((start textSerde sampleIdentity (.append sampleJournal 1 .intent true)).run respond
      noRecords.state).2 = .ok (.appended .recovered) ∧
    recoveredIntent = .ok (.recovered ⟨[⟨1, sampleIdentity, .intent⟩]⟩) := by
  decide +kernel

theorem recordedIntent_later : Later textSerde sampleIdentity noRecords recordedIntent := by
  have h := later_request textSerde sampleIdentity noRecords (.append sampleJournal 1 .intent true)
  rw [intent_outcome.1] at h
  exact h

theorem noRecords_initial : Initial textSerde sampleIdentity noRecords :=
  ⟨fun _ _ => rfl, rfl, rfl⟩

/-- The reply to the mutation is lost; the entry is stored, and a recovery begun later returns it. -/
theorem intent_is_kept :
    storedEntry textSerde sampleIdentity recordedIntent.state "journal" .intent =
        .ok (some ⟨1, sampleIdentity, .intent⟩) ∧
      ∃ v view, Later textSerde sampleIdentity recordedIntent v ∧
        Returned (v.running.drop 1) (.recover sampleJournal true) (.recovered view) ∧
        view.entries[0]? = some ⟨1, sampleIdentity, .intent⟩ := by
  have hr : Returned recordedIntent.running (.append sampleJournal 1 .intent true)
      (.appended .recovered) := mem_singleton.mpr rfl
  obtain ⟨-, hs, hl⟩ :=
    phases_are_kept textSerde sampleIdentity noRecords_initial recordedIntent_later
  have hv := later_request textSerde sampleIdentity recordedIntent (.recover sampleJournal true)
  change Later textSerde sampleIdentity recordedIntent
    ⟨_, recordedIntent.running ++ [(_, .done recoveredIntent)]⟩ at hv
  rw [intent_outcome.2] at hv
  refine ⟨hs sampleJournal 1 .intent true .recovered hr, _, _, hv, mem_singleton.mpr rfl, ?_⟩
  exact (hl _ hv).2 sampleJournal 1 .intent true .recovered sampleJournal true _ hr
    (mem_singleton.mpr rfl) rfl

end JournalSafety
