import Kasumi.TenantFrames

/-! What a list of writes does to the documents. The writes are applied in place, one after
another; since their targets are distinct, each reads what the first state held, and the
result is the simultaneous update of all targets, whatever their order. -/
namespace MutationEffects

open TenantTypes TenantAccess Mutations FallibleSteps TenantFrames List

open ChangeFeed (resident)

/-- The document a slot stands for; `contents` is what the document store holds. -/
def document (contents : StoredDocument → Document) : DocumentSlot → Document
  | .pending d => d
  | .stored descriptor => contents descriptor

def Faithful (contents : StoredDocument → Document) (resolver : Resolver) : Prop :=
  ∀ load, resolver = some load → ∀ descriptor d, load descriptor = some d → d = contents descriptor

theorem loan_faithful (hf : Faithful contents resolver)
    (h : loanDocument slot resolver = .ok d) : d = document contents slot := by
  cases slot with
  | pending p =>
    cases h
    rfl
  | stored descriptor =>
    unfold loanDocument at h
    dsimp only at h
    split at h
    · next loaded hlo =>
      cases h
      obtain ⟨load, hs, hl⟩ := Option.bind_eq_some_iff.mp hlo
      exact hf load hs descriptor d hl
    · cases h

def forgetDocuments (s : TenantState) : TenantState :=
  { s with
    collections := OrdMap.empty
    documentCount := 0
    logicalBytes := 0 }

def shape (c : CollectionState) : CollectionDefinition × OrdMap String ArchivedDocument × ℕ :=
  (c.definition, c.archivedDocuments, c.archivedDocumentBytes)

def newSlot (id : String) (revision : ℕ) (body : Option Value) : Option DocumentSlot :=
  body.map fun b => .pending ⟨id, revision, b⟩

def written (s : TenantState) (resolver : Resolver) (revision : ℕ) (m : Mutation) :
    Option DocumentSlot :=
  match replacement (resident s m.target.1 m.target.2) resolver m with
  | .ok body => newSlot m.target.2 revision body
  | .error _ => none

def isDelete : Mutation → Bool
  | .delete _ _ _ => true
  | _ => false

/-- Whether a write touches its collection: a delete does so only when it removes something. -/
def touches (s : TenantState) (m : Mutation) : Bool :=
  !isDelete m || (resident s m.target.1 m.target.2).isSome

section OneWrite

variable {s : TenantState} {name id : String} {col : CollectionState} {slot : Option DocumentSlot}
  {revision count logical : ℕ}

theorem withDocument_get (c : String) :
    (withDocument s name col id slot revision count logical).collections.get c =
      if c = name then some { col with
        documents := col.documents.set id slot
        dataEpoch := revision } else s.collections.get c := by
  unfold withDocument
  rw [OrdMap.get_insert]

theorem withDocument_resident (hco : s.collections.get name = some col) (c i : String) :
    resident (withDocument s name col id slot revision count logical) c i =
      if (c, i) = (name, id) then slot else resident s c i := by
  unfold resident
  rw [withDocument_get]
  by_cases hc : c = name
  · subst hc
    rw [if_pos rfl, hco]
    dsimp only [Option.bind_some]
    rw [OrdMap.get_set]
    by_cases hi : i = id
    · rw [if_pos hi, if_pos (by rw [hi])]
    · rw [if_neg hi, if_neg (by simp [hi])]
  · rw [if_neg hc, if_neg (by simp [hc])]

theorem withDocument_shape (hco : s.collections.get name = some col) (c : String) :
    ((withDocument s name col id slot revision count logical).collections.get c).map shape =
      (s.collections.get c).map shape := by
  rw [withDocument_get]
  by_cases hc : c = name
  · rw [if_pos hc, hc, hco]
    rfl
  · rw [if_neg hc]

theorem withDocument_epoch (c : String) :
    ((withDocument s name col id slot revision count logical).collections.get c).map
        CollectionState.dataEpoch =
      if c = name then some revision else (s.collections.get c).map CollectionState.dataEpoch := by
  rw [withDocument_get]
  by_cases hc : c = name
  · rw [if_pos hc, if_pos hc]
    rfl
  · rw [if_neg hc, if_neg hc]

end OneWrite

variable {Idx Acc : Type} (X : Externals Idx Acc)

section Counters

def documentTotal (s : TenantState) : ℕ :=
  s.collections.weight fun _ c => c.documents.size + c.archivedDocuments.size

def byteTotal (s : TenantState) : ℕ :=
  s.collections.weight fun _ c => c.documents.weight fun _ slot => bodyBytes X slot

structure Exact (s : TenantState) : Prop where
  count : s.documentCount = documentTotal s
  bytes : s.logicalBytes = byteTotal X s

def slotBytes (slot : Option DocumentSlot) : ℕ := (slot.map (bodyBytes X)).getD 0

variable {s : TenantState} {name id : String} {col : CollectionState} {slot : Option DocumentSlot}
  {revision count logical : ℕ}

theorem documentTotal_write (id : String) (slot : Option DocumentSlot) (revision count logical : ℕ)
    (hc : s.collections.get name = some col) :
    documentTotal (withDocument s name col id slot revision count logical) +
        (col.documents.get id).toList.length = documentTotal s + slot.toList.length := by
  have hw := OrdMap.weight_set
    (fun (_ : String) (c : CollectionState) => c.documents.size + c.archivedDocuments.size)
    s.collections name
    (some { col with
      documents := col.documents.set id slot
      dataEpoch := revision })
  have hs := OrdMap.size_set col.documents id slot
  rw [hc] at hw
  simp only [Option.map_some, Option.getD_some] at hw
  unfold documentTotal withDocument OrdMap.insert
  dsimp only
  omega

theorem byteTotal_write (id : String) (slot : Option DocumentSlot) (revision count logical : ℕ)
    (hc : s.collections.get name = some col) :
    byteTotal X (withDocument s name col id slot revision count logical) +
        slotBytes X (col.documents.get id) = byteTotal X s + slotBytes X slot := by
  have hw := OrdMap.weight_set
    (fun (_ : String) (c : CollectionState) => c.documents.weight fun _ slot => bodyBytes X slot)
    s.collections name
    (some { col with
      documents := col.documents.set id slot
      dataEpoch := revision })
  have hs := OrdMap.weight_set (fun (_ : String) slot => bodyBytes X slot) col.documents id slot
  have hold : ((col.documents.get id).map fun slot => bodyBytes X slot).getD 0 =
      slotBytes X (col.documents.get id) := rfl
  have hn : (slot.map fun slot => bodyBytes X slot).getD 0 = slotBytes X slot := rfl
  rw [hc] at hw
  simp only [Option.map_some, Option.getD_some] at hw
  unfold byteTotal withDocument OrdMap.insert
  dsimp only at hs ⊢
  omega

end Counters

variable (revision : ℕ) (indexes : Idx) (resolver : Resolver)

/-- The checks of one write against the state the batch starts from. -/
structure Admissible (s : TenantState) (m : Mutation) (col : CollectionState)
    (body : Option Value) : Prop where
  name : validateName m.target.2 = .ok ()
  collection : s.collections.get m.target.1 = some col
  allowed : checkTarget col m = .ok ()
  replaced : replacement (col.documents.get m.target.2) resolver m = .ok body
  bounded : ∀ b, body = some b → X.len (.body b) ≤ s.limits.maxDocumentBytes ∧
    X.validateDocument indexes col.definition b = .ok ()

structure Wrote (s : TenantState) (m : Mutation) (t : TenantState) : Prop where
  frame : forgetDocuments t = forgetDocuments s
  shape : ∀ c, (t.collections.get c).map shape = (s.collections.get c).map shape
  documents : ∀ c i, resident t c i =
    if (c, i) = m.target then written s resolver revision m else resident s c i
  epoch : ∀ c, (t.collections.get c).map CollectionState.dataEpoch =
    if c = m.target.1 ∧ touches s m = true then some revision
    else (s.collections.get c).map CollectionState.dataEpoch
  exact : Exact X s → Exact X t
  count : Exact X s → t.documentCount + (resident s m.target.1 m.target.2).toList.length =
    s.documentCount + (written s resolver revision m).toList.length
  bytes : Exact X s → t.logicalBytes + slotBytes X (resident s m.target.1 m.target.2) =
    s.logicalBytes + slotBytes X (written s resolver revision m)

variable {X} {revision} {indexes} {resolver} {s t : TenantState} {m : Mutation}
  {col : CollectionState} {body : Option Value}

theorem Admissible.resident (h : Admissible X indexes resolver s m col body) :
    resident s m.target.1 m.target.2 = col.documents.get m.target.2 := by
  unfold ChangeFeed.resident
  rw [h.collection]
  rfl

theorem Admissible.written (h : Admissible X indexes resolver s m col body) :
    written s resolver revision m = newSlot m.target.2 revision body := by
  unfold MutationEffects.written
  rw [h.resident, h.replaced]

theorem replacement_none (h : replacement old resolver m = .ok none) : isDelete m = true := by
  cases m with
  | put c i b e => cases h
  | delete c i e => rfl
  | patch c i p e =>
    unfold replacement at h
    cases old with
    | none => cases h
    | some slot =>
      obtain ⟨_, _, h⟩ := bind_ok h
      obtain ⟨_, _, h⟩ := bind_ok h
      cases h

theorem replacement_some {body : Value} (h : replacement old resolver m = .ok (some body)) :
    isDelete m = false := by
  cases m with
  | put c i b e => rfl
  | patch c i p e => rfl
  | delete c i e => cases h

theorem wrote_withDocument {count : ℕ} (h : Admissible X indexes resolver s m col body)
    (ht : touches s m = true)
    (hco : Exact X s → count + (col.documents.get m.target.2).toList.length =
      s.documentCount + body.toList.length)
    (hby : Exact X s → logical + slotBytes X (col.documents.get m.target.2) =
      s.logicalBytes + slotBytes X (newSlot m.target.2 revision body)) :
    Wrote X revision resolver s m (withDocument s m.target.1 col m.target.2
      (newSlot m.target.2 revision body) revision count logical) := by
  have hl : (newSlot m.target.2 revision body).toList.length = body.toList.length := by
    cases body <;> rfl
  refine ⟨rfl, withDocument_shape h.collection, ?_, ?_, ?_, ?_, ?_⟩
  · intro c i
    rw [withDocument_resident h.collection, h.written]
  · intro c
    rw [withDocument_epoch]
    by_cases hc : c = m.target.1
    · rw [if_pos hc, if_pos ⟨hc, ht⟩]
    · rw [if_neg hc, if_neg fun ha => hc ha.1]
  · intro he
    have hc := hco he
    have hb := hby he
    have hto := documentTotal_write m.target.2 (newSlot m.target.2 revision body) revision count
      logical h.collection
    have hs := byteTotal_write X m.target.2 (newSlot m.target.2 revision body) revision count
      logical h.collection
    have h1 := he.count
    have h2 := he.bytes
    constructor
    · change count = _
      omega
    · change logical = _
      omega
  · intro he
    have hc := hco he
    rw [h.resident, h.written, hl]
    exact hc
  intro he
  rw [h.resident, h.written]
  exact hby he

theorem applyMutation_eq (h : Admissible X indexes resolver s m col body) :
    applyMutation X s m revision indexes resolver = (do
      match (← (pure body : Except ReadFailure (Option Value))) with
      | some body => query (storeBody X s m.target.1 col m.target.2 body revision indexes)
      | none => pure (removeBody X s m.target.1 col m.target.2 revision)) := by
  unfold applyMutation
  dsimp only
  rw [h.collection]
  change (query (checkTarget col m) >>= _) = _
  rw [h.allowed]
  rw [h.replaced]
  rfl

theorem removeBody_wrote (h : Admissible X indexes resolver s m col none) :
    Wrote X revision resolver s m (removeBody X s m.target.1 col m.target.2 revision) := by
  unfold removeBody
  cases hold : col.documents.get m.target.2 with
  | none =>
    dsimp only
    have hr : ChangeFeed.resident s m.target.1 m.target.2 = none := by
      rw [h.resident, hold]
    have hw : MutationEffects.written s resolver revision m = none := h.written
    have hu : touches s m = false := by
      unfold touches
      rw [replacement_none h.replaced, hr]
      rfl
    refine ⟨rfl, fun _ => rfl, ?_, ?_, fun he => he, ?_, ?_⟩
    · intro c i
      by_cases hta : (c, i) = m.target
      · rw [if_pos hta, hw, ← hr, ← hta]
      · rw [if_neg hta]
    · intro c
      rw [if_neg fun ha => by rw [hu] at ha; cases ha.2]
    · intro _
      rw [hr, hw]
    · intro _
      rw [hr, hw]
  | some old =>
    apply wrote_withDocument h
    · unfold touches
      rw [h.resident, hold]
      simp
    · intro he
      -- A resident document is counted, so the decrement is not truncated.
      have ht := documentTotal_write m.target.2 none revision 0 0 h.collection
      have hc := he.count
      rw [hold] at ht ⊢
      simp only [Option.toList_some, length_singleton, Option.toList_none, length_nil] at ht ⊢
      omega
    intro he
    have ht := byteTotal_write X m.target.2 none revision 0 0 h.collection
    have hb := he.bytes
    have hn : slotBytes X none = 0 := rfl
    have hs : slotBytes X (some old) = bodyBytes X old := rfl
    have hne : newSlot m.target.2 revision none = none := rfl
    rw [hold, hs, hn] at ht
    rw [hold, hs, hne, hn]
    omega

theorem storeBody_wrote (revision : ℕ) {body : Value}
    (h : Admissible X indexes resolver s m col (some body)) :
    (storeBody X s m.target.1 col m.target.2 body revision indexes =
        .error ⟨.quotaExceeded, "logical size overflow"⟩ ∧
      (Exact X s → wordSize ≤ s.logicalBytes + X.len (.body body))) ∨
      ∃ t, storeBody X s m.target.1 col m.target.2 body revision indexes = .ok t ∧
        Wrote X revision resolver s m t := by
  obtain ⟨hs, hv⟩ := h.bounded body rfl
  have hf : (!decide (X.len (.body body) > s.limits.maxDocumentBytes)) = true := by
    simpa using hs
  unfold storeBody
  dsimp only
  rw [hf, hv]
  cases hl : (checkedSub s.logicalBytes (((col.documents.get m.target.2).map (bodyBytes X)).getD
      0)).bind fun n => checkedAdd n (X.len (.body body)) with
  | none =>
    refine .inl ⟨rfl, ?_⟩
    intro he
    -- The old body is counted, so only the sum can have overflowed.
    have ht := byteTotal_write X m.target.2 none revision 0 0 h.collection
    have hold : ((col.documents.get m.target.2).map (bodyBytes X)).getD 0 =
        slotBytes X (col.documents.get m.target.2) := rfl
    have hno : slotBytes X none = 0 := rfl
    have hb := he.bytes
    unfold checkedSub at hl
    rw [if_pos (by omega), Option.bind_some] at hl
    unfold checkedAdd at hl
    split at hl
    · cases hl
    · omega
  | some logical =>
    refine .inr ⟨_, rfl, ?_⟩
    obtain ⟨n, hn, hl⟩ := Option.bind_eq_some_iff.mp hl
    obtain ⟨hn, hle⟩ := checkedSub_some hn
    obtain ⟨hl, _⟩ := checkedAdd_some hl
    apply wrote_withDocument h
    · unfold touches
      rw [replacement_some h.replaced]
      rfl
    · intro _
      cases col.documents.get m.target.2 <;> simp
    intro _
    change logical + ((col.documents.get m.target.2).map (bodyBytes X)).getD 0 =
      s.logicalBytes + X.len (.body body)
    omega

theorem applyMutation_cases (revision : ℕ) (h : Admissible X indexes resolver s m col body) :
    (applyMutation X s m revision indexes resolver =
        .error (.query ⟨.quotaExceeded, "logical size overflow"⟩) ∧
      (Exact X s → wordSize ≤ s.logicalBytes + slotBytes X (written s resolver revision m))) ∨
      ∃ t, applyMutation X s m revision indexes resolver = .ok t ∧
        Wrote X revision resolver s m t := by
  rw [applyMutation_eq h]
  cases body with
  | none => exact .inr ⟨_, rfl, removeBody_wrote h⟩
  | some body =>
    rcases storeBody_wrote revision h with ⟨he, ho⟩ | ⟨t, ht, hw⟩
    · refine .inl ⟨?_, ?_⟩
      · change query (storeBody X s m.target.1 col m.target.2 body revision indexes) = _
        rw [he]
        rfl
      · rw [h.written]
        exact ho
    refine .inr ⟨t, ?_, hw⟩
    change query (storeBody X s m.target.1 col m.target.2 body revision indexes) = _
    rw [ht]
    rfl

variable (X indexes resolver) in
def Passes (s : TenantState) (m : Mutation) : Prop :=
  ∃ col body, Admissible X indexes resolver s m col body

theorem applyMutation_ok (hn : validateName m.target.2 = .ok ())
    (h : applyMutation X s m revision indexes resolver = .ok t) :
    Passes X indexes resolver s m := by
  obtain ⟨col, hc, h⟩ := bind_ok h
  obtain ⟨_, ha, h⟩ := bind_ok h
  obtain ⟨body, hbo, h⟩ := bind_ok h
  refine ⟨col, body, hn, orError_ok (query_ok hc), query_ok ha, hbo, ?_⟩
  intro b hb
  subst hb
  have h := query_ok h
  obtain ⟨_, hs, h⟩ := bind_ok h
  obtain ⟨_, hv, _⟩ := bind_ok h
  have hs := require_ok hs
  exact ⟨by simpa using hs, hv⟩

/-- The checks of a write read the limits, the definition and archive of its collection and
the document at its target. -/
theorem passes_congr (hl : t.limits = s.limits)
    (hs : (t.collections.get m.target.1).map shape = (s.collections.get m.target.1).map shape)
    (hr : resident t m.target.1 m.target.2 = resident s m.target.1 m.target.2)
    (h : Passes X indexes resolver s m) : Passes X indexes resolver t m := by
  obtain ⟨col, body, h⟩ := h
  rw [h.collection] at hs
  obtain ⟨other, ho, hs⟩ := Option.map_eq_some_iff.mp hs
  injection hs with hd hs
  injection hs with ha _
  have hg : other.documents.get m.target.2 = col.documents.get m.target.2 := by
    rw [h.resident] at hr
    unfold ChangeFeed.resident at hr
    rw [ho] at hr
    exact hr
  have ht : checkTarget other m = checkTarget col m := by
    unfold checkTarget
    rw [hd, ha, hg]
  refine ⟨other, body, h.name, ho, ?_, ?_, ?_⟩
  · rw [ht]
    exact h.allowed
  · rw [hg]
    exact h.replaced
  · rw [hl, hd]
    exact h.bounded

/-- The state after a list of writes, as the simultaneous update of the state before. -/
structure WroteAll (X : Externals Idx Acc) (revision : ℕ) (resolver : Resolver) (s : TenantState)
    (operations : List Mutation) (t : TenantState) : Prop where
  shape : ∀ c, (t.collections.get c).map shape = (s.collections.get c).map shape
  target : ∀ m ∈ operations,
    resident t m.target.1 m.target.2 = written s resolver revision m
  other : ∀ c i, (c, i) ∉ operations.map Mutation.target → resident t c i = resident s c i
  epoch : ∀ c, (t.collections.get c).map CollectionState.dataEpoch =
    if ∃ m ∈ operations, m.target.1 = c ∧ touches s m = true then some revision
    else (s.collections.get c).map CollectionState.dataEpoch
  exact : Exact X s → Exact X t
  count : Exact X s → t.documentCount +
      (operations.map fun m => (resident s m.target.1 m.target.2).toList.length).sum =
    s.documentCount + (operations.map fun m => (written s resolver revision m).toList.length).sum
  bytes : Exact X s → t.logicalBytes +
      (operations.map fun m => slotBytes X (resident s m.target.1 m.target.2)).sum =
    s.logicalBytes + (operations.map fun m => slotBytes X (written s resolver revision m)).sum

section

variable (h : Wrote X revision resolver s m t)

include h

theorem Wrote.limits : t.limits = s.limits := by
  have hl := congrArg TenantState.limits h.frame
  exact hl

variable {n : Mutation}

section

variable (hn : n.target ≠ m.target)

include hn

theorem Wrote.resident_of_ne :
    resident t n.target.1 n.target.2 = resident s n.target.1 n.target.2 := by
  rw [h.documents, if_neg hn]

theorem Wrote.written_of_ne : written t resolver revision n = written s resolver revision n := by
  unfold written
  rw [h.resident_of_ne hn]

theorem Wrote.touches_of_ne : touches t n = touches s n := by
  unfold touches
  rw [h.resident_of_ne hn]

end

end

theorem WroteAll.nil (s : TenantState) : WroteAll X revision resolver s [] s := by
  refine ⟨fun _ => rfl, ?_, fun _ _ _ => rfl, ?_, fun h => h, fun _ => rfl, fun _ => rfl⟩
  · intro m hm
    cases hm
  intro c
  rw [if_neg]
  rintro ⟨m, hm, _⟩
  cases hm

/-- A write followed by writes elsewhere: the later ones read what the first state held. -/
theorem WroteAll.cons (hf : Wrote X revision resolver s m t)
    (hr : WroteAll X revision resolver t rest u) (hfr : ∀ n ∈ rest, n.target ≠ m.target) :
    WroteAll X revision resolver s (m :: rest) u := by
  have hold : ∀ f : Option DocumentSlot → ℕ,
      rest.map (fun n => f (resident t n.target.1 n.target.2)) =
        rest.map (fun n => f (resident s n.target.1 n.target.2)) := by
    intro f
    apply map_congr_left
    intro n hn
    rw [hf.resident_of_ne (hfr n hn)]
  have hne : ∀ f : Option DocumentSlot → ℕ,
      rest.map (fun n => f (written t resolver revision n)) =
        rest.map (fun n => f (written s resolver revision n)) := by
    intro f
    apply map_congr_left
    intro n hn
    rw [hf.written_of_ne (hfr n hn)]
  refine ⟨?_, ?_, ?_, ?_, ?_, ?_, ?_⟩
  · intro c
    rw [hr.shape, hf.shape]
  · intro n hn
    rcases mem_cons.mp hn with heq | hn
    · subst heq
      have hno : (n.target.1, n.target.2) ∉ rest.map Mutation.target := by
        intro hm
        obtain ⟨o, ho, hta⟩ := mem_map.mp hm
        exact hfr o ho hta
      rw [hr.other _ _ hno, hf.documents, if_pos rfl]
    · rw [hr.target n hn, hf.written_of_ne (hfr n hn)]
  · intro c i hno
    rw [map_cons, mem_cons, not_or] at hno
    rw [hr.other c i hno.2, hf.documents, if_neg hno.1]
  · intro c
    rw [hr.epoch, hf.epoch]
    by_cases hl : ∃ n ∈ rest, n.target.1 = c ∧ touches s n = true
    · obtain ⟨n, hn, hc, ht⟩ := hl
      rw [if_pos ⟨n, hn, hc, by rw [hf.touches_of_ne (hfr n hn)]; exact ht⟩,
        if_pos ⟨n, mem_cons_of_mem _ hn, hc, ht⟩]
    have hnon : ¬ ∃ n ∈ rest, n.target.1 = c ∧ touches t n = true := by
      rintro ⟨n, hn, hc, ht⟩
      rw [hf.touches_of_ne (hfr n hn)] at ht
      exact hl ⟨n, hn, hc, ht⟩
    rw [if_neg hnon]
    by_cases hh : c = m.target.1 ∧ touches s m = true
    · rw [if_pos hh, if_pos ⟨m, mem_cons_self, hh.1.symm, hh.2⟩]
    rw [if_neg hh, if_neg]
    rintro ⟨n, hn, hc, ht⟩
    rcases mem_cons.mp hn with heq | hn
    · subst heq
      exact hh ⟨hc.symm, ht⟩
    · exact hl ⟨n, hn, hc, ht⟩
  · exact fun he => hr.exact (hf.exact he)
  · intro he
    have h1 := hf.count he
    have h2 := hr.count (hf.exact he)
    rw [hold fun slot => slot.toList.length, hne fun slot => slot.toList.length] at h2
    rw [map_cons, map_cons, sum_cons, sum_cons]
    omega
  intro he
  have h1 := hf.bytes he
  have h2 := hr.bytes (hf.exact he)
  rw [hold (slotBytes X), hne (slotBytes X)] at h2
  rw [map_cons, map_cons, sum_cons, sum_cons]
  omega

/-- What a list of writes needs: distinct targets, none seen before, all checks passing. -/
structure Admits (X : Externals Idx Acc) (indexes : Idx) (resolver : Resolver)
    (seen : List (String × String)) (s : TenantState) (operations : List Mutation) : Prop where
  distinct : (operations.map Mutation.target).Nodup
  fresh : ∀ m ∈ operations, m.target ∉ seen
  passes : ∀ m ∈ operations, Passes X indexes resolver s m

/-- The loop of writes is the simultaneous update of distinct targets. -/
theorem applyEach_ok : ∀ {seen : List (String × String)} {s t : TenantState},
    applyEach X revision indexes resolver seen s ops = .ok t →
    forgetDocuments t = forgetDocuments s ∧ Admits X indexes resolver seen s ops ∧
    WroteAll X revision resolver s ops t := by
  induction ops with
  | nil =>
    intro seen s t h
    cases h
    refine ⟨rfl, ⟨nodup_nil, ?_, ?_⟩, WroteAll.nil s⟩ <;>
    · intro m hm
      cases hm
  | cons m rest ih =>
    intro seen s t h
    obtain ⟨_, hna, h⟩ := bind_ok h
    obtain ⟨_, hs, h⟩ := bind_ok h
    obtain ⟨u, hu, h⟩ := bind_ok h
    have hna := query_ok hna
    have hs : m.target ∉ seen := by
      have := require_ok (query_ok hs)
      simpa using this
    have hp := applyMutation_ok hna hu
    obtain ⟨col, body, ha⟩ := hp
    have hf : Wrote X revision resolver s m u := by
      rcases applyMutation_cases revision ha with ⟨he, _⟩ | ⟨t', ht', hw⟩
      · rw [he] at hu
        cases hu
      rw [ht'] at hu
      cases hu
      exact hw
    obtain ⟨hfra, hr, hwr⟩ := ih h
    have hfr : ∀ n ∈ rest, n.target ≠ m.target := by
      intro n hn heq
      exact hr.fresh n hn (by rw [heq]; exact mem_cons_self)
    refine ⟨hfra.trans hf.frame, ⟨?_, ?_, ?_⟩, WroteAll.cons hf hwr hfr⟩
    · rw [map_cons, nodup_cons]
      refine ⟨?_, hr.distinct⟩
      intro hme
      obtain ⟨n, hn, heq⟩ := mem_map.mp hme
      exact hfr n hn heq
    · intro n hn
      rcases mem_cons.mp hn with heq | hn
      · rw [heq]
        exact hs
      · intro hme
        exact hr.fresh n hn (mem_cons_of_mem _ hme)
    intro n hn
    rcases mem_cons.mp hn with heq | hn
    · rw [heq]
      exact ⟨col, body, ha⟩
    · exact passes_congr hf.limits.symm (hf.shape _).symm
        (hf.resident_of_ne (hfr n hn)).symm (hr.passes n hn)

theorem Admits.perm (hp : reordered.Perm ops)
    (h : Admits X indexes resolver seen s ops) : Admits X indexes resolver seen s reordered := by
  refine ⟨?_, ?_, ?_⟩
  · exact (hp.map Mutation.target).nodup_iff.mpr h.distinct
  · intro m hm
    exact h.fresh m (hp.mem_iff.mp hm)
  · intro m hm
    exact h.passes m (hp.mem_iff.mp hm)

/-- Writes whose checks pass in the first state are made in any order, unless the byte counter
overflows on the way. -/
theorem applyEach_cases (revision : ℕ) : ∀ {seen : List (String × String)} {s : TenantState},
      Admits X indexes resolver seen s ops → applyEach X revision indexes resolver seen s ops =
          .error (.query ⟨.quotaExceeded, "logical size overflow"⟩) ∨
        ∃ t, applyEach X revision indexes resolver seen s ops = .ok t := by
  induction ops with
  | nil =>
    intro seen s _
    exact .inr ⟨s, rfl⟩
  | cons m rest ih =>
    intro seen s h
    obtain ⟨col, body, hm⟩ := h.passes m mem_cons_self
    have hs : applyEach X revision indexes resolver seen s (m :: rest) =
        (applyMutation X s m revision indexes resolver >>= fun u =>
          applyEach X revision indexes resolver (m.target :: seen) u rest) := by
      have hse : (!seen.contains m.target) = true := by
        simpa using h.fresh m mem_cons_self
      conv_lhs => unfold applyEach
      rw [hm.name, hse]
      rfl
    rw [hs]
    rcases applyMutation_cases revision hm with ⟨he, _⟩ | ⟨u, hu, hw⟩
    · refine .inl ?_
      rw [he]
      rfl
    rw [hu]
    have hd := h.distinct
    rw [map_cons, nodup_cons] at hd
    have hf : ∀ n ∈ rest, n.target ≠ m.target := by
      intro n hn heq
      exact hd.1 (mem_map.mpr ⟨n, hn, heq⟩)
    refine ih ⟨hd.2, ?_, ?_⟩
    · intro n hn hme
      rcases mem_cons.mp hme with heq | hme
      · exact hf n hn heq
      · exact h.fresh n (mem_cons_of_mem _ hn) hme
    intro n hn
    exact passes_congr hw.limits (hw.shape _) (hw.resident_of_ne (hf n hn))
      (h.passes n (mem_cons_of_mem _ hn))

theorem applyMutations_ok
    (h : applyMutations X s ops revision versions indexes expansion resolver = .ok (t, rcpt)) :
    forgetDocuments t = forgetDocuments s ∧ Admits X indexes resolver [] s ops ∧
    WroteAll X revision resolver s ops t ∧ rcpt.revision = revision := by
  replace h := then_ok h
  obtain ⟨u, hu, h⟩ := bind_ok h
  replace h := then_ok h
  cases h
  obtain ⟨hf, ha, hw⟩ := applyEach_ok hu
  exact ⟨hf, ha, hw, rfl⟩

def bodies (s : TenantState) : OrdMap String CollectionState × ℕ × ℕ :=
  (s.collections, s.documentCount, s.logicalBytes)

theorem WroteAll.congr (h : WroteAll X revision resolver s ops t)
    (hs : bodies u = bodies s) (ht : bodies v = bodies t) :
    WroteAll X revision resolver u ops v := by
  -- Every field reads the three parts of the states that the hypotheses equate.
  cases s
  cases t
  cases u
  cases v
  obtain ⟨rfl, rfl, rfl⟩ : _ = _ ∧ _ = _ ∧ _ = _ := by simpa [bodies] using hs
  obtain ⟨rfl, rfl, rfl⟩ : _ = _ ∧ _ = _ ∧ _ = _ := by simpa [bodies] using ht
  refine ⟨h.shape, h.target, h.other, h.epoch, ?_, ?_, ?_⟩
  · intro he
    have := h.exact ⟨he.count, he.bytes⟩
    exact ⟨this.count, this.bytes⟩
  · exact fun he => h.count ⟨he.count, he.bytes⟩
  · exact fun he => h.bytes ⟨he.count, he.bytes⟩

theorem Admits.congr (h : Admits X indexes resolver seen s ops) (hl : t.limits = s.limits)
    (hc : t.collections = s.collections) : Admits X indexes resolver seen t ops := by
  refine ⟨h.distinct, h.fresh, ?_⟩
  intro m hm
  apply passes_congr hl _ _ (h.passes m hm)
  · rw [hc]
  · unfold resident
    rw [hc]

end MutationEffects
