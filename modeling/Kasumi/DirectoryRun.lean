import Kasumi.DirectorySet

/-! Whole runs of `set` calls from the empty root. The page checks of the reader hold on
every page a returned root reaches, and its leaves list the sorted map the edits denote. -/
namespace DirectoryRun

open DirectoryPages DirectoryUpdate DirectoryTree DirectoryRoute List
open DirectoryRebuild DirectorySet FallibleState SortedAssoc

variable {D : Type} [DecidableEq D] {B : DirectoryBackend D}

inductive Reached (B : DirectoryBackend D) (s : B.Store) (root : DirectoryRoot D) :
    DirectoryPageRef D → Bounds → Prop where
  | top {r} : root.page = some r → Reached B s root r (Bounds.root root)
  | child {r b p info i c b'} : Reached B s root r b → B.readPage s r = .ok p →
      validatePage B.digest p root r = .ok info → 0 < info.level →
      b.child p info i = .ok (c, b') → Reached B s root c b'

/-- Every reachable page passes `validate_page` and its ancestors' `Bounds::check`; the root
itself is valid and its top page is a leaf or branches. -/
structure CheckedTree (B : DirectoryBackend D) (s : B.Store) (root : DirectoryRoot D) : Prop where
  valid : root.validate = .ok ()
  pages : ∀ r b, Reached B s root r b → ∃ p info, B.readPage s r = .ok p ∧
    validatePage B.digest p root r = .ok info ∧ b.check p info = .ok ()
  branches : ∀ r p, root.page = some r → 1 < root.height → B.readPage s r = .ok p →
    2 ≤ p.records.length

def leafEntries (B : DirectoryBackend D) (s : B.Store) : (level : ℕ) → DirectoryPageRef D → Entries
  | 0, r =>
    match B.readPage s r with
    | .ok p => p.records.filterMap fun a => match a.value with
      | .leaf v => some (a.key, v)
      | .branch _ _ => none
    | .error _ => []
  | n + 1, r =>
    match B.readPage s r with
    | .ok p => p.records.flatMap fun a => match a.value with
      | .leaf _ => []
      | .branch child _ => leafEntries B s n child
    | .error _ => []

def rootEntries (B : DirectoryBackend D) (s : B.Store) (root : DirectoryRoot D) : Entries :=
  match root.page with
  | some r => leafEntries B s (root.height - 1) r
  | none => []

section Tree

variable {B : DirectoryBackend D} {s : B.Store} {root : DirectoryRoot D} {l : Entries}

omit [DecidableEq D] in
theorem leafEntries_eq (h : Subtree B s gid n g r l) : leafEntries B s n r = l := by
  induction n generalizing g r l with
  | zero =>
    obtain ⟨p, hs, -, -, hr⟩ := h
    rw [leafEntries, hs.read]
    simp [hr, filterMap_map, leafRecord, Function.comp_def]
  | succ n ih =>
    obtain ⟨p, cs, ls, hs, -, -, hr, hc, rfl⟩ := h
    rw [leafEntries, hs.read]
    dsimp only
    rw [hr]
    clear hr
    induction hc with
    | nil => rfl
    | cons ha _ ihc => simp [Carry.record, ih ha.below, ← ihc]

section

variable (h : WellFormed B s root l)

include h

omit [DecidableEq D] in
theorem rootEntries_eq : rootEntries B s root = l := by
  unfold rootEntries
  cases hp : root.page with
  | none => exact (h.empty hp).2.symm
  | some r => exact leafEntries_eq (h.tree r hp).2.2.2

theorem reached_subtree (hr : Reached B s root r b) : ∃ n g m,
    Subtree B s root.groupId n g r m ∧ BoundsOK b n g m ∧ Sorted m ∧ g ≤ root.generation := by
  induction hr with
  | top hp =>
    exact ⟨_, _, l, (h.tree _ hp).2.2.2, bounds_root_ok h.toRootTree, h.sorted, le_refl _⟩
  | @child r b p info i c b' hpr hre hv hpo hc ih =>
    obtain ⟨n, g, m, ht, hb, hs, hg⟩ := ih
    obtain ⟨q, hq, hpa, hl, -⟩ := ht.top
    obtain rfl : p = q := Except.ok.inj (hre.symm.trans hq.read)
    have hin : info = infoOf p := by
      have := validate_page_ok (c := .unchecked) (hpa.mono hg) hq.valid hq.digest
      exact Except.ok.inj (hv.symm.trans this)
    subst hin
    cases n with
    | zero => rw [infoOf_level, hl] at hpo; omega
    | succ n =>
      obtain ⟨q, cs, ls, hq', -, -, hrec, hcs, rfl⟩ := ht
      obtain rfl : p = q := Except.ok.inj (hre.symm.trans hq'.read)
      have hi : i < cs.length := by
        by_contra hge
        unfold Bounds.child nthEntry at hc
        rw [if_pos (by rw [infoOf_count, hpa.count, hrec, length_map]; omega)] at hc
        cases hc
      obtain ⟨k, _, -, ho, h2, hbo, hso⟩ := child_at hpa hl hrec hcs hb hs hi
      obtain ⟨rfl, rfl⟩ := Prod.mk.inj (Except.ok.inj (hc.symm.trans ho))
      exact ⟨n, p.generation, k, h2.below, hbo, hso, le_trans hpa.bounded hg⟩

theorem WellFormed.checked : CheckedTree B s root := by
  refine ⟨h.validate, ?_, h.branches⟩
  intro r b hr
  obtain ⟨n, g, m, ht, hb, -, hg⟩ := reached_subtree h hr
  obtain ⟨p, hs, hp, hl, hn⟩ := ht.top
  exact ⟨p, infoOf p, hs.read, validate_page_ok (hp.mono hg) hs.valid hs.digest,
    bounds_check_ok hb hp hl hn⟩

end

end Tree

inductive Call where
  | set (generation : ℕ) (key : DirectoryKey) (value : Option DirectoryValue)
  | renew

def Admissible : (last : ℕ) → List Call → Prop
  | _, [] => True
  | last, .renew :: calls => Admissible last calls
  | last, .set generation key value :: calls =>
    ValidEdit generation last key value ∧ Admissible generation calls

/-- The caller's view of a run, beside the map its accepted edits denote. Refusals are kept
with whether the mutator had already been poisoned. -/
structure Session (B : DirectoryBackend D) where
  store : B.Store
  mutator : DirectoryMutator
  root : DirectoryRoot D
  map : DirectoryKey → Option DirectoryValue
  returned : List (DirectoryRoot D × (DirectoryKey → Option DirectoryValue))
  refused : List (Bool × CoreError)

def Session.start (B : DirectoryBackend D) (groupId : ℕ) (s : B.Store) : Session B :=
  ⟨s, .forEdits, ⟨groupId, 0, none, 0, 0⟩, fun _ => none, [], []⟩

def Session.call {B : DirectoryBackend D} (σ : Session B) : Call → Session B
  | .renew => { σ with mutator := .forEdits }
  | .set generation key value =>
    match σ.mutator.set B σ.root generation key value σ.store with
    | (.ok root, mutator, store) =>
      let map := Function.update σ.map key value
      { store, mutator, root, map, returned := (root, map) :: σ.returned, refused := σ.refused }
    | (.error e, mutator, store) =>
      { σ with store, mutator, refused := (σ.mutator.failed, e) :: σ.refused }

def Session.run {B : DirectoryBackend D} (σ : Session B) (calls : List Call) : Session B :=
  calls.foldl Session.call σ

variable {m : DirectoryMutator}

omit [DecidableEq D] in
theorem admitEdit_ok (hm : m.mode = .edits) (hr : e.root.validate = .ok ())
    (hv : ValidEdit e.generation e.root.generation e.key e.value) : admitEdit m e = .ok () := by
  have hg : ¬ (e.generation = 0 ∨ e.generation < e.root.generation) := by
    have h1 := hv.positive
    have h2 := hv.order
    omega
  have hk : e.key.validate = .ok () := if_pos hv.keyValid
  unfold admitEdit
  simp only [hr, hk, hm, bind, Except.bind, ne_eq, not_true_eq_false, if_false]
  refine (if_neg hg).trans ?_
  cases hva : e.value with
  | none => rfl
  | some v => dsimp only; rw [hv.valueValid v hva]; rfl

variable {gen : ℕ} {key : DirectoryKey} {v : Option DirectoryValue}

theorem set_spec (hB : AppendOnly B)
    (h : WellFormed B s root l) (hf : m.failed = false) (hm : m.mode = .edits)
    (hv : ValidEdit gen root.generation key v) :
    (∃ root' t, m.set B root gen key v s = (.ok root', m, t) ∧ Extends B s t ∧
      WellFormed B t root' (edit key v l) ∧ root'.generation = gen ∧ root'.groupId = root.groupId) ∨
    (∃ e t, m.set B root gen key v s = (.error e, { m with failed := true }, t) ∧
      Extends B s t ∧ Refusal B e) := by
  have hs := editAdmitted_spec hB (e := ⟨root, gen, key, v, false⟩) h hv
  unfold DirectoryMutator.set DirectoryMutator.edit
  rw [hf, admitEdit_ok hm h.validate hv]
  unfold Grows Meets at hs
  rcases hr : ((editAdmitted B ⟨root, gen, key, v, false⟩).run).run s with ⟨e | r, t⟩
  · rw [hr] at hs
    exact .inr ⟨e, t, rfl, hs.2, hs.1⟩
  · rw [hr] at hs
    exact .inl ⟨r, t, rfl, hs.1, hs.2.1, hs.2.2.1, hs.2.2.2⟩

def Denotes (B : DirectoryBackend D) (s : B.Store) (root : DirectoryRoot D)
    (map : DirectoryKey → Option DirectoryValue) : Prop :=
  ∃ l, WellFormed B s root l ∧ toMap l = map

omit [DecidableEq D] in
theorem Denotes.mono
    {map : DirectoryKey → Option DirectoryValue} (h : Denotes B s root map) (hs : Extends B s t) :
    Denotes B t root map := by
  obtain ⟨l, hl, rfl⟩ := h
  exact ⟨l, hl.mono_store hs, rfl⟩

structure SessionOK {B : DirectoryBackend D} (last : ℕ) (σ : Session B) : Prop where
  mode : σ.mutator.mode = .edits
  generation : σ.root.generation ≤ last
  current : Denotes B σ.store σ.root σ.map
  returned : ∀ x ∈ σ.returned, Denotes B σ.store x.1 x.2
  refused : ∀ x ∈ σ.refused, if x.1 then x.2 = .ownerFailed else Refusal B x.2
  poisoned : σ.mutator.failed = true → ∃ e, (false, e) ∈ σ.refused
  cause : ∀ x ∈ σ.refused, x.1 = true → ∃ e, (false, e) ∈ σ.refused

omit [DecidableEq D] in
theorem start_ok (B : DirectoryBackend D) (gid : ℕ) (s : B.Store) :
    SessionOK 0 (Session.start B gid s) := by
  refine ⟨rfl, le_refl _, ⟨[], ⟨⟨.nil, rfl, Nat.zero_le _, fun _ => ⟨rfl, rfl⟩, ?_⟩, ?_⟩, rfl⟩,
    ?_, ?_, ?_, ?_⟩
  · intro r hr; cases hr
  · intro r p hr; cases hr
  · intro x hx; cases hx
  · intro x hx; cases hx
  · intro h; cases h
  · intro x hx; cases hx

variable {last : ℕ} {σ : Session B}

theorem call_ok (hB : AppendOnly B) (h : SessionOK last σ) (hv : ValidEdit gen last key v) :
    SessionOK gen (σ.call (.set gen key v)) := by
  have hle := le_trans h.generation hv.order
  cases hf : σ.mutator.failed with
  | true =>
    have hc : σ.call (.set gen key v) =
        { σ with refused := (true, .ownerFailed) :: σ.refused } := by
      simp only [Session.call, DirectoryMutator.set, DirectoryMutator.edit, hf, if_true]
    rw [hc]
    obtain ⟨e, he⟩ := h.poisoned hf
    refine ⟨h.mode, hle, h.current, h.returned, ?_, ?_, ?_⟩
    · intro x hx
      rcases mem_cons.mp hx with rfl | hx
      · exact rfl
      · exact h.refused x hx
    · intro _
      exact ⟨e, mem_cons_of_mem _ he⟩
    · intro x _ _
      exact ⟨e, mem_cons_of_mem _ he⟩
  | false =>
    obtain ⟨l, hl, hm⟩ := h.current
    rcases set_spec hB hl hf h.mode
      ⟨hv.positive, hle, hv.keyValid, hv.valueValid⟩ with
      ⟨root', t, hs, hst, hw, hg, -⟩ | ⟨e, t, hs, hst, hr⟩
    · have hd : Denotes B t root' (Function.update σ.map key v) :=
        ⟨_, hw, by rw [toMap_edit hl.sorted, hm]⟩
      simp only [Session.call, hs]
      refine ⟨h.mode, le_of_eq hg, hd, ?_, h.refused, h.poisoned, h.cause⟩
      intro x hx
      rcases mem_cons.mp hx with rfl | hx
      · exact hd
      · exact (h.returned x hx).mono hst
    simp only [Session.call, hs, hf]
    refine ⟨h.mode, hle, h.current.mono hst, fun x hx => (h.returned x hx).mono hst, ?_, ?_, ?_⟩
    · intro x hx
      rcases mem_cons.mp hx with rfl | hx
      · exact hr
      · exact h.refused x hx
    · intro _
      exact ⟨e, by simp⟩
    · intro x _ _
      exact ⟨e, by simp⟩

theorem run_ok (hB : AppendOnly B) (h : SessionOK last σ)
    (hc : Admissible last calls) : ∃ last', SessionOK last' (σ.run calls) := by
  induction calls generalizing last σ with
  | nil => exact ⟨last, h⟩
  | cons c calls ih =>
    cases c with
    | renew =>
      exact ih (σ := σ.call .renew) ⟨rfl, h.generation, h.current, h.returned, h.refused,
        (by intro hf; cases hf), h.cause⟩ hc
    | set gen key v => exact ih (call_ok hB h hc.1) hc.2

omit [DecidableEq D] in
theorem refusal_not_corrupt (hB : AppendOnly B) (h : Refusal B e) : e.isCorrupt = false := by
  rcases h with rfl | rfl | ⟨s, p, h⟩
  · rfl
  · rfl
  · exact hB.refusal s p e (B.appendPage s p).2 (Prod.ext h rfl)

def number (bytes : List Byte) : ℕ := bytes.foldr (fun b n => b.val + 256 * n) 0

def recordWords (r : Record (List ℕ)) : List ℕ :=
  r.key.table.length :: number r.key.table :: (r.key.row.elim 0 fun row => row.length + 1) ::
    number (r.key.row.getD []) ::
    match r.value with
    | .leaf (.table birth) => [0, birth]
    | .leaf (.row batch v) => [1, batch, v.segmentId, v.offset, v.len, v.crc]
    | .branch page entries => 2 :: entries :: page.arenaId :: page.pageIndex ::
        page.sha256.length :: page.sha256

def fingerprint (p : Page (List ℕ)) : List ℕ :=
  p.groupId :: p.generation :: p.level :: p.count :: p.used :: p.entries ::
    p.records.flatMap recordWords

def memoryRead (s : List (Page (List ℕ))) (r : DirectoryPageRef (List ℕ)) :
    Except CoreError (Page (List ℕ)) :=
  match s[r.pageIndex]? with
  | some p => if r.arenaId = 1 then .ok p else .error .io
  | none => .error .io

def memoryAppend (s : List (Page (List ℕ))) (p : Page (List ℕ)) :
    Except CoreError (DirectoryPageRef (List ℕ)) × List (Page (List ℕ)) :=
  if s.length < maxU64 then (.ok ⟨1, s.length, fingerprint p⟩, s ++ [p])
  else (.error .capacityDenied, s)

def memoryArena : DirectoryBackend (List ℕ) where
  Store := List (Page (List ℕ))
  digest := fingerprint
  pageCheck := .unchecked
  readPage := memoryRead
  appendPage := memoryAppend

theorem memoryRead_append (h : memoryRead s r = .ok q) (p : Page (List ℕ)) :
    memoryRead (s ++ [p]) r = .ok q := by
  unfold memoryRead at *
  have hl : r.pageIndex < s.length := by
    by_contra hg
    rw [getElem?_eq_none (by omega)] at h
    cases h
  rw [getElem?_append_left hl]
  exact h

theorem memoryArena_appendOnly : AppendOnly memoryArena := by
  refine ⟨?_, ?_, ?_⟩
  · intro s p r q hq
    change memoryRead (memoryAppend s p).2 r = .ok q
    unfold memoryAppend
    split
    · exact memoryRead_append hq p
    · exact hq
  · intro (s : List (Page (List ℕ))) p r t h
    change memoryAppend s p = (.ok r, t) at h
    unfold memoryAppend at h
    split at h
    · next hl =>
      obtain ⟨hr, rfl⟩ := Prod.mk.inj h
      cases hr
      refine ⟨?_, ?_, rfl⟩
      · change memoryRead _ _ = _
        simp [memoryRead]
      unfold DirectoryPageRef.validate
      have ho : maxU64 ≠ 1 := by decide
      rw [if_neg (by simp only; omega)]
      rfl
    · cases h
  intro s p e t h
  change memoryAppend s p = (.error e, t) at h
  unfold memoryAppend at h
  split at h
  · cases h
  obtain ⟨he, -⟩ := Prod.mk.inj h
  cases he
  rfl

/-- A row of the longest key a page takes: three of them fill a page. -/
def longRow (first : Byte) : DirectoryKey := ⟨[116], some (first :: List.replicate 4095 0)⟩

/-- The last insertion splits the root page; the last call deletes on the left of the two. -/
def sampleCalls : List Call :=
  [.set 1 ⟨[116], none⟩ (some (.table 1)),
    .set 1 (longRow 1) (some (.row 1 ⟨1, 200, 3, 7⟩)),
    .set 2 (longRow 4) (some (.row 2 ⟨1, 300, 3, 7⟩)),
    .set 3 (longRow 3) (some (.row 3 ⟨1, 400, 3, 7⟩)),
    .set 3 (longRow 2) (some (.row 3 ⟨1, 500, 3, 7⟩)),
    .set 4 (longRow 1) none]

def sampleSession : Session memoryArena := (Session.start memoryArena 7 []).run sampleCalls

def sampleEntries : Entries :=
  [(⟨[116], none⟩, .table 1), (longRow 2, .row 3 ⟨1, 500, 3, 7⟩),
    (longRow 3, .row 3 ⟨1, 400, 3, 7⟩), (longRow 4, .row 2 ⟨1, 300, 3, 7⟩)]

theorem longRow_valid (first : Byte) : (longRow first).Valid := by
  refine ⟨cons_ne_nil _ _, show 1 ≤ maxTableBytes by decide, ?_⟩
  change (first :: replicate 4095 0).length ≤ maxKeyBytes
  rw [length_cons, length_replicate]
  decide

theorem sampleCalls_admissible : Admissible 0 sampleCalls := by
  have hl := longRow_valid
  refine ⟨⟨by decide, by decide, by decide, ?_⟩, ⟨by decide, by decide, hl 1, ?_⟩,
    ⟨by decide, by decide, hl 4, ?_⟩, ⟨by decide, by decide, hl 3, ?_⟩,
    ⟨by decide, by decide, hl 2, ?_⟩, ⟨by decide, by decide, hl 1, nofun⟩, trivial⟩
  all_goals
    intro v hv
    cases hv
    rfl

set_option maxRecDepth 100000 in
theorem sample_evaluated :
    sampleSession.returned.map (fun x => x.1.height) = [2, 2, 1, 1, 1, 1] ∧
    sampleSession.root.height = 2 ∧
    rootEntries memoryArena sampleSession.store sampleSession.root = sampleEntries := by
  decide +kernel

theorem sample_tree :
    RootTree memoryArena sampleSession.store sampleSession.root sampleEntries := by
  obtain ⟨_, hr⟩ := run_ok memoryArena_appendOnly (start_ok memoryArena 7 [])
    sampleCalls_admissible
  obtain ⟨l, hl, _⟩ := hr.current
  rw [← sample_evaluated.2.2]
  exact (rootEntries_eq hl).symm ▸ hl.toRootTree

end DirectoryRun
