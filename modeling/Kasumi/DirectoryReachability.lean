import Kasumi.DirectoryRead
import Kasumi.DirectoryRun

/-! Membership of a page in a directory, decided by one descent on the page's minimum key:
separators equal the minimum of the child they stand for, so a reachable page lies on the path
of its own minimum. -/
namespace DirectoryReachability

open DirectoryPages DirectoryUpdate DirectoryTree DirectoryRoute DirectoryRebuild DirectoryRead
  DirectoryRun FallibleSteps SortedAssoc Relation List

variable {D : Type} [DecidableEq D] {B : DirectoryBackend D} {s : B.Store} {root : DirectoryRoot D}
  {l m : Entries} {n g gid : ℕ} {r c : DirectoryPageRef D} {cs : List (Carry D)}

section Descent

variable (B : DirectoryBackend D) (s : B.Store) (root : DirectoryRoot D)

/-- The loop of `contains_page_in`, from a page that is not the candidate. -/
def containsBelow (candidate : DirectoryPageRef D) (page : Page D) (info : PageInfo)
    (minimum : DirectoryKey) : (fuel : ℕ) → DirectoryPageRef D → Bounds → Except CoreError Bool
  | 0, _, _ => throw (.corrupt "directory child shape differs from parent")
  | fuel + 1, reference, bounds => do
    let (parent, parentInfo) ← view B s root reference bounds
    if parentInfo.level ≤ info.level then pure false
    else do
      let (child, bounds) ← bounds.child parent parentInfo (selectChild minimum parent.records 0 0)
      if child = candidate then do
        bounds.check page info
        pure true
      else containsBelow candidate page info minimum fuel child bounds

def containsPageIn (candidate : DirectoryPageRef D) (page : Page D) (info : PageInfo) :
    Except CoreError Bool :=
  match root.page with
  | none => pure false
  | some reference => do
    let first ← nthEntry page info 0
    if reference = candidate then do
      (Bounds.root root).check page info
      pure true
    else
      containsBelow B s root candidate page info first.key root.height reference
        (Bounds.root root)

/-- The candidate is validated under the greatest generation, so that a newer page is absent
from a historical root and no error. -/
def containsPageWithWorkspace (candidate : DirectoryPageRef D) (page : Page D)
    (check : PageCheck) : Except CoreError Bool := do
  root.validate
  let info ← validateCheckedPage B.digest page { root with generation := maxU64 } candidate check
  containsPageIn B s root candidate page info

def Child (r c : DirectoryPageRef D) : Prop :=
  ∃ p a n, B.readPage s r = .ok p ∧ a ∈ p.records ∧ a.value = .branch c n

def Reachable (c : DirectoryPageRef D) : Prop :=
  ∃ r, root.page = some r ∧ ReflTransGen (Child B s) r c

end Descent

omit [DecidableEq D] in
theorem child_iff (hre : B.readPage s r = .ok p) (hr : p.records = cs.map Carry.record) :
    Child B s r c ↔ ∃ a ∈ cs, a.page = c := by
  constructor
  · rintro ⟨q, a, k, hq, ha, hv⟩
    obtain rfl : p = q := Except.ok.inj (hre.symm.trans hq)
    rw [hr] at ha
    obtain ⟨d, hd, rfl⟩ := mem_map.mp ha
    exact ⟨d, hd, by cases hv; rfl⟩
  · rintro ⟨d, hd, rfl⟩
    exact ⟨p, d.record, d.entries, hre, hr ▸ mem_map_of_mem hd, rfl⟩

omit [DecidableEq D] in
theorem carry_below (h : List.Forall₂ (CarryOK P) cs ls) (ha : a ∈ cs) :
    ∃ l, CarryOK P a l ∧ ∀ e ∈ l, e ∈ ls.flatten := by
  obtain ⟨left, right, rfl⟩ := append_of_mem ha
  obtain ⟨_, l, _, rfl, -, ho, -⟩ := forall₂_split h
  exact ⟨l, ho, fun e he => by simp [he]⟩

omit [DecidableEq D] in
theorem reach_subtree (h : Subtree B s gid n g r m) (hc : ReflTransGen (Child B s) r c) :
    ∃ k g' l, Subtree B s gid k g' c l ∧ (r = c ∨ k < n) ∧ k ≤ n ∧ ∀ e ∈ l, e ∈ m := by
  induction hc with
  | refl => exact ⟨n, g, m, h, Or.inl rfl, le_rfl, fun _ he => he⟩
  | tail _ hs ih =>
    obtain ⟨k, g', l, ht, -, hl, hsu⟩ := ih
    cases k with
    | zero =>
      obtain ⟨p, hst, -, -, hr⟩ := ht
      obtain ⟨q, a, _, hq, ha, hv⟩ := hs
      obtain rfl : p = q := Except.ok.inj (hst.read.symm.trans hq)
      rw [hr] at ha
      obtain ⟨e, -, rfl⟩ := mem_map.mp ha
      cases hv
    | succ k =>
      obtain ⟨p, cs, ls, hst, -, -, hr, hcs, rfl⟩ := ht
      obtain ⟨a, ha, rfl⟩ := (child_iff hst.read hr).mp hs
      obtain ⟨l', ho, hi⟩ := carry_below hcs ha
      exact ⟨k, p.generation, l', ho.below, Or.inr (by omega), by omega,
        fun e he => hsu e (hi e he)⟩

theorem validated {check : PageCheck}
    (h : validateCheckedPage digest page root c check = .ok info) :
    page.generation ≤ root.generation ∧ info.level = page.level ∧
      ∃ first, page.records.head? = some first ∧ nthEntry page info 0 = .ok first := by
  replace h := then_ok h
  obtain ⟨_, h⟩ := guard_ok h
  obtain ⟨_, h⟩ := guard_ok h
  obtain ⟨hb, h⟩ := guard_ok h
  obtain ⟨hl, h⟩ := guard_ok h
  obtain ⟨⟨off, es, last⟩, _, h⟩ := bind_ok h
  obtain ⟨_, h⟩ := guard_ok h
  cases h
  simp only [PageInfo.header, not_or, not_lt, not_not] at hb hl
  obtain ⟨_, hg, _, hc, _⟩ := hb
  obtain ⟨first, rest, hr⟩ := exists_cons_of_ne_nil
    (ne_nil_of_length_pos (by omega : 0 < page.records.length))
  refine ⟨hg, rfl, first, by rw [hr]; rfl, ?_⟩
  unfold nthEntry
  rw [if_neg (by simp only [PageInfo.header]; omega), hr]
  rfl

/-- An individually valid page: its reference names its digest, and no other page of that
digest is stored there. -/
structure Candidate (B : DirectoryBackend D) (s : B.Store) (root : DirectoryRoot D)
    (candidate : DirectoryPageRef D) (page : Page D) (check : PageCheck) (info : PageInfo) :
    Prop where
  digest : candidate.sha256 = B.digest page
  valid : validateCheckedPage B.digest page { root with generation := maxU64 } candidate check =
    .ok info
  collisionFree : ∀ p, B.readPage s candidate = .ok p → B.digest p = B.digest page → p = page

section Candidates

variable {candidate : DirectoryPageRef D} {page : Page D} {check : PageCheck} {info : PageInfo}

theorem Candidate.stored (h : Candidate B s root candidate page check info)
    (ht : Subtree B s root.groupId n g candidate l) :
    PageOK root.groupId g page ∧ page.level = n ∧ NodeOf page l ∧ info = infoOf page := by
  obtain ⟨p, hs, hp, hl, hn⟩ := ht.top
  obtain rfl := h.collisionFree p hs.read (hs.digest.symm.trans h.digest)
  have hm : PageOK root.groupId maxU64 p := { hp with bounded := (validated h.valid).1 }
  have ho : validateCheckedPage B.digest p { root with generation := maxU64 } candidate check =
    .ok (infoOf p) := validate_page_ok hm hs.valid hs.digest
  exact ⟨hp, hl, hn, Except.ok.inj (h.valid.symm.trans ho)⟩

theorem containsBelow_spec (h : Candidate B s root candidate page check info)
    (hfi : page.records.head? = some first) {fuel : ℕ}
    (ht : Subtree B s root.groupId n g r m) (hb : BoundsOK b n g m) (hs : Sorted m)
    (hg : g ≤ root.generation) (hfu : n < fuel) (hne : r ≠ candidate) :
    ∃ found, containsBelow B s root candidate page info first.key fuel r b = .ok found ∧
      (found = true ↔ ReflTransGen (Child B s) r candidate) := by
  induction fuel generalizing n g r m b with
  | zero => omega
  | succ fuel ih =>
    obtain ⟨p, hst, hp, hl, hn⟩ := ht.top
    unfold containsBelow
    rw [ok_bind (view_ok hst hp hl hn hb hg)]
    dsimp only
    by_cases hle : (infoOf p).level ≤ info.level
    · rw [if_pos hle]
      refine ⟨false, rfl, (fun hf => nomatch hf), fun hre => ?_⟩
      obtain ⟨k, _, _, hk, hlt, -, -⟩ := reach_subtree ht hre
      obtain ⟨-, hpl, -, rfl⟩ := h.stored hk
      have := hlt.resolve_left hne
      simp only [infoOf_level] at hle
      omega
    rw [if_neg hle]
    cases n with
    | zero =>
      rw [infoOf_level] at hle
      omega
    | succ n =>
      obtain ⟨q, cs, lists, hq, -, -, -, hr, hcs, rfl⟩ := ht.branch
      obtain rfl : p = q := Except.ok.inj (hst.read.symm.trans hq.read)
      obtain ⟨left, a, right, ls, m, rs, rfl, rfl, hse, h1, h2, h3, hbe, ha⟩ :=
        select_split first.key hp hr hcs hs
      have hfl : (ls ++ m :: rs).flatten = ls.flatten ++ m ++ rs.flatten := by simp
      rw [hfl] at hb hs
      have hbo := childBounds_ok right ls rs hb hl h2 h3 hs
      have hste : Child B s r a.page := (child_iff hst.read hr).mpr ⟨a, by simp, rfl⟩
      rw [hse, ok_bind (bounds_child_ok b hp hr)]
      by_cases heq : a.page = candidate
      · rw [if_pos heq]
        obtain ⟨hpa, hpl, hno, rfl⟩ := h.stored (heq ▸ h2.below)
        rw [ok_bind (bounds_check_ok hbo hpa hpl hno)]
        exact ⟨true, rfl, fun _ => .single (heq ▸ hste), fun _ => rfl⟩
      rw [if_neg heq]
      obtain ⟨found, hru, hfo⟩ := ih h2.below hbo
        (sorted_append.mp (sorted_append.mp hs).1).2.1 (le_trans hp.bounded hg) (by omega) heq
      refine ⟨found, hru, hfo.trans ⟨.head hste, fun hre => ?_⟩⟩
      -- The candidate lies below the child that holds its minimum.
      have hm : ∀ d k, CarryOK (Subtree B s root.groupId n p.generation) d k →
          ReflTransGen (Child B s) d.page candidate → ∃ e ∈ k, e.1 = first.key := by
        intro d k hd hres
        obtain ⟨_, _, l, hk, -, -, hsu⟩ := reach_subtree hd.below hres
        have hke := (h.stored hk).2.2.1.first
        rw [hfi] at hke
        obtain ⟨e, he, hke⟩ := Option.map_eq_some_iff.mp hke.symm
        exact ⟨e, hsu e (mem_of_mem_head? he), hke⟩
      obtain ⟨c, hc, hres⟩ := hre.cases_head.resolve_left hne
      obtain ⟨d, hd, rfl⟩ := (child_iff hst.read hr).mp hc
      rcases mem_append.mp hd with hd | hd
      · obtain ⟨k, ho, hi⟩ := carry_below h1 hd
        obtain ⟨e, he, hke⟩ := hm d k ho hres
        exact absurd hke (hbe e (hi e he)).ne
      rcases mem_cons.mp hd with rfl | hd
      · exact hres
      obtain ⟨k, ho, hi⟩ := carry_below h3 hd
      obtain ⟨e, he, hke⟩ := hm d k ho hres
      exact absurd hke (ha e (hi e he)).ne'

/-- The membership proof never fails and is exact: it answers true just for the references
that are reachable from the root. -/
theorem contains_page_iff_reachable (hroot : RootTree B s root l)
    (h : Candidate B s root candidate page check info) :
    ∃ found, containsPageWithWorkspace B s root candidate page check = .ok found ∧
      (found = true ↔ Reachable B s root candidate) := by
  obtain ⟨-, -, first, hf, he⟩ := validated h.valid
  unfold containsPageWithWorkspace containsPageIn Reachable
  rw [ok_bind hroot.validate, ok_bind h.valid]
  cases hpa : root.page with
  | none => exact ⟨false, rfl, by simp⟩
  | some r =>
    obtain ⟨_, hpo, _, ht⟩ := hroot.tree r hpa
    dsimp only
    rw [ok_bind he]
    by_cases heq : r = candidate
    · rw [if_pos heq]
      obtain ⟨hp, hpl, hn, rfl⟩ := h.stored (heq ▸ ht)
      rw [ok_bind (bounds_check_ok (bounds_root_ok hroot) hp hpl hn)]
      exact ⟨true, rfl, fun _ => ⟨r, rfl, heq ▸ .refl⟩, fun _ => rfl⟩
    rw [if_neg heq]
    obtain ⟨found, hru, hfo⟩ := containsBelow_spec h hf ht (bounds_root_ok hroot)
      hroot.sorted le_rfl (Nat.sub_lt hpo Nat.one_pos) heq
    refine ⟨found, hru, hfo.trans ⟨fun hre => ⟨r, rfl, hre⟩, ?_⟩⟩
    rintro ⟨_, hr, hre⟩
    cases hr
    exact hre

end Candidates

section Sample

def samplePages : List (Page (List ℕ)) := sampleSession.store

def refAt (i : ℕ) (page : Page (List ℕ)) : DirectoryPageRef (List ℕ) := ⟨1, i, fingerprint page⟩

def containsAt (i : ℕ) : Option Bool :=
  samplePages[i]?.bind fun page => (containsPageWithWorkspace memoryArena samplePages
    sampleSession.root (refAt i page) page .unchecked).toOption

theorem candidate_at {pages : List (Page (List ℕ))} {root : DirectoryRoot (List ℕ)}
    (hp : pages[i]? = some page)
    (h : (containsPageWithWorkspace memoryArena pages root (refAt i page) page
      .unchecked).toOption = some found) :
    containsPageWithWorkspace memoryArena pages root (refAt i page) page .unchecked = .ok found ∧
      ∃ info, Candidate memoryArena pages root (refAt i page) page .unchecked info := by
  generalize hr : containsPageWithWorkspace memoryArena pages root (refAt i page) page
    .unchecked = r at h
  cases r with
  | error => cases h
  | ok b =>
    cases h
    obtain ⟨info, hv, _⟩ := bind_ok (then_ok hr)
    refine ⟨rfl, info, rfl, hv, fun q hq _ => ?_⟩
    have hq : memoryRead pages (refAt i page) = .ok q := hq
    unfold memoryRead refAt at hq
    rw [hp] at hq
    exact (Except.ok.inj hq).symm

set_option maxRecDepth 100000 in
/-- Below the root page 8: its right child 5, and the page 4 that was its left child before the
last call. -/
theorem contains_page_iff_reachable_memory : ∃ child old,
    sampleSession.root.page.map DirectoryPageRef.pageIndex = some 8 ∧
    samplePages[5]? = some child ∧ samplePages[4]? = some old ∧
    containsPageWithWorkspace memoryArena samplePages sampleSession.root (refAt 5 child) child
      .unchecked = .ok true ∧
    Reachable memoryArena samplePages sampleSession.root (refAt 5 child) ∧
    containsPageWithWorkspace memoryArena samplePages sampleSession.root (refAt 4 old) old
      .unchecked = .ok false ∧
    ¬ Reachable memoryArena samplePages sampleSession.root (refAt 4 old) := by
  have he : containsAt 5 = some true ∧ containsAt 4 = some false ∧
      sampleSession.root.page.map DirectoryPageRef.pageIndex = some 8 := by decide +kernel
  have ht : RootTree memoryArena samplePages sampleSession.root sampleEntries := sample_tree
  obtain ⟨child, hp, h⟩ := Option.bind_eq_some_iff.mp he.1
  obtain ⟨old, hp', h'⟩ := Option.bind_eq_some_iff.mp he.2.1
  have hc := candidate_at hp h
  have hc' := candidate_at hp' h'
  refine ⟨child, old, he.2.2, hp, hp', hc.1, ?_, hc'.1, ?_⟩
  · obtain ⟨_, hca⟩ := hc.2
    obtain ⟨found, hf, hi⟩ := contains_page_iff_reachable ht hca
    obtain rfl : true = found := Except.ok.inj (hc.1.symm.trans hf)
    exact hi.mp rfl
  obtain ⟨_, hca⟩ := hc'.2
  obtain ⟨found, hf, hi⟩ := contains_page_iff_reachable ht hca
  obtain rfl : false = found := Except.ok.inj (hc'.1.symm.trans hf)
  exact fun hr => nomatch hi.mpr hr

end Sample

end DirectoryReachability
