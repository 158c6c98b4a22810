import Kasumi.DirectoryRebuild
import Kasumi.FallibleSteps

/-! Reading the directory. Every read holds one page and goes down one child at a time from
the root; on a well-formed tree no page check fails on the way, and the answer follows from
what is decided on each page. -/
namespace DirectoryRead

open DirectoryPages DirectoryUpdate DirectoryTree DirectoryRoute DirectoryRebuild FallibleSteps
  SortedAssoc

variable {D : Type} [DecidableEq D] {B : DirectoryBackend D} {s : B.Store} {root : DirectoryRoot D}

section Loop

variable (B : DirectoryBackend D) (s : B.Store) (root : DirectoryRoot D)

/-- `DirectoryReader::load` and `view`: reads leave the store alone, so they are functions
of it. -/
def view (reference : DirectoryPageRef D) (bounds : Bounds) :
    Except CoreError (Page D × PageInfo) := do
  let page ← B.readPage s reference
  let info ← validateCheckedPage B.digest page root reference B.pageCheck
  bounds.check page info
  pure (page, info)

def leafEntry (r : Record D) (generation : ℕ) :
    Except CoreError (DirectoryKey × DirectoryValue) :=
  match r.value with
  | .leaf value => do
    value.validate r.key generation
    pure (r.key, value)
  | .branch _ _ => throw (.corrupt "directory value exceeds page")

inductive Turn (σ α : Type) where
  | answer (a : α)
  | child (index : ℕ) (state : σ)

/-- The loop of a read. Levels strictly decrease, so `fuel` is the tree height. -/
def follow {σ α : Type} (turn : σ → Page D → PageInfo → Except CoreError (Turn σ α)) :
    (fuel : ℕ) → DirectoryPageRef D → Bounds → σ → Except CoreError α
  | 0, _, _, _ => throw (.corrupt "directory child shape differs from parent")
  | fuel + 1, reference, bounds, state => do
    let (page, info) ← view B s root reference bounds
    match ← turn state page info with
    | .answer a => pure a
    | .child index state => do
      let (child, bounds) ← bounds.child page info index
      follow turn fuel child bounds state

end Loop

structure LeafPage (root : DirectoryRoot D) (p : Page D) (l : Entries) : Prop where
  page : PageOK root.groupId root.generation p
  level : p.level = 0
  records : p.records = l.map leafRecord
  sorted : Sorted l

/-- A branch page of a well-formed root with the entries below each of its children. -/
structure BranchPage (root : DirectoryRoot D) (p : Page D) (cs : List (Carry D))
    (ls : List Entries) : Prop where
  page : PageOK root.groupId root.generation p
  level : p.level ≠ 0
  records : p.records = cs.map Carry.record
  below : ∃ P, List.Forall₂ (CarryOK P) cs ls
  sorted : Sorted ls.flatten

theorem view_ok (hs : Stored B s r p) (hp : PageOK root.groupId g p) (hl : p.level = n)
    (hn : NodeOf p l) (hb : BoundsOK b n g l) (hg : g ≤ root.generation) :
    view B s root r b = .ok (p, infoOf p) := by
  unfold view
  rw [ok_bind hs.read, ok_bind (validate_page_ok (hp.mono hg) hs.valid hs.digest),
    ok_bind (bounds_check_ok hb hp hl hn)]
  rfl

omit [DecidableEq D] in
theorem leafEntry_ok (h : LeafPage root p l) (he : e ∈ l) :
    leafEntry (leafRecord e : Record D) (infoOf p).generation = .ok e := by
  have hr := h.page.records (leafRecord e) (by rw [h.records]; exact List.mem_map_of_mem he)
  exact ok_bind hr.2.2

/-- Turns that keep `Pre` and answer as `Answer` says: on a leaf at once, and on a branch for
the entries of the child they go to. -/
structure TurnsOK {σ α : Type} (root : DirectoryRoot D)
    (turn : σ → Page D → PageInfo → Except CoreError (Turn σ α)) (Pre : σ → Entries → Prop)
    (Answer : σ → Entries → α → Prop) : Prop where
  leaf : ∀ state p l, LeafPage root p l → Pre state l →
    ∃ a, turn state p (infoOf p) = .ok (.answer a) ∧ Answer state l a
  branch : ∀ state p cs ls, BranchPage root p cs ls → Pre state ls.flatten →
    (∃ a, turn state p (infoOf p) = .ok (.answer a) ∧ Answer state ls.flatten a) ∨
    ∃ i next l, turn state p (infoOf p) = .ok (.child i next) ∧ ls[i]? = some l ∧ Pre next l ∧
      ∀ a, Answer next l a → Answer state ls.flatten a

variable {σ α : Type}

theorem follow_spec (h : TurnsOK root turn Pre Answer)
    (ht : Subtree B s root.groupId n g r l) (hb : BoundsOK b n g l) (hs : Sorted l)
    (hg : g ≤ root.generation) (hf : n < fuel) (hpr : Pre state l) :
    ∃ a, follow B s root turn fuel r b state = .ok a ∧ Answer state l a := by
  induction n generalizing g r l b state fuel with
  | zero =>
    obtain ⟨fuel, rfl⟩ := Nat.exists_eq_succ_of_ne_zero (Nat.ne_of_gt hf)
    obtain ⟨p, hst, hp, hl, hn, hr⟩ := ht.leaf
    obtain ⟨a, htu, ha⟩ := h.leaf _ _ _ ⟨hp.mono hg, hl, hr, hs⟩ hpr
    refine ⟨a, ?_, ha⟩
    unfold follow
    rw [ok_bind (view_ok hst hp hl hn hb hg)]
    exact ok_bind htu
  | succ n ih =>
    obtain ⟨fuel, rfl⟩ := Nat.exists_eq_succ_of_ne_zero (Nat.ne_of_gt (Nat.zero_lt_of_lt hf))
    obtain ⟨p, cs, ls, hst, hp, hl, hn, hr, hcs, rfl⟩ := ht.branch
    have hv := view_ok hst hp hl hn hb hg
    unfold follow
    rcases h.branch _ _ _ _ ⟨hp.mono hg, by omega, hr, ⟨_, hcs⟩, hs⟩ hpr with
      ⟨a, htu, ha⟩ | ⟨i, next, l, htu, hi, hne, han⟩
    · refine ⟨a, ?_, ha⟩
      rw [ok_bind hv]
      exact ok_bind htu
    have hlt : i < cs.length := by
      rw [hcs.length_eq]
      exact (List.getElem?_eq_some_iff.mp hi).1
    obtain ⟨k, _, hk, hch, hc, hbo, hso⟩ := child_at hp hl hr hcs hb hs hlt
    obtain rfl : k = l := Option.some.inj (hk.symm.trans hi)
    obtain ⟨a, hru, ha⟩ := ih hc.below hbo hso (le_trans hp.bounded hg)
      (Nat.lt_of_succ_lt_succ hf) hne
    refine ⟨a, ?_, han a ha⟩
    rw [ok_bind hv]
    exact (ok_bind htu).trans ((ok_bind hch).trans hru)

theorem follow_root (htu : TurnsOK root turn Pre Answer) (h : RootTree B s root l)
    (hp : root.page = some r) (hpr : Pre start l) :
    ∃ a, follow B s root turn root.height r (Bounds.root root) start = .ok a ∧
    Answer start l a := by
  obtain ⟨_, hpo, _, ht⟩ := h.tree r hp
  exact follow_spec htu ht (bounds_root_ok h) h.sorted le_rfl (Nat.sub_lt hpo Nat.one_pos) hpr

end DirectoryRead
