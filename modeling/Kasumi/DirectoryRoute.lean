import Kasumi.DirectoryTree

/-! The search path. A descent through a well-formed tree meets no failing check and ends
at the one leaf whose key range holds the key; the path remembers where its entries sit. -/
namespace DirectoryRoute

open DirectoryPages DirectoryUpdate DirectoryTree SortedAssoc List

variable {D : Type} {B : DirectoryBackend D} {s : B.Store} {gid n g : ℕ} {r r' : DirectoryPageRef D}
  {frames : List (Frame D)} {before after : Entries}

theorem forall₂_split {r : List α} (h : List.Forall₂ R (l ++ a :: r) m) :
    ∃ ml b mr, m = ml ++ b :: mr ∧ List.Forall₂ R l ml ∧ R a b ∧ List.Forall₂ R r mr := by
  induction l generalizing m with
  | nil =>
    obtain ⟨b, mr, ha, hr, rfl⟩ := forall₂_cons_left_iff.mp h
    exact ⟨[], b, mr, rfl, .nil, ha, hr⟩
  | cons x l ih =>
    obtain ⟨y, m, hx, hre, rfl⟩ := forall₂_cons_left_iff.mp h
    obtain ⟨ml, b, mr, rfl, hl, ha, hr⟩ := ih hre
    exact ⟨y :: ml, b, mr, rfl, .cons hx hl, ha, hr⟩

theorem selectChild_from (key : DirectoryKey) (done : List (Record D))
    (r : Record D) (hs : rs.Pairwise fun a b => a.key < b.key) (hd : done ≠ [] → r.key ≤ key) :
    ∃ left q right, done ++ r :: rs = left ++ q :: right ∧
    selectChild key rs (done.length + 1) done.length = left.length ∧ (∀ x ∈ right, key < x.key) ∧
    (left ≠ [] → q.key ≤ key) := by
  induction rs generalizing done r with
  | nil => exact ⟨done, r, [], rfl, rfl, by simp, hd⟩
  | cons x rs ih =>
    obtain ⟨hx, hs⟩ := pairwise_cons.mp hs
    by_cases hk : x.key > key
    · refine ⟨done, r, x :: rs, rfl, by simp [selectChild, hk], ?_, hd⟩
      intro y hy
      rcases mem_cons.mp hy with rfl | hy
      · exact hk
      · exact lt_trans hk (hx y hy)
    obtain ⟨left, q, right, ha, hse, hr, hl⟩ :=
      ih (done ++ [r]) x hs fun _ => not_lt.mp hk
    refine ⟨left, q, right, by simpa using ha, ?_, hr, hl⟩
    rw [selectChild, if_neg hk]
    simpa using hse

theorem selectChild_spec (key : DirectoryKey) {rs : List (Record D)} (hn : rs ≠ [])
    (hs : rs.Pairwise fun a b => a.key < b.key) :
    ∃ left q right, rs = left ++ q :: right ∧ selectChild key rs 0 0 = left.length ∧
      (∀ x ∈ right, key < x.key) ∧ (left ≠ [] → q.key ≤ key) := by
  obtain ⟨r, rs, rfl⟩ := exists_cons_of_ne_nil hn
  obtain ⟨hr, hs⟩ := pairwise_cons.mp hs
  by_cases hk : r.key > key
  · exact ⟨[], r, rs, rfl, by simp [selectChild, hk], fun x hx => lt_trans hk (hr x hx),
      by simp⟩
  obtain ⟨left, q, right, ha, hse, h⟩ :=
    selectChild_from key [] r hs (by simp)
  exact ⟨left, q, right, ha, by rw [selectChild, if_neg hk]; exact hse, h⟩

section Children

variable {gid g : ℕ} {p : Page D} {left right cs : List (Carry D)} {c : Carry D}
  {ls rs lists : List Entries} {b : Bounds}

def childBounds (b : Bounds) (p : Page D) (c : Carry D) (right : List (Carry D)) : Bounds :=
  ⟨some c.key, (right.head?.map Carry.key).or b.upper, c.entries, p.level - 1, p.generation⟩

theorem bounds_child_ok (b : Bounds) (hp : PageOK gid g p)
    (hr : p.records = (left ++ c :: right).map Carry.record) :
    b.child p (infoOf p) left.length = .ok (c.page, childBounds b p c right) := by
  have hme : c.record ∈ p.records := by rw [hr]; simp
  have hc := (hp.records _ hme).2
  have he : nthEntry p (infoOf p) left.length = .ok c.record :=
    nthEntry_ok hp (by rw [hr]; simp)
  unfold Bounds.child
  simp only [he, bind, Except.bind]
  cases right with
  | nil =>
    rw [if_neg (by simp [hp.count, hr])]
    simp [pure, Except.pure, Carry.record, hc.2.1, childBounds]
  | cons d right =>
    have hm : left.length + 1 < (infoOf p).count := by simp [hp.count, hr]
    have hn : nthEntry p (infoOf p) (left.length + 1) = .ok d.record :=
      nthEntry_ok hp (by rw [hr]; simp)
    rw [if_pos hm, hn]
    simp [pure, Except.pure, Carry.record, hc.2.1, childBounds]

variable (right ls rs) in
theorem childBounds_ok (hb : BoundsOK b (n + 1) g (ls.flatten ++ l ++ rs.flatten))
    (hl : p.level = n + 1) (hc : CarryOK P c l) (hr : List.Forall₂ (CarryOK P) right rs)
    (hs : Sorted (ls.flatten ++ l ++ rs.flatten)) :
    BoundsOK (childBounds b p c right) n p.generation l := by
  refine ⟨by simp [childBounds, hl], hc.entries, rfl, ?_, ?_⟩
  · intro k hk
    exact hk ▸ hc.key
  intro k hk e he
  cases right with
  | nil =>
    refine hb.upper k (by simpa [childBounds] using hk) e ?_
    simp [he]
  | cons d right =>
    have hkd : d.key = k := by simpa [childBounds] using hk
    obtain ⟨f, hf, hfk⟩ := carry_key_mem hr (c := d) (by simp)
    rw [← hkd, ← hfk]
    exact (sorted_append.mp hs).2.2 e (by simp [he]) f hf

theorem child_at (hp : PageOK gid g p) (hl : p.level = n + 1) (hr : p.records = cs.map Carry.record)
    (hc : List.Forall₂ (CarryOK P) cs lists) (hb : BoundsOK b (n + 1) g lists.flatten)
    (hs : Sorted lists.flatten) {i : ℕ} (hi : i < cs.length) :
    ∃ l b', lists[i]? = some l ∧ b.child p (infoOf p) i = .ok (cs[i].page, b') ∧
      CarryOK P cs[i] l ∧ BoundsOK b' n p.generation l ∧ Sorted l := by
  have hsp : cs = cs.take i ++ cs[i] :: cs.drop (i + 1) := by simp
  have hle : (cs.take i).length = i := by rw [length_take]; omega
  rw [hsp] at hc hr
  obtain ⟨ls, l, rs, rfl, h1, h2, h3⟩ := forall₂_split hc
  have hf : (ls ++ l :: rs).flatten = ls.flatten ++ l ++ rs.flatten := by simp
  rw [hf] at hb hs
  have ha : (ls ++ l :: rs)[i]? = some l := by
    rw [← hle, h1.length_eq]
    simp
  have ho := bounds_child_ok b hp hr
  rw [hle] at ho
  exact ⟨l, _, ha, ho, h2, childBounds_ok _ _ _ hb hl h2 h3 hs,
    (sorted_append.mp (sorted_append.mp hs).1).2.1⟩

/-- The child a key selects: what is left of it lies below the key and the rest above. -/
theorem select_split (key : DirectoryKey) (hp : PageOK gid g p)
    (hr : p.records = cs.map Carry.record) (hc : List.Forall₂ (CarryOK P) cs lists)
    (hs : Sorted lists.flatten) : ∃ left c right ls m rs,
    cs = left ++ c :: right ∧ lists = ls ++ m :: rs ∧ selectChild key p.records 0 0 = left.length ∧
    List.Forall₂ (CarryOK P) left ls ∧ CarryOK P c m ∧ List.Forall₂ (CarryOK P) right rs ∧
    (∀ e ∈ ls.flatten, e.1 < key) ∧ ∀ e ∈ rs.flatten, key < e.1 := by
  obtain ⟨rl, rc, rr, hsp, hse, hri, hl⟩ := selectChild_spec key hp.nonempty hp.sorted
  obtain ⟨left, tail, rfl, hrl, ht⟩ := map_eq_append_iff.mp (hr.symm.trans hsp)
  obtain ⟨c, right, rfl, rfl, hrr⟩ := map_eq_cons_iff.mp ht
  obtain ⟨ls, m, rs, rfl, h1, h2, h3⟩ := forall₂_split hc
  have hf : (ls ++ m :: rs).flatten = ls.flatten ++ (m ++ rs.flatten) := by simp
  rw [hf] at hs
  refine ⟨left, c, right, ls, m, rs, rfl, rfl, ?_, h1, h2, h3, ?_, ?_⟩
  · rw [hse, ← hrl, length_map]
  · intro e he
    have hn : left ≠ [] := by
      rintro rfl
      cases h1
      simp at he
    have hck : c.key ≤ key := hl (by rw [← hrl]; simpa using hn)
    rw [← append_assoc] at hs
    exact lt_of_lt_of_le (h2.lt_key (sorted_append.mp hs).1 e he) hck
  intro e he
  cases h3 with
  | nil => simp at he
  | @cons d m' right' rs' hd hre =>
    have hk : key < d.key := hri d.record (by rw [← hrr]; simp)
    exact lt_of_lt_of_le hk
      (hd.key_le (sorted_append.mp (sorted_append.mp hs).2.1).2.1 e he)

end Children

/-- The recorded path from a reference to a leaf: `before` and `after` are the entries of
the tree on either side of the leaf's own. -/
def Route (B : DirectoryBackend D) (s : B.Store) (groupId : ℕ) :
    (level generation : ℕ) → DirectoryPageRef D → List (Frame D) → DirectoryPageRef D → Page D →
    (before leaf after : Entries) → Prop
  | 0, generation, r, frames, r', p, before, leaf, after => frames = [] ∧ r' = r ∧
      Stored B s r p ∧ PageOK groupId generation p ∧ p.level = 0 ∧
      p.records = leaf.map leafRecord ∧ before = [] ∧ after = []
  | n + 1, generation, r, frames, r', p, before, leaf, after =>
    ∃ q left c right ls l rs frames' before' after',
      Stored B s r q ∧ PageOK groupId generation q ∧ q.level = n + 1 ∧
      q.records = (left ++ c :: right).map Carry.record ∧
      List.Forall₂ (CarryOK (Subtree B s groupId n q.generation)) left ls ∧
      CarryOK (Subtree B s groupId n q.generation) c l ∧
      List.Forall₂ (CarryOK (Subtree B s groupId n q.generation)) right rs ∧
      frames = ⟨r, infoOf q, left.length⟩ :: frames' ∧
      Route B s groupId n q.generation c.page frames' r' p before' leaf after' ∧
      l = before' ++ leaf ++ after' ∧
      before = ls.flatten ++ before' ∧ after = after' ++ rs.flatten

theorem forall₂_mono_store (hs : Extends B s t)
    (h : List.Forall₂ (CarryOK (Subtree B s gid n g)) cs ls) :
    List.Forall₂ (CarryOK (Subtree B t gid n g)) cs ls :=
  h.imp fun _ _ h => h.imp fun _ _ h => h.mono_store hs

theorem Route.mono_store (hst : Extends B s t)
    (h : Route B s gid n g r frames r' p before leaf after) :
    Route B t gid n g r frames r' p before leaf after := by
  induction n generalizing g r frames before after with
  | zero =>
    obtain ⟨hf, hr, hs, h⟩ := h
    exact ⟨hf, hr, hs.mono hst, h⟩
  | succ n ih =>
    obtain ⟨q, left, c, right, ls, l, rs, frames', before', after', hq, hp, hl, hr, h1, h2, h3,
      hf, hro, h⟩ := h
    exact ⟨q, left, c, right, ls, l, rs, frames', before', after', hq.mono hst, hp, hl, hr,
      forall₂_mono_store hst h1, h2.imp fun _ _ h => h.mono_store hst,
      forall₂_mono_store hst h3, hf, ih hro, h⟩

theorem Route.leaf {leaf : Entries} (h : Route B s gid n g r frames r' p before leaf after) :
    Stored B s r' p ∧ PageOK gid g p ∧ p.level = 0 ∧ p.records = leaf.map leafRecord ∧
      frames.length = n := by
  induction n generalizing g r frames before after with
  | zero =>
    obtain ⟨hf, rfl, hs, hp, hl, hr, -⟩ := h
    exact ⟨hs, hp, hl, hr, by simp [hf]⟩
  | succ n ih =>
    obtain ⟨q, left, c, right, ls, l, rs, frames', before', after', hq, hp, hl, hr, h1, h2, h3,
      rfl, hro, h⟩ := h
    obtain ⟨hs, hpa, hle, hre, hlen⟩ := ih hro
    exact ⟨hs, hpa.mono hp.bounded, hle, hre, by simp [hlen]⟩

theorem descend_spec [DecidableEq D] (ht : Subtree B s root.groupId n g r l)
    (hb : BoundsOK b n g l) (hs : Sorted l) (hg : g ≤ root.generation) (hf : n < fuel) :
    Grows s (descend B root key fuel r b path) fun a t => ∃ frames before leaf after,
    a.2.2.1 = infoOf a.2.1 ∧ a.2.2.2 = path ++ frames ∧
    Route B t root.groupId n g r frames a.1 a.2.1 before leaf after ∧ l = before ++ leaf ++ after ∧
    (∀ e ∈ before, e.1 < key) ∧ (∀ e ∈ after, key < e.1) := by
  induction n generalizing g r l b path fuel s with
  | zero =>
    obtain ⟨fuel, rfl⟩ := Nat.exists_eq_succ_of_ne_zero (Nat.ne_of_gt hf)
    obtain ⟨p, hst, hp, hl, hn, hr⟩ := ht.leaf
    refine grows_bind (grows_load hst (hp.mono hg) (bounds_check_ok hb hp hl hn)) ?_
    rintro _ t hex ⟨rfl, -⟩
    dsimp only
    rw [if_pos (by simpa using hl)]
    exact grows_pure ⟨[], [], l, [], rfl, by simp,
      ⟨rfl, rfl, hst.mono hex, hp, hl, hr, rfl, rfl⟩, by simp, by simp, by simp⟩
  | succ n ih =>
    obtain ⟨fuel, rfl⟩ := Nat.exists_eq_succ_of_ne_zero (Nat.ne_of_gt (Nat.zero_lt_of_lt hf))
    obtain ⟨p, cs, lists, hst, hp, hl, hn, hr, hc, rfl⟩ := ht.branch
    obtain ⟨left, c, right, ls, m, rs, rfl, rfl, hse, h1, h2, h3, hbe, ha⟩ :=
      select_split key hp hr hc hs
    have hfl : (ls ++ m :: rs).flatten = ls.flatten ++ m ++ rs.flatten := by simp
    rw [hfl] at hb hs hn
    refine grows_bind (grows_load hst (hp.mono hg) (bounds_check_ok hb hp hl hn)) ?_
    rintro _ t hex ⟨rfl, -⟩
    dsimp only
    rw [if_neg (by simp [hl]), hse]
    refine grows_check_bind (bounds_child_ok b hp hr) ?_
    have hsm : Sorted m := (sorted_append.mp (sorted_append.mp hs).1).2.1
    refine grows_mono (ih (h2.below.mono_store hex) (childBounds_ok right ls rs hb hl h2 h3 hs) hsm
      (le_trans hp.bounded hg) (by omega)) ?_
    rintro ⟨r', p', info', path'⟩ u htu ⟨frames, before, leaf, after, hi, hpa, hro, hm, hb', ha'⟩
    have hsu := extends_trans hex htu
    refine ⟨⟨r, infoOf p, left.length⟩ :: frames, ls.flatten ++ before, leaf, after ++ rs.flatten,
      hi, by simpa using hpa, ?_, by simp [hm], ?_, ?_⟩
    · exact ⟨p, left, c, right, ls, m, rs, frames, before, after, hst.mono hsu, hp, hl, hr,
        forall₂_mono_store hsu h1, h2.imp fun _ _ h => h.mono_store hsu,
        forall₂_mono_store hsu h3, rfl, hro, hm, rfl, rfl⟩
    · intro e he
      rcases mem_append.mp he with he | he
      · exact hbe e he
      · exact hb' e he
    intro e he
    rcases mem_append.mp he with he | he
    · exact ha' e he
    · exact ha e he

end DirectoryRoute
