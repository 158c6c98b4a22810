import Kasumi.DirectoryRoute
import Kasumi.DirectorySplit

/-! The way back up. A replacement for one leaf is carried through its ancestors, splitting
or shrinking them, until a new root is selected; entries outside the leaf are untouched. -/
namespace DirectoryRebuild

open DirectoryPages DirectoryUpdate DirectoryTree DirectoryRoute DirectorySplit List
open SortedAssoc

variable {D : Type} {g g' : ℕ} {B : DirectoryBackend D} {s : B.Store} {l : Entries}
  {root : DirectoryRoot D} {k : DirectoryKey}

def EntryOK (generation : ℕ) (e : DirectoryKey × DirectoryValue) : Prop :=
  e.1.Valid ∧ e.2.validate e.1 generation = .ok ()

theorem value_validate_mono {v : DirectoryValue} (h : v.validate k g = .ok ()) (hg : g ≤ g') :
    v.validate k g' = .ok () := by
  have key : ∀ seq : ℕ, (if seq = 0 ∨ seq > g then
      (throw (.corrupt "directory version exceeds its page") : Except CoreError Unit)
      else pure ()) = .ok () →
      (if seq = 0 ∨ seq > g' then
      (throw (.corrupt "directory version exceeds its page") : Except CoreError Unit)
      else pure ()) = .ok () := by
    intro seq hs
    by_cases hc : seq = 0 ∨ seq > g
    · rw [if_pos hc] at hs; cases hs
    · rw [if_neg (by omega)]; rfl
  unfold DirectoryValue.validate at *
  cases hk : k.row <;> cases v <;> simp only [hk, bind, Except.bind, pure, Except.pure] at *
  · exact key _ h
  · cases h
  · cases h
  next value =>
  cases hv : value.validate with
  | error e => rw [hv] at h; cases h
  | ok u => rw [hv] at h; exact key _ h

theorem EntryOK.mono (h : EntryOK g e) (hg : g ≤ g') :
    EntryOK g' e := ⟨h.1, value_validate_mono h.2 hg⟩

theorem Subtree.entriesOK (h : Subtree B s gid n g r l) : ∀ e ∈ l, EntryOK g e := by
  induction n generalizing g r l with
  | zero =>
    obtain ⟨p, -, hp, hl, hr⟩ := h
    intro e he
    have := hp.records (leafRecord e) (by rw [hr]; exact mem_map_of_mem he)
    exact EntryOK.mono ⟨this.1, this.2.2⟩ hp.bounded
  | succ n ih =>
    obtain ⟨p, cs, ls, -, hp, -, -, hc, rfl⟩ := h
    intro e he
    obtain ⟨m, hm, he⟩ := mem_flatten.mp he
    clear * - hc hm he ih hp
    induction hc with
    | nil => cases hm
    | cons ha _ ihc =>
      rcases mem_cons.mp hm with rfl | hm
      · exact (ih ha.below e he).mono hp.bounded
      · exact ihc hm

theorem key_len_le (h : k.Valid) : k.encodedLen ≤ maxEncodedKey := by
  obtain ⟨-, h1, h2⟩ := h
  unfold DirectoryKey.encodedLen maxEncodedKey
  omega

theorem record_len_le {r : Record D} (h : r.key.Valid) : r.len ≤ maxRecord := by
  have hk := key_len_le h
  have hb : leafValueBytes ≤ branchValueBytes := by decide
  unfold Record.len maxRecord
  cases r.value <;> simp only [RecordValue.len] <;> omega

theorem pageOK_image {rs : List (Record D)} (hg : g ≠ 0)
    (hl : level < maxHeight) (hn : rs ≠ []) (hf : payload rs ≤ capacity)
    (hs : rs.Pairwise fun a b => a.key < b.key) (hr : ∀ r ∈ rs, RecordOK level g r)
    (ht : entriesOf rs ≤ maxU64) : PageOK gid g (imageOf gid g level rs) :=
  ⟨rfl, hg, le_refl _, hl, hn, rfl, rfl, hf, hs, hr, rfl, ht⟩

def ReplacementOK (B : DirectoryBackend D) (s : B.Store) (groupId level generation : ℕ)
    (cs : List (Carry D)) (l : Entries) : Prop :=
  cs.length ≤ 2 ∧
    ∃ ls, List.Forall₂ (CarryOK (Subtree B s groupId level generation)) cs ls ∧ l = ls.flatten

section Carries

variable {B : DirectoryBackend D} {s : B.Store} {gid n g : ℕ} {cs : List (Carry D)}
  {ls : List Entries} {groups : List (List (Record D))}

theorem carry_recordOK (g' : ℕ)
    (h : CarryOK (Subtree B s gid n g) c l) : RecordOK (n + 1) g' c.record := by
  obtain ⟨p, hs, hp, -, hn⟩ := h.below.top
  obtain ⟨e, he, hk⟩ := Option.map_eq_some_iff.mp h.key
  refine ⟨?_, by simp, hs.valid, ?_⟩
  · have := (Subtree.entriesOK h.below e (mem_of_mem_head? he)).1
    rwa [hk] at this
  · rw [h.entries]
    simpa using h.below.nonempty

theorem carries_recordOK (g' : ℕ) (h : List.Forall₂ (CarryOK (Subtree B s gid n g)) cs ls) :
    ∀ r ∈ cs.map Carry.record, RecordOK (n + 1) g' r := by
  induction h with
  | nil => simp
  | cons hc _ ih => simpa using ⟨carry_recordOK g' hc, by simpa using ih⟩

theorem carries_sorted (h : List.Forall₂ (CarryOK P) cs ls) (hs : Sorted ls.flatten) :
    (cs.map Carry.record).Pairwise fun a b => a.key < b.key := by
  induction h with
  | nil => simp
  | @cons c l cs ls hc hre ih =>
    obtain ⟨-, hs2, hl⟩ := sorted_append.mp hs
    rw [map_cons, pairwise_cons]
    refine ⟨?_, ih hs2⟩
    intro r hr
    obtain ⟨d, hd, rfl⟩ := mem_map.mp hr
    obtain ⟨e, he, hek⟩ := Option.map_eq_some_iff.mp hc.key
    obtain ⟨f, hf, hfk⟩ := carry_key_mem hre hd
    change c.key < d.key
    rw [← hek, ← hfk]
    exact hl e (mem_of_mem_head? he) f hf

theorem head_ne_nil {l : List α} (h : l.head?.map f = some b) : l ≠ [] := by
  rintro rfl
  cases h

theorem leaves_of_pages (h : List.Forall₂ (CarryPage B s gid g 0) cs groups)
    (hf : groups.flatten = l.map leafRecord) (hg : g ≠ 0) (hs : Sorted l)
    (ho : ∀ e ∈ l, EntryOK g e) (ht : l.length ≤ maxU64) : ∃ ls,
    List.Forall₂ (CarryOK (Subtree B s gid 0 g)) cs ls ∧ l = ls.flatten := by
  induction h generalizing l with
  | nil =>
    have : l = [] := by simpa using hf.symm
    exact ⟨[], .nil, by simp [this]⟩
  | @cons c rs cs groups hc _ ih =>
    obtain ⟨l1, l2, rfl, hrs, hre⟩ := map_eq_append_iff.mp hf.symm
    obtain ⟨hs1, hs2, -⟩ := sorted_append.mp hs
    rw [length_append] at ht
    obtain ⟨ls, hl, rfl⟩ := ih hre.symm hs2 (fun e he => ho e (by simp [he])) (by omega)
    refine ⟨l1 :: ls, .cons ⟨?_, ?_, ?_⟩ hl, by simp⟩
    · refine ⟨_, hc.stored, pageOK_image hg (by decide) (head_ne_nil hc.key) hc.fits ?_ ?_ ?_, rfl,
        hrs.symm⟩
      · rw [← hrs, pairwise_map]
        exact hs1
      · rw [← hrs]
        intro r hr
        obtain ⟨e, he, rfl⟩ := mem_map.mp hr
        have := ho e (by simp [he])
        exact ⟨this.1, rfl, this.2⟩
      · rw [← hrs, entriesOf_leaves]; omega
    · rw [hc.entries, ← hrs, entriesOf_leaves]
    · rw [← hc.key, ← hrs]
      cases l1 <;> rfl

theorem branches_of_pages (h : List.Forall₂ (CarryPage B s gid g (n + 1)) cs groups)
    (hf : groups.flatten = ds.map Carry.record)
    (hd : List.Forall₂ (CarryOK (Subtree B s gid n g)) ds ls) (hg : g ≠ 0) (hn : n + 1 < maxHeight)
    (hs : Sorted ls.flatten) (ht : ls.flatten.length ≤ maxU64) : ∃ ms,
    List.Forall₂ (CarryOK (Subtree B s gid (n + 1) g)) cs ms ∧ ls.flatten = ms.flatten := by
  induction h generalizing ds ls with
  | nil =>
    have : ds = [] := by simpa using hf.symm
    subst this
    cases hd
    exact ⟨[], .nil, rfl⟩
  | @cons c rs cs groups hc _ ih =>
    obtain ⟨d1, d2, rfl, hr, hre⟩ := map_eq_append_iff.mp hf.symm
    obtain ⟨l1, l2, rfl, h1, h2⟩ : ∃ l1 l2, ls = l1 ++ l2 ∧
        List.Forall₂ (CarryOK (Subtree B s gid n g)) d1 l1 ∧
        List.Forall₂ (CarryOK (Subtree B s gid n g)) d2 l2 :=
      ⟨ls.take d1.length, ls.drop d1.length, (take_append_drop _ _).symm,
        by simpa using forall₂_take d1.length hd,
        by simpa using forall₂_drop d1.length hd⟩
    rw [flatten_append] at hs ht
    obtain ⟨hs1, hs2, -⟩ := sorted_append.mp hs
    rw [length_append] at ht
    obtain ⟨ms, hm, he⟩ := ih hre.symm h2 hs2 (by omega)
    refine ⟨l1.flatten :: ms, .cons ⟨?_, ?_, ?_⟩ hm, by simp [he]⟩
    · refine ⟨_, d1, l1, hc.stored, pageOK_image hg hn (head_ne_nil hc.key) hc.fits ?_ ?_ ?_, rfl,
        hr.symm, h1, rfl⟩
      · rw [← hr]; exact carries_sorted h1 hs1
      · rw [← hr]; exact carries_recordOK g h1
      · rw [← hr, entriesOf_carries h1]; omega
    · rw [hc.entries, ← hr, entriesOf_carries h1]
    · rw [← hc.key, ← hr, first_carry h1]

end Carries

section Writers

variable [DecidableEq D] {B : DirectoryBackend D} {s : B.Store}

theorem append_children (w : Output D) (cs : List (Carry D)) :
    cs.foldlM (fun w c => w.appendChild B c) w = appendAll B w (cs.map Carry.record) := by
  rw [appendAll, foldlM_map]
  rfl

theorem writeParent_after (pos : ℕ) (cs : List (Carry D)) (rs : List (Record D)) (index : ℕ)
    (w : Output D) (h : pos < index) : writeParent B pos cs rs index w = appendAll B w rs := by
  induction rs generalizing index w with
  | nil => rfl
  | cons r rs ih =>
    rw [writeParent, if_neg (by omega), appendAll_cons]
    exact bind_congr fun w => ih (index + 1) w (by omega)

theorem writeParent_eq (cs : List (Carry D)) (left : List (Record D)) (r : Record D)
    (right : List (Record D)) (index : ℕ) (w : Output D) :
    writeParent B (index + left.length) cs (left ++ r :: right) index w =
      appendAll B w (left ++ cs.map Carry.record ++ right) := by
  induction left generalizing index w with
  | nil =>
    rw [nil_append, nil_append, writeParent, if_pos (by simp), append_children,
      appendAll_append]
    exact bind_congr fun w => writeParent_after _ _ _ _ _ (by simp)
  | cons q left ih =>
    rw [cons_append, writeParent, if_neg (by simp), cons_append, cons_append,
      appendAll_cons]
    refine bind_congr fun w => ?_
    rw [← ih (index + 1) w, length_cons, Nat.add_assoc, Nat.add_comm 1]

omit [DecidableEq D] in
theorem payload_carries (cs : List (Carry D)) : payload (cs.map Carry.record) = (cs.map fun c =>
    c.key.encodedLen + branchValueBytes).sum := by
  simp only [payload, map_map]
  rfl

theorem write_branches (hB : AppendOnly B) (root : DirectoryRoot D) (n : ℕ) (cs : List (Carry D))
    (ls : List Entries)
    (hc : List.Forall₂ (CarryOK (Subtree B s root.groupId n root.generation)) cs ls)
    (hg : root.generation ≠ 0) (hn : n + 1 < maxHeight) (hs : Sorted ls.flatten)
    (ht : ls.flatten.length ≤ maxU64)
    (hsi : payload (cs.map Carry.record) + maxRecord ≤ 2 * capacity) :
    Grows s (appendAll B (output root (n + 1) (payload (cs.map Carry.record)) cs.length)
        (cs.map Carry.record) >>= fun w => w.finish B) fun rep t =>
      ReplacementOK B t root.groupId (n + 1) root.generation rep.children ls.flatten ∧
      (payload (cs.map Carry.record) ≤ capacity → rep.children.length ≤ 1) := by
  have hre := carries_recordOK root.generation hc
  have hw := write_spec (s := s) hB root (n + 1) (cs.map Carry.record)
    (fun r hr => ?_) (fun r hr => record_len_le (hre r hr).1)
    (by rw [entriesOf_carries hc]; exact ht) hsi
  · rw [length_map] at hw
    refine grows_mono hw ?_
    rintro rep t hst ⟨hl, ho, groups, hf, hp⟩
    refine ⟨⟨hl, ?_⟩, ho⟩
    exact branches_of_pages hp hf (forall₂_mono_store hst hc) hg hn hs ht
  · obtain ⟨c, -, rfl⟩ := mem_map.mp hr
    rfl

variable {root next : DirectoryRoot D} {n g : ℕ} {c : Carry D} {ls rs : List Entries} {l : Entries}
  {r : DirectoryPageRef D} {rep : Replacement D}

theorem rebuildParent_spec (hB : AppendOnly B) (hq : Stored B s r q) (hp : PageOK root.groupId g q)
    (hg : g ≤ root.generation) (hl : q.level = n + 1)
    (hr : q.records = (left ++ c :: right).map Carry.record)
    (hle : List.Forall₂ (CarryOK (Subtree B s root.groupId n q.generation)) left ls)
    (hri : List.Forall₂ (CarryOK (Subtree B s root.groupId n q.generation)) right rs)
    (hgr : next.groupId = root.groupId) (hn : root.generation ≤ next.generation)
    (hrep : ReplacementOK B s root.groupId n next.generation rep.children l)
    (hs : Sorted (ls.flatten ++ l ++ rs.flatten))
    (ht : (ls.flatten ++ l ++ rs.flatten).length ≤ maxU64) :
    Grows s (rebuildParent B root next rep ⟨r, infoOf q, left.length⟩) fun rep' t =>
      ReplacementOK B t root.groupId (n + 1) next.generation rep'.children
        (ls.flatten ++ l ++ rs.flatten) := by
  obtain ⟨htw, ms, hm, rfl⟩ := hrep
  have hge : q.generation ≤ next.generation := le_trans hp.bounded (le_trans hg hn)
  have hg0 : next.generation ≠ 0 := by have := hp.positive; omega
  have ha : List.Forall₂ (CarryOK (Subtree B s root.groupId n next.generation))
      (left ++ rep.children ++ right) (ls ++ ms ++ rs) := by
    refine rel_append (rel_append (hle.imp ?_) hm) (hri.imp ?_) <;>
    exact fun _ _ h => h.imp fun _ _ h => h.mono_generation hge
  have hf : ls.flatten ++ ms.flatten ++ rs.flatten = (ls ++ ms ++ rs).flatten := by simp
  rw [hf] at hs ht ⊢
  have hcv := (hp.records c.record (by rw [hr]; simp)).1
  have hpa : payload q.records = payload (left.map Carry.record) +
      (c.key.encodedLen + branchValueBytes) + payload (right.map Carry.record) := by
    rw [hr, map_append, map_cons, payload_append, payload_cons, Nat.add_assoc]
    rfl
  have hre : payload (rep.children.map Carry.record) ≤ 2 * maxRecord := by
    have hrec := carries_recordOK 0 hm
    match hcs : rep.children, htw with
    | [], _ => simp
    | [a], _ =>
      have := record_len_le (hrec a.record (by simp [hcs])).1
      simp; omega
    | [a, b], _ =>
      have h1 := record_len_le (hrec a.record (by simp [hcs])).1
      have h2 := record_len_le (hrec b.record (by simp [hcs])).1
      simp; omega
  have hsu : payload ((left ++ rep.children ++ right).map Carry.record) =
      payload (left.map Carry.record) + payload (rep.children.map Carry.record) +
        payload (right.map Carry.record) := by
    simp only [map_append, payload_append]
  have hth := three_records_fit
  have hfi : payload q.records ≤ capacity := hp.fits
  have hw := write_branches hB (s := s) next n (left ++ rep.children ++ right)
    (ls ++ ms ++ rs) (by rw [hgr]; exact ha) hg0
    (by have := hp.level; omega) hs ht (by omega)
  rw [hgr] at hw
  refine grows_bind (grows_lend hq) ?_
  rintro _ _ - ⟨rfl, rfl⟩
  refine grows_check_bind (validate_page_ok (hp.mono hg) hq.valid hq.digest) ?_
  rw [if_neg (by simp)]
  refine grows_check_bind (b := c.record) ?_ ?_
  · unfold nthEntry
    rw [if_neg (by simp [hp.count, hr])]
    simp [hr, pure, Except.pure]
  have hpl : (infoOf q).used - headerBytes - c.record.key.encodedLen - branchValueBytes +
      (rep.children.map fun c => c.key.encodedLen + branchValueBytes).sum =
      payload ((left ++ rep.children ++ right).map Carry.record) := by
    rw [hsu, ← payload_carries, infoOf_used, hp.used, hpa]
    simp only [Carry.record]
    omega
  have hc : (infoOf q).count - 1 + rep.children.length =
      (left ++ rep.children ++ right).length := by
    rw [infoOf_count, hp.count, hr]
    simp only [length_map, length_append, length_cons]
    omega
  have hpar (w : Output D) : writeParent B left.length rep.children
      ((left ++ c :: right).map Carry.record) 0 w =
      appendAll B w ((left ++ rep.children ++ right).map Carry.record) := by
    simpa using writeParent_eq (B := B) rep.children (left.map Carry.record) c.record
      (right.map Carry.record) 0 w
  dsimp only
  rw [hpl, hc, infoOf_level, hl, hr, hpar]
  exact grows_mono hw fun _ _ _ h => h.1

theorem rebuild_route (hB : AppendOnly B) {after : Entries}
    (hro : Route B s root.groupId n g r frames r' p before leaf after) (hg : g ≤ root.generation)
    (hgr : next.groupId = root.groupId) (hn : root.generation ≤ next.generation)
    (hrep : ReplacementOK B s root.groupId 0 next.generation rep.children leaf')
    (hs : Sorted (before ++ leaf' ++ after)) (ht : (before ++ leaf' ++ after).length ≤ maxU64) :
    Grows s (frames.reverse.foldlM (rebuildParent B root next) rep) fun rep' t =>
      ReplacementOK B t root.groupId n next.generation rep'.children (before ++ leaf' ++ after) := by
  rw [foldlM_reverse]
  induction n generalizing g r frames before after with
  | zero =>
    obtain ⟨rfl, -, -, -, -, -, rfl, rfl⟩ := hro
    rw [nil_append, append_nil]
    exact grows_pure hrep
  | succ n ih =>
    obtain ⟨q, left, c, right, ls, l, rs, frames', before', after', hq, hp, hl, hr, h1, h2, h3,
      rfl, hro, rfl, rfl, rfl⟩ := hro
    have hf : ls.flatten ++ before' ++ leaf' ++ (after' ++ rs.flatten) =
        ls.flatten ++ (before' ++ leaf' ++ after') ++ rs.flatten := by simp
    rw [hf] at hs ht ⊢
    have hsm := (sorted_append.mp (sorted_append.mp hs).1).2.1
    have hre := ih hro (le_trans hp.bounded hg) hsm (by
      simp only [length_append] at ht ⊢
      omega)
    rw [foldrM_cons]
    refine grows_bind hre ?_
    intro rep' t hst hrep'
    exact rebuildParent_spec hB (hq.mono hst) hp hg hl hr (forall₂_mono_store hst h1)
      (forall₂_mono_store hst h3) hgr hn hrep' hs ht

end Writers

structure RootTree (B : DirectoryBackend D) (s : B.Store) (root : DirectoryRoot D) (l : Entries) :
    Prop where
  sorted : Sorted l
  entries : root.entries = l.length
  total : l.length ≤ maxU64
  empty : root.page = none → root.height = 0 ∧ l = []
  tree : ∀ r, root.page = some r → root.generation ≠ 0 ∧ 0 < root.height ∧
    root.height ≤ maxHeight ∧ Subtree B s root.groupId (root.height - 1) root.generation r l

/-- A root as the directory publishes it: its tree is well formed, and no unary page
stands above a leaf at the top. -/
structure WellFormed (B : DirectoryBackend D) (s : B.Store) (root : DirectoryRoot D) (l : Entries) :
    Prop extends RootTree B s root l where
  branches : ∀ r p, root.page = some r → 1 < root.height → B.readPage s r = .ok p →
    2 ≤ p.records.length

section

variable (h : RootTree B s root l)

include h

theorem RootTree.validate : root.validate = .ok () := by
  unfold DirectoryRoot.validate
  cases hp : root.page with
  | none =>
    obtain ⟨hh, rfl⟩ := h.empty hp
    have := h.entries
    rw [if_neg (by simp_all)]
    rfl
  | some r =>
    obtain ⟨hg, h0, hm, ht⟩ := h.tree r hp
    obtain ⟨p, hs, -⟩ := ht.top
    have hn : l.length ≠ 0 := by simpa using ht.nonempty
    have he := h.entries
    rw [if_neg]
    · exact hs.valid
    simp only [Option.isSome_some, Option.isNone_some, and_true, true_and, Bool.false_eq_true,
      false_and, false_or]
    omega

theorem RootTree.keyValid (he : e ∈ l) : e.1.Valid := by
  cases hp : root.page with
  | none =>
    rw [(h.empty hp).2] at he
    cases he
  | some r => exact (Subtree.entriesOK (h.tree r hp).2.2.2 e he).1

theorem bounds_root_ok : BoundsOK (Bounds.root root) (root.height - 1) root.generation l :=
  ⟨rfl, h.entries, rfl, by simp [Bounds.root], by simp [Bounds.root]⟩

end

theorem WellFormed.mono_store (h : WellFormed B s root l) (hs : Extends B s t) :
    WellFormed B t root l := by
  refine ⟨⟨h.sorted, h.entries, h.total, h.empty, fun r hr => ?_⟩, fun r p hr h1 hp => ?_⟩
  · obtain ⟨h0, h1, h2, ht⟩ := h.tree r hr
    exact ⟨h0, h1, h2, ht.mono_store hs⟩
  obtain ⟨-, -, -, ht⟩ := h.tree r hr
  obtain ⟨q, hq, -⟩ := ht.top
  obtain rfl : p = q := Except.ok.inj (hp.symm.trans (hs r q hq.read))
  exact h.branches r p hr h1 hq.read

theorem WellFormed.raise (h : WellFormed B s root l) (hg : root.generation ≤ gen) (h0 : gen ≠ 0) :
    WellFormed B s { root with generation := gen } l := by
  refine ⟨⟨h.sorted, h.entries, h.total, h.empty, fun r hr => ?_⟩, h.branches⟩
  obtain ⟨-, h1, h2, ht⟩ := h.tree r hr
  exact ⟨h0, h1, h2, ht.mono_generation hg⟩

section Roots

variable [DecidableEq D] {B : DirectoryBackend D} {s : B.Store} {l : Entries}

variable {root next : DirectoryRoot D} {rep : Replacement D}

theorem collapse_spec (h : RootTree B s root l) (hh : root.height ≤ height) :
    Grows s (collapse B height root) fun root' t => WellFormed B t root' l ∧
      root'.generation = root.generation ∧ root'.groupId = root.groupId := by
  induction height generalizing root with
  | zero => exact grows_pure ⟨⟨h, by intro r p _ h1; omega⟩, rfl, rfl⟩
  | succ height ih =>
    unfold collapse
    by_cases h1 : root.height > 1
    · rw [if_pos h1]
      cases hp : root.page with
      | none => have := (h.empty hp).1; omega
      | some r =>
        obtain ⟨hg, h0, hm, ht⟩ := h.tree r hp
        obtain ⟨n, hn⟩ : ∃ n, root.height - 1 = n + 1 := ⟨root.height - 2, by omega⟩
        have hb := bounds_root_ok h
        rw [hn] at ht hb
        obtain ⟨p, cs, ls, hs, hpa, hl, hnod, hr, hcs, hf⟩ := ht.branch
        refine grows_bind (grows_load hs hpa (bounds_check_ok hb hpa hl hnod)) ?_
        rintro _ _ - ⟨rfl, rfl⟩
        dsimp only
        by_cases ho : (infoOf p).count ≠ 1
        · rw [if_pos ho]
          refine grows_pure ⟨⟨h, ?_⟩, rfl, rfl⟩
          intro r' p' hr' _ hre
          obtain rfl : r = r' := Option.some.inj (hp.symm.trans hr')
          obtain rfl : p = p' := Except.ok.inj (hs.read.symm.trans hre)
          have := hpa.nonempty
          rw [infoOf_count, hpa.count] at ho
          have hle : p.records.length ≠ 0 := by simpa using hpa.nonempty
          omega
        rw [if_neg ho]
        rw [infoOf_count, hpa.count, hr, length_map, not_not] at ho
        obtain ⟨c, rfl⟩ := length_eq_one_iff.mp ho
        obtain ⟨m, _, hc, hni, rfl⟩ := forall₂_cons_left_iff.mp hcs
        cases hni
        obtain rfl : l = m := by simpa using hf
        refine grows_check_bind (bounds_child_ok _ hpa
          (show p.records = ([] ++ c :: []).map Carry.record from hr)) ?_
        have hcb := childBounds_ok [] [] [] (l := l) (c := c)
          (by simpa using hb) hl hc .nil (by simpa using h.sorted)
        obtain ⟨p', hst', hpag, hl', hno⟩ := hc.below.top
        refine grows_bind (grows_load hst' (hpag.mono hpa.bounded)
          (bounds_check_ok hcb hpag hl' hno)) ?_
        rintro _ _ - ⟨rfl, rfl⟩
        refine ih ⟨h.sorted, h.entries, h.total, by simp, ?_⟩ (by simp only; omega)
        intro r' hr'
        obtain rfl : c.page = r' := Option.some.inj hr'
        refine ⟨hg, by simp only; omega, by simp only; omega, ?_⟩
        rw [show root.height - 1 - 1 = n by omega]
        exact hc.below.mono_generation hpa.bounded
    · rw [if_neg h1]
      exact grows_pure ⟨⟨h, by intro r p _ h1'; omega⟩, rfl, rfl⟩

omit [DecidableEq D] in
theorem rootTree_of_replacement {cs : List (Carry D)} {n : ℕ}
    (hre : ReplacementOK B s next.groupId n next.generation cs l) (ho : cs.length ≤ 1)
    (hn : n < maxHeight) (hg : next.generation ≠ 0) (hs : Sorted l) (he : next.entries = l.length)
    (ht : l.length ≤ maxU64) :
    RootTree B s { next with
      page := cs.head?.map Carry.page
      height := if (cs.head?.map Carry.page).isSome then n + 1 else 0 } l := by
  obtain ⟨-, ls, hl, rfl⟩ := hre
  refine ⟨hs, he, ht, ?_, ?_⟩
  · intro hp
    have hcs : cs = [] := by simpa using hp
    subst hcs
    cases hl
    exact ⟨rfl, rfl⟩
  intro r hp
  obtain ⟨c, hc, hcr⟩ := Option.map_eq_some_iff.mp hp
  obtain ⟨cs, rfl⟩ : ∃ tail, cs = c :: tail := by cases cs <;> simp_all
  have hni : cs = [] := by simpa using ho
  subst hni
  obtain ⟨m, _, hcm, hr, rfl⟩ := forall₂_cons_left_iff.mp hl
  cases hr
  refine ⟨hg, by simp, by simpa using Nat.succ_le_of_lt hn, ?_⟩
  rw [← hcr]
  simpa using hcm.below

theorem raiseRoot_spec (hB : AppendOnly B) (hh : root.height ≤ maxHeight) (hg : next.generation ≠ 0)
    (hre : ReplacementOK B s next.groupId (max root.height 1 - 1) next.generation rep.children l)
    (hs : Sorted l) (he : next.entries = l.length) (ht : l.length ≤ maxU64) :
    Grows s (raiseRoot B root next rep) fun root' t => RootTree B t root' l ∧
      root'.generation = next.generation ∧ root'.groupId = next.groupId := by
  have hp : 1 ≤ max root.height 1 := le_max_right _ _
  have hm : max root.height 1 ≤ maxHeight := max_le hh (by decide)
  have hl : max root.height 1 - 1 + 1 = max root.height 1 := by omega
  unfold raiseRoot
  by_cases hsp : 2 ≤ rep.children.length
  · rw [if_pos hsp]
    by_cases hf : max root.height 1 = maxHeight
    · rw [if_pos hf]
      exact grows_bind (P := fun _ _ => False) (grows_throw (Or.inl rfl)) (by intros; contradiction)
    rw [if_neg hf]
    obtain ⟨htw, ls, hls, rfl⟩ := hre
    have hc : rep.children.length = 2 := by omega
    have hr := carries_recordOK 0 hls
    have hsm : payload (rep.children.map Carry.record) ≤ 2 * maxRecord := by
      obtain ⟨a, b, ha⟩ := length_eq_two.mp hc
      rw [ha] at hr ⊢
      have h1 := record_len_le (hr a.record (by simp)).1
      have h2 := record_len_le (hr b.record (by simp)).1
      simp only [map_cons, map_nil, payload_cons, payload_nil]
      omega
    have hth := three_records_fit
    have hw := write_branches hB _ _ _ _ hls hg (by omega) hs ht (by omega)
    rw [payload_carries] at hsm
    rw [hc, payload_carries, hl, ← append_children] at hw
    rw [← bind_assoc]
    refine grows_bind hw ?_
    rintro rep' t _ ⟨hrep', ho⟩
    exact grows_pure ⟨rootTree_of_replacement hrep' (ho (by omega)) (by omega) hg hs he ht,
      rfl, rfl⟩
  rw [if_neg hsp, pure_bind]
  have htr := rootTree_of_replacement hre (by omega) (by omega) hg hs he ht
  rw [hl] at htr
  exact grows_pure ⟨htr, rfl, rfl⟩

omit [DecidableEq D] in
theorem sumEntries_ok (h : List.Forall₂ (CarryOK P) cs ls) (sum : ℕ)
    (ht : sum + ls.flatten.length ≤ maxU64) :
    sumEntries cs sum = .ok (sum + ls.flatten.length) := by
  induction h generalizing sum with
  | nil => rfl
  | cons hc _ ih =>
    rw [flatten_cons, length_append] at ht ⊢
    rw [sumEntries, hc.entries, if_neg (by omega), ih _ (by omega), Nat.add_assoc]

/-- `finish_path` selects a well-formed root over the entries its ascent carries up. -/
theorem finishPath_spec (hB : AppendOnly B)
    (hu : Grows s (path.reverse.foldlM (rebuildParent B root next) rep) fun rep' t =>
      ReplacementOK B t root.groupId (max root.height 1 - 1) next.generation rep'.children l)
    (hh : root.height ≤ maxHeight) (hgrou : next.groupId = root.groupId) (hg : next.generation ≠ 0)
    (hs : Sorted l) (he : next.entries = l.length) (ht : l.length ≤ maxU64) :
    Grows s (finishPath B root next path rep) fun root' t => WellFormed B t root' l ∧
      root'.generation = next.generation ∧ root'.groupId = next.groupId := by
  refine grows_bind hu ?_
  intro rep' t _ hr
  have hsu : rep'.entries = .ok l.length := by
    obtain ⟨-, ls, hl, rfl⟩ := hr
    have := sumEntries_ok hl 0 (by omega)
    rwa [Nat.zero_add] at this
  refine grows_check_bind hsu ?_
  rw [if_neg (by simp [he])]
  refine grows_bind (raiseRoot_spec hB hh hg (by rw [hgrou]; exact hr) hs he ht) ?_
  rintro root1 t1 _ ⟨htr, hge, hgr⟩
  refine grows_bind (collapse_spec htr (le_refl _)) ?_
  rintro root2 t2 _ ⟨hw, hgen, hgro⟩
  refine grows_check_bind hw.validate ?_
  exact grows_pure ⟨hw, hgen.trans hge, hgro.trans hgr⟩

end Roots

end DirectoryRebuild
