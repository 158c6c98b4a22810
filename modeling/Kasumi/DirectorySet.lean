import Kasumi.DirectoryRebuild

/-! One `set` call refines one update of the abstract map, from any well-formed root. -/
namespace DirectorySet

open DirectoryPages DirectoryUpdate DirectoryTree DirectoryRoute DirectorySplit List
open DirectoryRebuild SortedAssoc

variable {D : Type} {l : Entries}

theorem findEntry_eq (hs : Sorted l) (ho : ∀ e ∈ l, EntryOK g e) :
    findEntry key g (l.map leafRecord : List (Record D)) = .ok (toMap l key) := by
  induction l with
  | nil => rfl
  | cons e l ih =>
    obtain ⟨hl, hs⟩ := sorted_cons.mp hs
    have hv := (ho e (by simp)).2
    rw [map_cons, findEntry, toMap_cons, leafRecord_key]
    by_cases hk : e.1 = key
    · rw [if_pos hk, if_pos hk.symm]
      simp [leafRecord, hv, bind, Except.bind, pure, Except.pure]
    rw [if_neg hk, if_neg (Ne.symm hk)]
    by_cases hg : e.1 > key
    · rw [if_pos hg, toMap_eq_none fun a ha => ne_of_gt (lt_trans hg (hl a ha))]
      rfl
    · rw [if_neg hg]
      exact ih hs fun a ha => ho a (by simp [ha])

section Leaf

variable [DecidableEq D]

@[simp] theorem writeDue_none (key : DirectoryKey) (due : Bool) (w : Output D) :
    writeDue B key none due w = pure w := rfl

@[simp] theorem writeDue_false (key : DirectoryKey) (v : Option DirectoryValue) (w : Output D) :
    writeDue B key v false w = pure w := by
  cases v <;> rfl

@[simp] theorem writeDue_true (key : DirectoryKey) (v : DirectoryValue) (w : Output D) :
    writeDue B key (some v) true w = w.append B (leafRecord (key, v)) := rfl

theorem writeLeaf_inserted (v : Option DirectoryValue) {l : Entries} (h : ∀ e ∈ l, key < e.1)
    (w : Output D) :
    writeLeaf B key v (l.map leafRecord) true w = appendAll B w (l.map leafRecord) := by
  induction l generalizing w with
  | nil => simp [writeLeaf]
  | cons e l ih =>
    have hn : e.1 ≠ key := ne_of_gt (h e (by simp))
    have hr := ih fun a ha => h a (by simp [ha])
    simp [writeLeaf, hn, hr]

theorem writeLeaf_eq (hs : Sorted l) (w : Output D) : writeLeaf B key v (l.map leafRecord) false w =
      appendAll B w ((edit key v l).map leafRecord) := by
  induction l generalizing w with
  | nil => cases v <;> simp [writeLeaf, edit]
  | cons e l ih =>
    obtain ⟨hl, hs⟩ := sorted_cons.mp hs
    by_cases h1 : e.1 < key
    · -- the edit is still ahead
      have hle : ¬ key ≤ e.1 := not_le.mpr h1
      have hr := ih hs
      simp [writeLeaf, edit, h1, hle, ne_of_lt h1, hr]
    by_cases h2 : key < e.1
    · -- the edit lands before this entry
      have hr := writeLeaf_inserted (B := B) v (l := l)
        fun a ha => lt_trans h2 (hl a ha)
      cases v <;> simp [writeLeaf, edit, h1, h2, le_of_lt h2, ne_of_gt h2, hr]
    -- the edit replaces or removes this entry
    have he : e.1 = key := le_antisymm (not_lt.mp h2) (not_lt.mp h1)
    have hr := writeLeaf_inserted (B := B) v (l := l)
      fun a ha => he ▸ hl a ha
    cases v <;> simp [writeLeaf, edit, he, hr]

end Leaf

theorem payload_leaves (l : Entries) : payload (l.map leafRecord : List (Record D)) = (l.map fun e
    => e.1.encodedLen + leafValueBytes).sum := by
  simp only [payload, map_map]
  rfl

theorem payload_edit (hs : Sorted l) (key : DirectoryKey) (value : Option DirectoryValue) :
    payload ((edit key value l).map leafRecord : List (Record D)) =
      payload (l.map leafRecord : List (Record D)) -
        (if (toMap l key).isSome then key.encodedLen + leafValueBytes else 0) +
        (if value.isSome then key.encodedLen + leafValueBytes else 0) := by
  have h := sum_edit hs key value fun k => k.encodedLen + leafValueBytes
  rw [← payload_leaves (D := D), ← payload_leaves (D := D)] at h
  have hl : (if (toMap l key).isSome then key.encodedLen + leafValueBytes else 0) ≤
      payload (l.map leafRecord : List (Record D)) := by
    cases hf : toMap l key with
    | none => simp
    | some v =>
      obtain ⟨a, b, rfl⟩ := append_of_mem (toMap_mem hf)
      simp only [Option.isSome_some, if_true, map_append, map_cons, payload_append, payload_cons]
      have : (leafRecord (key, v) : Record D).len = key.encodedLen + leafValueBytes := rfl
      omega
  cases hf : toMap l key <;> cases value <;> simp [hf] at h hl ⊢ <;> omega

theorem count_edit (hs : Sorted l) (key : DirectoryKey) (value : Option DirectoryValue) :
    (edit key value l).length = l.length - (if (toMap l key).isSome then 1 else 0) +
      (if value.isSome then 1 else 0) := by
  have h := length_edit hs key value
  have hl : (if (toMap l key).isSome then 1 else 0) ≤ l.length := by
    cases hf : toMap l key with
    | none => simp
    | some v => exact length_pos_of_mem (toMap_mem hf)
  cases hf : toMap l key <;> cases value <;> simp [hf] at h hl ⊢ <;> omega

theorem nextEntries_eq (hs : Sorted l) (key : DirectoryKey) (value : Option DirectoryValue)
    (ht : l.length ≤ maxU64) : nextEntries l.length (toMap l key) value = .error overflow ∨
    (nextEntries l.length (toMap l key) value = .ok (edit key value l).length ∧
    (edit key value l).length ≤ maxU64) := by
  have h := length_edit hs key value
  unfold nextEntries
  cases hf : toMap l key with
  | none =>
    cases value with
    | none => right; simp [hf] at h; exact ⟨by rw [h]; rfl, by omega⟩
    | some v =>
      simp [hf] at h
      by_cases hfu : l.length + 1 > maxU64
      · rw [if_pos hfu]; exact .inl rfl
      · rw [if_neg hfu]
        exact .inr ⟨by rw [h]; rfl, by omega⟩
  | some u =>
    cases value with
    | none =>
      simp [hf] at h
      exact .inr ⟨by rw [← h]; rfl, by omega⟩
    | some v =>
      simp [hf] at h
      exact .inr ⟨by rw [h]; rfl, by omega⟩

structure ValidEdit (generation rootGeneration : ℕ) (key : DirectoryKey)
    (value : Option DirectoryValue) : Prop where
  positive : generation ≠ 0
  order : rootGeneration ≤ generation
  keyValid : key.Valid
  valueValid : ∀ v ∈ value, v.validate key generation = .ok ()

section Edit

variable [DecidableEq D]

theorem writeLeaf_spec (hB : AppendOnly B) (next : DirectoryRoot D) (leaf : Entries)
    (key : DirectoryKey) (v : Option DirectoryValue) (hs : Sorted leaf)
    (ho : ∀ e ∈ edit key v leaf, EntryOK next.generation e)
    (hg : next.generation ≠ 0) (hfi : payload (leaf.map leafRecord : List (Record D)) ≤ capacity)
    (hke : key.Valid) (ht : (edit key v leaf).length ≤ maxU64) :
    Grows s (writeLeaf B key v (leaf.map leafRecord) false
        (output next 0 (payload ((edit key v leaf).map leafRecord : List (Record D)))
          (edit key v leaf).length) >>= fun w => w.finish B) fun rep t =>
      ReplacementOK B t next.groupId 0 next.generation rep.children (edit key v leaf) := by
  have hsi : payload ((edit key v leaf).map leafRecord : List (Record D)) + maxRecord ≤
      2 * capacity := by
    rw [payload_edit hs]
    have hk := key_len_le hke
    have h3 := three_records_fit
    have hm : maxEncodedKey + leafValueBytes ≤ maxRecord := by decide
    split <;> split <;> omega
  have hw := write_spec (s := s) hB next 0 ((edit key v leaf).map leafRecord)
    (fun r hr => ?_) (fun r hr => ?_) (by rw [entriesOf_leaves]; exact ht) hsi
  · rw [writeLeaf_eq hs]
    rw [length_map] at hw
    refine grows_mono hw ?_
    rintro rep t _ ⟨hl, -, groups, hf, hp⟩
    exact ⟨hl, leaves_of_pages hp hf hg (edit_sorted hs key v) ho ht⟩
  · obtain ⟨e, -, rfl⟩ := mem_map.mp hr
    rfl
  · obtain ⟨e, he, rfl⟩ := mem_map.mp hr
    exact record_len_le (ho e he).1

theorem edit_entriesOK (hl : ∀ e ∈ l, EntryOK g e) (hk : key.Valid)
    (hv : ∀ v ∈ value, v.validate key g = .ok ()) : ∀ e ∈ edit key value l, EntryOK g e := by
  intro e he
  rcases mem_edit he with h | ⟨h1, h2⟩
  · exact hl e h
  · rw [EntryOK, h1]
    exact ⟨hk, hv e.2 h2⟩

theorem editAdmitted_spec (hB : AppendOnly B) {e : Edit D} {l : Entries}
    (h : WellFormed B s e.root l) (hv : ValidEdit e.generation e.root.generation e.key e.value) :
    Grows s (editAdmitted B e) fun root' t => WellFormed B t root' (edit e.key e.value l) ∧
      root'.generation = e.generation ∧ root'.groupId = e.root.groupId := by
  unfold editAdmitted
  cases hp : e.root.page with
  | none =>
    obtain ⟨hh, rfl⟩ := h.empty hp
    cases hva : e.value with
    | none => exact grows_pure ⟨h.raise hv.order hv.positive, rfl, rfl⟩
    | some v =>
      have ho : ∀ a ∈ edit e.key (some v) [], EntryOK e.generation a :=
        edit_entriesOK (by simp) hv.keyValid (by rw [← hva]; exact hv.valueValid)
      have hw := writeLeaf_spec (s := s) hB { e.root with generation := e.generation } []
        e.key (some v) List.Pairwise.nil ho hv.positive (by simp)
        hv.keyValid (by simp [edit]; decide)
      refine grows_bind_bind hw ?_
      intro rep t _ hrep
      refine finishPath_spec hB (l := edit e.key (some v) []) (grows_pure ?_) (by omega) rfl
        hv.positive (edit_sorted List.Pairwise.nil _ _) rfl (by simp [edit]; decide)
      rw [show max e.root.height 1 - 1 = 0 by omega]
      exact hrep
  | some r =>
    obtain ⟨-, h0, hm, htr⟩ := h.tree r hp
    refine grows_bind (descend_spec htr (bounds_root_ok h.toRootTree) h.sorted (le_refl _)
      (by omega)) ?_
    rintro ⟨r', page, info, path⟩ t hst ⟨frames, before, leaf, after, hi, hpat, hr, rfl,
      hb, haf⟩
    obtain rfl : info = infoOf page := hi
    obtain rfl : path = frames := hpat
    dsimp only at hr ⊢
    obtain ⟨-, hpa, hl, hre, -⟩ := hr.leaf
    have hsl : Sorted leaf := (sorted_append.mp (sorted_append.mp h.sorted).1).2.1
    have hokl : ∀ a ∈ leaf, EntryOK page.generation a := by
      intro a ha
      have := hpa.records (leafRecord a) (by rw [hre]; exact mem_map_of_mem ha)
      exact ⟨this.1, this.2.2⟩
    have hf : toMap (before ++ leaf ++ after) e.key = toMap leaf e.key :=
      toMap_append_middle hb haf
    have he : edit e.key e.value (before ++ leaf ++ after) =
        before ++ edit e.key e.value leaf ++ after := edit_append_middle hb haf
    rw [hre]
    refine grows_check_bind (findEntry_eq hsl (by simpa using hokl)) ?_
    by_cases hsa : toMap leaf e.key = e.value ∧ e.rewrite = false
    · rw [if_pos hsa, edit_same h.sorted (hf.trans hsa.1)]
      exact grows_pure ⟨(h.mono_store hst).raise hv.order hv.positive, rfl, rfl⟩
    rw [if_neg hsa]
    rw [← hf, h.entries]
    rcases nextEntries_eq h.sorted e.key e.value h.total with hov | ⟨hn, ht⟩
    · exact grows_check_error hov (Or.inr (Or.inl rfl))
    refine grows_check_bind hn ?_
    have hpl : (infoOf page).used - headerBytes =
        payload (leaf.map leafRecord : List (Record D)) := by
      rw [infoOf_used, hpa.used, Nat.add_sub_cancel_left, hre]
    have hc : (infoOf page).count = leaf.length := by
      rw [infoOf_count, hpa.count, hre, length_map]
    rw [hf, hpl, hc, ← payload_edit hsl, ← count_edit hsl]
    rw [he] at hn ht ⊢
    have htl : (edit e.key e.value leaf).length ≤ maxU64 := by
      simp only [length_append] at ht
      omega
    have hg : page.generation ≤ e.generation := le_trans hpa.bounded hv.order
    have ho := edit_entriesOK (fun a ha => (hokl a ha).mono hg) hv.keyValid hv.valueValid
    refine grows_bind_bind (writeLeaf_spec hB { e.root with
        generation := e.generation
        entries := (before ++ edit e.key e.value leaf ++ after).length } leaf e.key e.value
      hsl ho hv.positive
      (by rw [← hre]; exact hpa.fits) hv.keyValid htl) ?_
    intro rep u htu hrep
    have hs : Sorted (before ++ edit e.key e.value leaf ++ after) := by
      rw [← he]; exact edit_sorted h.sorted _ _
    refine finishPath_spec hB ?_ hm rfl hv.positive hs rfl ht
    rw [show max e.root.height 1 - 1 = e.root.height - 1 by omega]
    exact rebuild_route hB (hr.mono_store htu) (le_refl _) rfl hv.order hrep hs ht

end Edit

end DirectorySet
