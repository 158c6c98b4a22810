import Kasumi.DirectoryRead
import Kasumi.DirectoryRun

/-! Rank, select and point reads over a directory root. Select goes down by the counts of
children, rank and `get` by keys; all are those of the sorted entries, so a position and its key
name each other. -/
namespace DirectoryOrdinal

open DirectoryPages DirectoryUpdate DirectoryTree DirectoryRebuild DirectoryRun DirectoryRead
  FallibleSteps SortedAssoc List

variable {D : Type} {B : DirectoryBackend D} {s : B.Store} {root : DirectoryRoot D}

section Reads

/-- The child that holds a position, with the position among the entries below it. -/
def selectOrdinal : List (Record D) → (index ordinal : ℕ) → Option (ℕ × ℕ)
  | [], _, _ => none
  | r :: rs, index, ordinal =>
    if ordinal < r.entries then some (index, ordinal)
    else selectOrdinal rs (index + 1) (ordinal - r.entries)

def ordinalTurn (ordinal : ℕ) (page : Page D) (info : PageInfo) :
    Except CoreError (Turn ℕ (DirectoryKey × DirectoryValue)) :=
  if info.level = 0 then do
    let entry ← nthEntry page info ordinal
    let found ← leafEntry entry info.generation
    pure (.answer found)
  else match selectOrdinal page.records 0 ordinal with
    | some (index, ordinal) => pure (.child index ordinal)
    | none => throw (.corrupt "directory ordinal exceeds authenticated child counts")

/-- The entry loop of `ordinal_after`: a child is counted once its next sibling is reached. -/
def countThrough (level : ℕ) (key : DirectoryKey) : List (Record D) → (index ordinal : ℕ) →
    (selected : Option (ℕ × ℕ)) → Except CoreError (ℕ × Option (ℕ × ℕ))
  | [], _, ordinal, selected => pure (ordinal, selected)
  | r :: rs, index, ordinal, selected =>
    if r.key > key then pure (ordinal, selected)
    else
      let passed := if level = 0 then 1 else (selected.map Prod.snd).getD 0
      if ordinal + passed > maxU64 then throw (.corrupt "directory ordinal overflows")
      else countThrough level key rs (index + 1) (ordinal + passed)
        (if level = 0 then selected else some (index, r.entries))

def rankTurn (key : DirectoryKey) (ordinal : ℕ) (page : Page D) (info : PageInfo) :
    Except CoreError (Turn ℕ ℕ) := do
  let (ordinal, selected) ← countThrough info.level key page.records 0 ordinal none
  match selected with
  | some (index, _) => pure (.child index ordinal)
  | none => pure (.answer ordinal)

/-- How `get_in` leaves a page once its entry loop is over. -/
def descent (level : ℕ) : Option ℕ → Turn Unit (Option DirectoryValue)
  | some index => if level = 0 then .answer none else .child index ()
  | none => .answer none

/-- The entry loop of `get_in`: a leaf answers at an equal key, a branch keeps its last child
up to the key. -/
def findKey (key : DirectoryKey) (level generation : ℕ) : List (Record D) → (index : ℕ) →
    (selected : Option ℕ) → Except CoreError (Turn Unit (Option DirectoryValue))
  | [], _, selected => pure (descent level selected)
  | r :: rs, index, selected =>
    if r.key > key then pure (descent level selected)
    else if r.key = key ∧ level = 0 then do
      let entry ← leafEntry r generation
      pure (.answer (some entry.2))
    else findKey key level generation rs (index + 1) (some index)

def keyTurn (key : DirectoryKey) (_ : Unit) (page : Page D) (info : PageInfo) :
    Except CoreError (Turn Unit (Option DirectoryValue)) :=
  findKey key info.level info.generation page.records 0 none

variable [DecidableEq D] (B : DirectoryBackend D) (s : B.Store) (root : DirectoryRoot D)

def atOrdinal (ordinal : ℕ) : Except CoreError (Option (DirectoryKey × DirectoryValue)) := do
  root.validate
  if ordinal ≥ root.entries then pure none
  else match root.page with
    | some page => do
      let found ← follow B s root ordinalTurn root.height page (Bounds.root root) ordinal
      pure (some found)
    | none => throw .panicked

def ordinalAfter (key : DirectoryKey) : Except CoreError ℕ := do
  root.validate
  key.validate
  match root.page with
  | some page => follow B s root (rankTurn key) root.height page (Bounds.root root) 0
  | none => pure 0

def get (key : DirectoryKey) : Except CoreError (Option DirectoryValue) := do
  root.validate
  key.validate
  match root.page with
  | some page => follow B s root (keyTurn key) root.height page (Bounds.root root) ()
  | none => pure none

end Reads

/-- How many entries have a key up to `key`. -/
def rank (key : DirectoryKey) (l : Entries) : ℕ := l.countP fun e => e.1 ≤ key

theorem rank_append (key : DirectoryKey) (l m : Entries) :
    rank key (l ++ m) = rank key l + rank key m := countP_append

theorem rank_all (h : ∀ e ∈ l, e.1 ≤ key) :
    rank key l = l.length := countP_eq_length.mpr fun e he => decide_eq_true (h e he)

theorem rank_none (h : ∀ e ∈ l, key < e.1) : rank key l = 0 :=
  countP_eq_zero.mpr fun e he => by simpa using h e he

theorem rank_getElem (hs : Sorted l) (hi : i < l.length) : rank l[i].1 l = i + 1 := by
  have hsp : l.take i ++ l[i] :: l.drop (i + 1) = l := by simp
  have hl : (l.take i).length = i := by rw [length_take]; omega
  rw [← hsp, sorted_append, sorted_cons] at hs
  obtain ⟨_, ⟨ha, _⟩, hb⟩ := hs
  have ho : rank l[i].1 [l[i]] = 1 := rank_all (by simp)
  calc rank l[i].1 l = rank l[i].1 (l.take i ++ ([l[i]] ++ l.drop (i + 1))) := by
        rw [singleton_append, hsp]
    _ = i + 1 := by
        rw [rank_append, rank_append, ho, rank_none ha,
          rank_all fun e he => le_of_lt (hb e he _ mem_cons_self), hl]

theorem selectOrdinal_spec (h : List.Forall₂ (CarryOK P) cs ls) (index : ℕ)
    (ho : ordinal < ls.flatten.length) :
    ∃ i l o, selectOrdinal (cs.map Carry.record) index ordinal = some (index + i, o) ∧
      ls[i]? = some l ∧ o < l.length ∧ l[o]? = ls.flatten[ordinal]? := by
  induction h generalizing index ordinal with
  | nil => cases ho
  | @cons c l cs ls hc _ ih =>
    rw [flatten_cons, length_append] at ho
    rw [map_cons, selectOrdinal, flatten_cons]
    have he : c.record.entries = l.length := hc.entries
    rw [he]
    by_cases hl : ordinal < l.length
    · rw [if_pos hl, getElem?_append_left hl]
      exact ⟨0, l, ordinal, rfl, rfl, hl, rfl⟩
    rw [if_neg hl, getElem?_append_right (not_lt.mp hl)]
    have hr : ordinal - l.length < ls.flatten.length := by omega
    obtain ⟨i, m, o, hs, hm, hle, ho⟩ := ih (index + 1) hr
    refine ⟨i + 1, m, o, ?_, hm, hle, ho⟩
    rw [hs, Nat.add_assoc, Nat.add_comm 1]

theorem countThrough_leaf (hs : Sorted l) (index ordinal : ℕ) (selected : Option (ℕ × ℕ))
    (ht : ordinal + l.length ≤ maxU64) :
    countThrough 0 key (l.map leafRecord : List (Record D)) index ordinal selected =
      .ok (ordinal + rank key l, selected) := by
  induction l generalizing index ordinal with
  | nil => rfl
  | cons e l ih =>
    obtain ⟨hl, hs⟩ := sorted_cons.mp hs
    rw [length_cons] at ht
    rw [map_cons, countThrough, leafRecord_key]
    by_cases hk : e.1 > key
    · have hn : rank key (e :: l) = 0 := by
        apply rank_none
        intro a ha
        rcases mem_cons.mp ha with rfl | ha
        · exact hk
        · exact lt_trans hk (hl a ha)
      rw [if_pos hk, hn]
      rfl
    have ho : rank key (e :: l) = 1 + rank key l := by
      rw [← singleton_append, rank_append, rank_all (by simpa using not_lt.mp hk)]
      rfl
    rw [if_neg hk]
    rw [if_pos rfl, if_pos rfl, if_neg (by omega), ih hs _ _ (by omega), ho, Nat.add_assoc]

/-- From a child with a key up to `key`, the entry loop stops at the last such child. -/
theorem countThrough_passed (h : List.Forall₂ (CarryOK P) cs ls)
    (hs : Sorted (m ++ ls.flatten)) (index ordinal : ℕ)
    (ht : ordinal + (m ++ ls.flatten).length ≤ maxU64) (hl : level ≠ 0) :
    ∃ i l n, countThrough level key (cs.map Carry.record) (index + 1) ordinal
        (some (index, m.length)) = .ok (n, some (index + i, l.length)) ∧
      (m :: ls)[i]? = some l ∧ n + rank key l = ordinal + rank key (m ++ ls.flatten) ∧
      n + l.length ≤ maxU64 := by
  induction h generalizing m index ordinal with
  | nil => exact ⟨0, m, ordinal, rfl, rfl, by simp, by simpa using ht⟩
  | @cons c l cs ls hc _ ih =>
    rw [flatten_cons] at hs ht ⊢
    rw [map_cons, countThrough]
    by_cases hk : c.key > key
    · have hno : rank key (l ++ ls.flatten) = 0 :=
        rank_none fun e he => lt_of_lt_of_le hk (hc.key_le (sorted_append.mp hs).2.1 e he)
      rw [if_pos (show c.record.key > key from hk), rank_append, hno]
      exact ⟨0, m, ordinal, rfl, rfl, rfl, by rw [length_append] at ht; omega⟩
    have ha : rank key m = m.length := by
      apply rank_all
      intro e he
      rw [← append_assoc] at hs
      exact le_of_lt (lt_of_lt_of_le (hc.lt_key (sorted_append.mp hs).1 e he) (not_lt.mp hk))
    rw [length_append] at ht
    obtain ⟨i, k, n, hr, hat, hn, hm⟩ :=
      ih (sorted_append.mp hs).2.1 (index + 1) (ordinal + m.length) (by omega)
    refine ⟨i + 1, k, n, ?_, hat, by rw [rank_append, ha]; omega, hm⟩
    have hen : c.record.entries = l.length := hc.entries
    rw [if_neg (show ¬c.record.key > key from hk), if_neg hl, if_neg hl, hen]
    dsimp only [Option.map_some, Option.getD_some]
    rw [if_neg (by omega), hr, Nat.add_assoc, Nat.add_comm 1]

theorem ordinalTurn_ok : TurnsOK root ordinalTurn (fun i l => i < l.length)
    (fun i l a => l[i]? = some a) := by
  refine ⟨fun i p l hp hi => ?_, fun i p cs ls hp hi => ?_⟩
  · have he : nthEntry p (infoOf p) i = .ok (leafRecord l[i]) :=
      nthEntry_ok hp.page (by rw [hp.records]; simp [hi])
    refine ⟨l[i], ?_, getElem?_eq_getElem hi⟩
    unfold ordinalTurn
    rw [infoOf_level, if_pos hp.level, ok_bind he, ok_bind (leafEntry_ok hp (getElem_mem hi))]
    rfl
  obtain ⟨P, hc⟩ := hp.below
  obtain ⟨j, l, o, hs, hl, ho, heq⟩ := selectOrdinal_spec hc 0 hi
  refine .inr ⟨j, o, l, ?_, hl, ho, fun a ha => heq.symm.trans ha⟩
  unfold ordinalTurn
  rw [infoOf_level, if_neg hp.level, hp.records, hs, Nat.zero_add]
  rfl

theorem rankTurn_ok : TurnsOK root (rankTurn key) (fun o l => o + l.length ≤ maxU64)
    (fun o l a => a = o + rank key l) := by
  refine ⟨fun o p l hp ho => ⟨_, ?_, rfl⟩, fun o p cs ls hp ho => ?_⟩
  · unfold rankTurn
    rw [infoOf_level, hp.level, hp.records, ok_bind (countThrough_leaf hp.sorted 0 o none ho)]
    rfl
  obtain ⟨P, hcs⟩ := hp.below
  have hs := hp.sorted
  unfold rankTurn
  rw [infoOf_level, hp.records]
  cases hcs with
  | nil => exact absurd hp.records hp.page.nonempty
  | @cons c l cs ls hc hr =>
    rw [flatten_cons] at hs ho ⊢
    rw [map_cons, countThrough]
    by_cases hk : c.key > key
    · -- every entry is above the key: the first separator already is
      have hno := rank_none fun e he => lt_of_lt_of_le hk (hc.key_le hs e he)
      rw [if_pos (show c.record.key > key from hk), hno]
      exact .inl ⟨o, rfl, rfl⟩
    obtain ⟨i, k, n, hco, hat, hn, hm⟩ :=
      countThrough_passed hr hs 0 o ho hp.level
    have hen : c.record.entries = l.length := hc.entries
    rw [if_neg (show ¬c.record.key > key from hk), if_neg hp.level, if_neg hp.level, hen]
    dsimp only [Option.map_none, Option.getD_none]
    rw [if_neg (by omega)]
    refine .inr ⟨i, n, k, ?_, hat, hm, fun a ha => ha.trans hn⟩
    rw [Nat.zero_add i] at hco
    exact ok_bind hco

theorem findKey_leaf (hs : Sorted l)
    (hd : ∀ e ∈ l, leafEntry (leafRecord e : Record D) generation = .ok e) (index : ℕ)
    (selected : Option ℕ) :
    findKey key 0 generation (l.map leafRecord : List (Record D)) index selected =
      .ok (.answer (toMap l key)) := by
  have hn : descent 0 selected = .answer none := by cases selected <;> rfl
  induction l generalizing index selected with
  | nil => exact congrArg _ hn
  | cons e l ih =>
    obtain ⟨hl, hs⟩ := sorted_cons.mp hs
    obtain ⟨he, hd⟩ := forall_mem_cons.mp hd
    rw [map_cons, findKey, leafRecord_key, toMap_cons]
    by_cases hk : e.1 > key
    · rw [if_pos hk, hn, if_neg (ne_of_lt hk),
        toMap_eq_none fun a ha => ne_of_gt (lt_trans hk (hl a ha))]
      rfl
    rw [if_neg hk]
    by_cases heq : e.1 = key
    · rw [if_pos ⟨heq, rfl⟩, ok_bind he, if_pos heq.symm]
      rfl
    rw [if_neg fun h => heq h.1, if_neg (Ne.symm heq)]
    exact ih hs hd _ _ rfl

/-- On a branch, a read whose key is not below the first child goes where `set` would. -/
theorem findKey_branch (hl : level ≠ 0) (rs : List (Record D)) (index selected : ℕ) :
    findKey key level generation rs index (some selected) =
      .ok (.child (selectChild key rs index selected) ()) := by
  induction rs generalizing index selected with
  | nil => exact congrArg _ (if_neg hl)
  | cons r rs ih =>
    rw [findKey, selectChild]
    by_cases hk : r.key > key
    · rw [if_pos hk, if_pos hk]
      exact congrArg _ (if_neg hl)
    rw [if_neg hk, if_neg hk, if_neg fun h => hl h.2]
    exact ih _ _

theorem keyTurn_ok : TurnsOK root (keyTurn key) (fun _ _ => True)
    (fun _ l a => a = toMap l key) := by
  refine ⟨fun _ p l hp _ => ⟨_, ?_, rfl⟩, fun _ p cs lists hp _ => ?_⟩
  · unfold keyTurn
    rw [infoOf_level, hp.level, hp.records]
    exact findKey_leaf hp.sorted (fun _ he => leafEntry_ok hp he) 0 none
  obtain ⟨P, hc⟩ := hp.below
  obtain ⟨left, c, right, ls, m, rs, rfl, rfl, hse, hle, hm, -, hlo, hhi⟩ :=
    DirectoryRoute.select_split key hp.page hp.records hc hp.sorted
  obtain ⟨r, rest, hr⟩ := exists_cons_of_ne_nil hp.page.nonempty
  have hre := hp.records
  rw [hr] at hse hre
  rw [selectChild] at hse
  unfold keyTurn
  rw [infoOf_level, hr, findKey]
  by_cases hk : r.key > key
  · -- the first separator, and with it every entry, is above the key
    rw [if_pos hk] at hse ⊢
    obtain rfl := length_eq_zero_iff.mp hse.symm
    obtain rfl : r = c.record := (cons.inj hre).1
    cases hle
    have hs : Sorted (m ++ rs.flatten) := hp.sorted
    exact .inl ⟨none, rfl, (toMap_eq_none fun e he =>
      ne_of_gt (lt_of_lt_of_le hk (hm.key_le hs e he))).symm⟩
  have hf : (ls ++ m :: rs).flatten = ls.flatten ++ m ++ rs.flatten := by simp
  rw [if_neg hk] at hse
  rw [if_neg hk, if_neg fun h => hp.level h.2, findKey_branch hp.level, hse]
  refine .inr ⟨left.length, (), m, rfl, by simp [hle.length_eq], trivial, fun a ha => ?_⟩
  rw [ha, hf, toMap_append_middle hlo hhi]

variable [DecidableEq D]

theorem atOrdinal_eq (h : RootTree B s root l) (i : ℕ) : atOrdinal B s root i = .ok l[i]? := by
  unfold atOrdinal
  rw [ok_bind h.validate, h.entries]
  by_cases hi : i ≥ l.length
  · rw [if_pos hi, getElem?_eq_none hi]
    rfl
  rw [if_neg hi]
  cases hp : root.page with
  | none =>
    obtain rfl := (h.empty hp).2
    exact absurd (Nat.zero_le i) hi
  | some r =>
    obtain ⟨a, hr, ha⟩ := follow_root ordinalTurn_ok h hp (not_le.mp hi)
    rw [ha]
    exact ok_bind hr

theorem ordinalAfter_eq (h : RootTree B s root l) (hk : key.Valid) :
    ordinalAfter B s root key = .ok (rank key l) := by
  unfold ordinalAfter
  rw [ok_bind h.validate, ok_bind (show key.validate = .ok () from if_pos hk)]
  cases hp : root.page with
  | none =>
    rw [(h.empty hp).2]
    rfl
  | some r =>
    obtain ⟨a, hr, ha⟩ := follow_root rankTurn_ok h hp (show 0 + l.length ≤ maxU64 by
      simpa using h.total)
    rw [ha, Nat.zero_add] at hr
    exact hr

theorem get_eq (h : RootTree B s root l) (hk : key.Valid) :
    get B s root key = .ok (toMap l key) := by
  unfold get
  rw [ok_bind h.validate, ok_bind (show key.validate = .ok () from if_pos hk)]
  cases hp : root.page with
  | none =>
    rw [(h.empty hp).2]
    rfl
  | some r =>
    obtain ⟨a, hr, ha⟩ := follow_root keyTurn_ok h hp trivial
    exact hr.trans (congrArg _ ha)

/-- Rank and select are those of the sorted entries, and a selected entry ranks just above its
position. -/
theorem ordinals_follow_entries {l : Entries} (h : RootTree B s root l) :
    (∀ i, atOrdinal B s root i = .ok l[i]?) ∧
      (∀ key : DirectoryKey, key.Valid → ordinalAfter B s root key = .ok (rank key l)) ∧
      ∀ i e, atOrdinal B s root i = .ok (some e) → ordinalAfter B s root e.1 = .ok (i + 1) := by
  refine ⟨atOrdinal_eq h, fun key => ordinalAfter_eq h, fun i e he => ?_⟩
  rw [atOrdinal_eq h] at he
  obtain ⟨hi, rfl⟩ := List.getElem?_eq_some_iff.mp (Except.ok.inj he)
  rw [ordinalAfter_eq h (h.keyValid (getElem_mem hi)), rank_getElem h.sorted hi]

set_option maxRecDepth 100000 in
/-- On two levels: every position, a key that is there and one that was deleted. -/
theorem ordinals_follow_entries_memory :
    sampleSession.root.height = 2 ∧
    (∀ i, atOrdinal memoryArena sampleSession.store sampleSession.root i =
      .ok sampleEntries[i]?) ∧
    ordinalAfter memoryArena sampleSession.store sampleSession.root (longRow 3) = .ok 3 ∧
    ordinalAfter memoryArena sampleSession.store sampleSession.root (longRow 1) = .ok 1 ∧
    ∀ i e, atOrdinal memoryArena sampleSession.store sampleSession.root i = .ok (some e) →
      ordinalAfter memoryArena sampleSession.store sampleSession.root e.1 = .ok (i + 1) := by
  obtain ⟨ha, hb, hc⟩ := ordinals_follow_entries sample_tree
  have h3 : rank (longRow 3) sampleEntries = 3 := by decide +kernel
  have h1 : rank (longRow 1) sampleEntries = 1 := by decide +kernel
  exact ⟨sample_evaluated.2.1, ha, h3 ▸ hb _ (longRow_valid 3), h1 ▸ hb _ (longRow_valid 1), hc⟩

/-- On every root that a run of `set` calls returned, `get` answers what the edits before it left
at a key, whatever was edited since; what is read by position is what `get` answers at its key. -/
theorem get_reads_edits (hB : AppendOnly B) (groupId : ℕ) (s : B.Store) (calls : List Call)
    (hc : Admissible 0 calls) : let σ := (Session.start B groupId s).run calls
    ∀ x ∈ σ.returned,
      (∀ key : DirectoryKey, key.Valid → get B σ.store x.1 key = .ok (x.2 key)) ∧
      ∀ i e, atOrdinal B σ.store x.1 i = .ok (some e) →
        get B σ.store x.1 e.1 = .ok (some e.2) := by
  obtain ⟨last, h⟩ := run_ok hB (start_ok B groupId s) hc
  intro σ x hx
  obtain ⟨l, hl, hm⟩ := h.returned x hx
  refine ⟨fun key hk => hm ▸ get_eq hl.toRootTree hk, fun i e he => ?_⟩
  rw [atOrdinal_eq hl.toRootTree] at he
  have hme := mem_of_getElem? (Except.ok.inj he)
  rw [get_eq hl.toRootTree (hl.keyValid hme), mem_toMap hl.sorted hme]

theorem get_reads_edits_memory :
    sampleSession.returned.map (fun x => x.1.height) = [2, 2, 1, 1, 1, 1] ∧
    ∀ x ∈ sampleSession.returned,
      get memoryArena sampleSession.store x.1 (longRow 1) = .ok (x.2 (longRow 1)) :=
  ⟨sample_evaluated.1, fun x hx => (get_reads_edits memoryArena_appendOnly 7 [] sampleCalls
    sampleCalls_admissible x hx).1 _ (longRow_valid 1)⟩

end DirectoryOrdinal
