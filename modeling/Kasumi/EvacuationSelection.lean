import Kasumi.DirectoryPages

/-! Which surveyed segments an evacuation keeps in place: dense ones, as far as the garbage that
stays in them is within an allowance and their identifiers within a span. -/
namespace EvacuationSelection

open List

open DirectoryPages (maxU64)

def keptSpanPerSegment : ℕ := 8

def saturatingAdd (a b : ℕ) : ℕ := min (a + b) maxU64
def saturatingMul (a b : ℕ) : ℕ := min (a * b) maxU64

structure LiveSegment where
  id : ℕ
  bytes : ℕ
  deriving DecidableEq

def byDensity (a b : LiveSegment) : Prop := a.bytes < b.bytes ∨ a.bytes = b.bytes ∧ a.id ≤ b.id

def byId (a b : LiveSegment) : Prop := a.id ≤ b.id

instance : DecidableRel byDensity := fun _ _ => inferInstanceAs (Decidable (_ ∨ _ ∧ _))

instance : DecidableRel byId := fun a b => inferInstanceAs (Decidable (a.id ≤ b.id))

def garbage (capacity : ℕ) (s : LiveSegment) : ℕ := capacity - s.bytes

def garbageOf (capacity : ℕ) (l : List LiveSegment) : ℕ := (l.map (garbage capacity)).sum

def liveBytes (l : List LiveSegment) : ℕ := (l.map LiveSegment.bytes).sum

/-- Both loops of `keep_segments`: empty the first kept segment while `empties` says so. The
unsigned subtraction of its garbage from the kept garbage is `none` where it underflows. -/
def emptyWhile (capacity : ℕ) (empties : LiveSegment → ℕ → Bool) :
    (kept : List LiveSegment) → (keptGarbage : ℕ) →
      Option (List LiveSegment × List LiveSegment × ℕ)
  | [], g => some ([], [], g)
  | s :: kept, g =>
    if empties s g then
      if garbage capacity s ≤ g then
        (emptyWhile capacity empties kept (g - garbage capacity s)).map
          fun (emptied, rest) => (s :: emptied, rest)
      else none
    else some ([], s :: kept, g)

/-- The segments with the kept ones last, their number and their garbage. Sums of bytes are
`u128` in the source, too wide to overflow on a survey. -/
def keepSegments (live : List LiveSegment) (capacity percent cutoff : ℕ) :
    Option (List LiveSegment × ℕ × ℕ) := do
  let live := live.insertionSort byDensity
  let allowance := liveBytes live * percent / 100
  let emptied (s : LiveSegment) : Bool := saturatingMul s.bytes 2 ≤ capacity
  let dense := live.dropWhile emptied
  let (early, kept, keptGarbage) ← emptyWhile capacity (fun _ g => allowance < g) dense
    (garbageOf capacity dense)
  let span := saturatingMul keptSpanPerSegment live.length
  let (old, kept, keptGarbage) ← emptyWhile capacity
    (fun s _ => span < saturatingAdd (cutoff - s.id) 1) (kept.insertionSort byId) keptGarbage
  pure (live.takeWhile emptied ++ early ++ old ++ kept, kept.length, min keptGarbage maxU64)

inductive Kept where
  | nothing
  | surveyed (live : List LiveSegment) (start : ℕ)
  | everything

/-- The binary search over the kept segments, which are in the order of their identifiers. -/
def Kept.relocates (k : Kept) (segmentId : ℕ) : Bool :=
  match k with
  | .nothing => true
  | .surveyed live start => (live.drop start).all fun s => s.id ≠ segmentId
  | .everything => false

def select (live : List LiveSegment) (capacity percent cutoff : ℕ) : Option Kept :=
  (keepSegments live capacity percent cutoff).map
    fun (after, kept, _) => .surveyed after (after.length - kept)

instance : Std.Total byDensity := ⟨fun a b => by unfold byDensity; omega⟩

instance : IsTrans LiveSegment byDensity := ⟨fun a b c => by unfold byDensity; omega⟩

instance : Std.Total byId := ⟨fun a b => Nat.le_total a.id b.id⟩

instance : IsTrans LiveSegment byId := ⟨fun _ _ _ => Nat.le_trans⟩

instance : Std.Antisymm byDensity := ⟨fun a b hab hba => by
  obtain ⟨i, n⟩ := a
  obtain ⟨j, m⟩ := b
  simp only [byDensity] at hab hba
  obtain ⟨rfl, rfl⟩ : i = j ∧ n = m := by omega
  rfl⟩

variable {capacity : ℕ} {live l : List LiveSegment}

@[simp] theorem garbageOf_cons (s : LiveSegment) :
    garbageOf capacity (s :: l) = garbage capacity s + garbageOf capacity l := by
  simp [garbageOf]

/-- Emptying stops at the first segment that may stay, and never underflows. -/
theorem emptyWhile_spec (capacity : ℕ) (empties : LiveSegment → ℕ → Bool) (l : List LiveSegment) :
    ∃ emptied kept, emptyWhile capacity empties l (garbageOf capacity l) =
        some (emptied, kept, garbageOf capacity kept) ∧ l = emptied ++ kept ∧
      (∀ s rest, kept = s :: rest → empties s (garbageOf capacity kept) = false) ∧
      ∀ s rest, s :: rest <:+ l → kept.length ≤ rest.length →
        empties s (garbageOf capacity (s :: rest)) = true := by
  induction l with
  | nil => exact ⟨[], [], rfl, rfl, nofun, fun s rest h => by simp at h⟩
  | cons a l ih =>
    unfold emptyWhile
    by_cases ha : empties a (garbageOf capacity (a :: l)) = true
    · obtain ⟨emptied, kept, hr, rfl, hs, hal⟩ := ih
      rw [if_pos ha, if_pos (by simp), garbageOf_cons, Nat.add_sub_cancel_left, hr]
      refine ⟨a :: emptied, kept, rfl, rfl, hs, fun s rest h hl => ?_⟩
      rcases suffix_cons_iff.mp h with h | h
      · cases h
        exact ha
      · exact hal s rest h hl
    rw [if_neg ha]
    refine ⟨[], a :: l, rfl, rfl, fun s rest h => ?_, fun s rest h hl => ?_⟩
    · cases h
      simpa using ha
    have := h.length_le
    simp only [length_cons] at this hl
    omega

theorem dropWhile_sorted (hs : l.Pairwise byDensity)
    (hp : ∀ a b, byDensity a b → p b = true → p a = true) :
    l.dropWhile p = l.filter fun s => !p s := by
  induction l with
  | nil => rfl
  | cons a l ih =>
    obtain ⟨ha, hs⟩ := pairwise_cons.mp hs
    cases h : p a with
    | true => simp [h, ih hs]
    | false =>
      have hl : ∀ b ∈ l, (!p b) = true := by
        intro b hb
        by_contra hn
        rw [hp a b (ha b hb) (by simpa using hn)] at h
        cases h
      simp [h, filter_eq_self.mpr hl]

/-- What `keep_segments` chooses: `chosen` before the span trim, `kept` after it. -/
structure Keeps (live : List LiveSegment) (capacity percent cutoff : ℕ)
    (after chosen kept : List LiveSegment) (amount : ℕ) : Prop where
  permutes : after.Perm live
  last : kept <:+ after
  ordered : kept.Pairwise fun a b => a.id < b.id
  dense : ∀ s ∈ kept, capacity < 2 * s.bytes
  counted : amount = min (garbageOf capacity kept) maxU64
  allowed : garbageOf capacity kept ≤ liveBytes live * percent / 100
  trimmed : ∀ s, s ∈ kept ↔ s ∈ chosen ∧
    saturatingAdd (cutoff - s.id) 1 ≤ saturatingMul keptSpanPerSegment live.length
  suffix : chosen <:+ (live.insertionSort byDensity).filter fun s => capacity < 2 * s.bytes
  meets : garbageOf capacity chosen ≤ liveBytes live * percent / 100
  largest : ∀ other, other <:+
      ((live.insertionSort byDensity).filter fun s => capacity < 2 * s.bytes) →
    garbageOf capacity other ≤ liveBytes live * percent / 100 → other.length ≤ chosen.length

theorem garbageOf_append : garbageOf capacity (l ++ m) =
    garbageOf capacity l + garbageOf capacity m := by
  simp [garbageOf]

theorem garbageOf_perm (h : l.Perm m) : garbageOf capacity l = garbageOf capacity m :=
  (h.map _).sum_eq

/-- The allowance loop leaves the largest suffix whose garbage is within the allowance. -/
theorem allowance_loop (capacity allowance : ℕ) (l : List LiveSegment) :
    ∃ emptied chosen, emptyWhile capacity (fun _ g => allowance < g) l (garbageOf capacity l) =
        some (emptied, chosen, garbageOf capacity chosen) ∧ l = emptied ++ chosen ∧
      garbageOf capacity chosen ≤ allowance ∧ ∀ other, other <:+ l →
        garbageOf capacity other ≤ allowance → other.length ≤ chosen.length := by
  obtain ⟨emptied, chosen, hr, hl, hs, ha⟩ :=
    emptyWhile_spec capacity (fun _ g => decide (allowance < g)) l
  refine ⟨emptied, chosen, hr, hl, ?_, fun other ho hg => ?_⟩
  · cases chosen with
    | nil => simp [garbageOf]
    | cons s rest => simpa using hs s rest rfl
  by_contra hn
  cases other with
  | nil => simp at hn
  | cons s rest =>
    have hg' := ha s rest ho (by simpa [Nat.lt_succ_iff] using hn)
    simp only [decide_eq_true_eq] at hg'
    omega

/-- The span loop keeps exactly the segments within the span: older ones come first. -/
theorem span_loop (capacity span cutoff : ℕ) (hl : l.Pairwise byId) :
    ∃ old kept, emptyWhile capacity (fun s _ => span < saturatingAdd (cutoff - s.id) 1) l
        (garbageOf capacity l) = some (old, kept, garbageOf capacity kept) ∧ l = old ++ kept ∧
      ∀ s, s ∈ kept ↔ s ∈ l ∧ saturatingAdd (cutoff - s.id) 1 ≤ span := by
  obtain ⟨old, kept, hr, rfl, hs, ha⟩ := emptyWhile_spec capacity
    (fun s _ => decide (span < saturatingAdd (cutoff - s.id) 1)) l
  refine ⟨old, kept, hr, rfl, fun s => ⟨fun hm => ⟨mem_append_right _ hm, ?_⟩, ?_⟩⟩
  · cases kept with
    | nil => cases hm
    | cons a rest =>
      have h0 : saturatingAdd (cutoff - a.id) 1 ≤ span := by simpa using hs a rest rfl
      have hle : a.id ≤ s.id := by
        rcases mem_cons.mp hm with rfl | hm
        · exact le_rfl
        · exact (pairwise_cons.mp (pairwise_append.mp hl).2.1).1 s hm
      unfold saturatingAdd at h0 ⊢
      omega
  rintro ⟨hm, hsp⟩
  rcases mem_append.mp hm with hm | hm
  · -- an emptied segment was beyond the span when the loop met it
    obtain ⟨u, v, rfl⟩ := append_of_mem hm
    have ho := ha s (v ++ kept) ⟨u, by simp⟩ (by simp)
    simp only [decide_eq_true_eq] at ho
    omega
  · exact hm

theorem keepSegments_perm (percent cutoff : ℕ) (h : l.Perm m) :
    keepSegments l capacity percent cutoff = keepSegments m capacity percent cutoff := by
  have hs : l.insertionSort byDensity = m.insertionSort byDensity :=
    List.Perm.eq_of_pairwise' (pairwise_insertionSort _ _) (pairwise_insertionSort _ _)
      (((perm_insertionSort _ l).trans h).trans (perm_insertionSort _ m).symm)
  unfold keepSegments
  rw [hs]

theorem dense_eq_filter (hc : capacity < maxU64) :
    (live.insertionSort byDensity).dropWhile (fun s => saturatingMul s.bytes 2 ≤ capacity) =
      (live.insertionSort byDensity).filter fun s => capacity < 2 * s.bytes := by
  rw [dropWhile_sorted (pairwise_insertionSort _ _)]
  · congr 1
    funext s
    rw [← decide_not, decide_eq_decide]
    unfold saturatingMul
    omega
  intro a b ha hb
  have hb' := of_decide_eq_true hb
  refine decide_eq_true ?_
  unfold byDensity at ha
  unfold saturatingMul at hb' ⊢
  omega

theorem keepSegments_spec (percent cutoff : ℕ) (hd : (live.map LiveSegment.id).Nodup)
    (hc : capacity < maxU64) : ∃ after chosen kept amount,
      keepSegments live capacity percent cutoff = some (after, kept.length, amount) ∧
      Keeps live capacity percent cutoff after chosen kept amount := by
  have hp := perm_insertionSort byDensity live
  have hsp := takeWhile_append_dropWhile
    (p := fun s : LiveSegment => decide (saturatingMul s.bytes 2 ≤ capacity))
    (l := live.insertionSort byDensity)
  obtain ⟨early, chosen, hr, he, hg, hb⟩ := allowance_loop capacity
    (liveBytes (live.insertionSort byDensity) * percent / 100)
    ((live.insertionSort byDensity).dropWhile fun s => saturatingMul s.bytes 2 ≤ capacity)
  obtain ⟨old, kept, hr', hk, htr⟩ := span_loop capacity
    (saturatingMul keptSpanPerSegment (live.insertionSort byDensity).length) cutoff
    (pairwise_insertionSort byId chosen)
  have hcp := perm_insertionSort byId chosen
  have ht : liveBytes (live.insertionSort byDensity) = liveBytes live := (hp.map _).sum_eq
  have hl : garbageOf capacity kept ≤ garbageOf capacity chosen := by
    rw [← garbageOf_perm hcp, hk, garbageOf_append]
    omega
  have ha : ((live.insertionSort byDensity).takeWhile
      (fun s => saturatingMul s.bytes 2 ≤ capacity) ++ early ++ old ++ kept).Perm live := by
    refine List.Perm.trans ?_ hp
    rw [append_assoc _ old, ← hk]
    conv_rhs => rw [← hsp, he, ← append_assoc]
    exact hcp.append_left _
  rw [ht] at hr hg hb
  rw [length_insertionSort] at hr' htr
  rw [dense_eq_filter hc] at he hb
  refine ⟨_, chosen, kept, _, ?_, ha, ⟨_, rfl⟩, ?_, fun s hs => ?_, rfl, hl.trans hg,
    fun s => ?_, ⟨early, he.symm⟩, hg, hb⟩
  · rw [garbageOf_perm hcp] at hr'
    simp [keepSegments, ht, hr, hr']
  · have hi : (kept.map LiveSegment.id).Nodup := by
      have := (ha.map LiveSegment.id).nodup_iff.mpr hd
      rw [map_append] at this
      exact (nodup_append.mp this).2.1
    have hso := pairwise_insertionSort byId chosen
    rw [hk] at hso
    exact ((pairwise_append.mp hso).2.1.and (pairwise_map.mp hi)).imp
      fun h => lt_of_le_of_ne h.1 h.2
  · have hm : s ∈ chosen := hcp.mem_iff.mp (hk ▸ mem_append_right _ hs)
    have hm' := he ▸ mem_append_right early hm
    simpa using (mem_filter.mp hm').2
  · rw [htr, hcp.mem_iff]

theorem relocates_surveyed {after : List LiveSegment} (h : kept <:+ after) (id : ℕ) :
    (Kept.surveyed after (after.length - kept.length)).relocates id = true ↔
      id ∉ kept.map LiveSegment.id := by
  obtain ⟨u, rfl⟩ := h
  simp [Kept.relocates]

/-- Every survey is divided into the segments emptied and the largest dense set that may stay. -/
theorem keep_segments_keeps_dense (percent cutoff : ℕ) (hd : (live.map LiveSegment.id).Nodup)
    (hc : capacity < maxU64) : ∃ after chosen kept amount selection, (∀ other, other.Perm live →
    keepSegments other capacity percent cutoff = some (after, kept.length, amount) ∧
    select other capacity percent cutoff = some selection) ∧
    Keeps live capacity percent cutoff after chosen kept amount ∧ (live.length * capacity ≤ maxU64 →
    amount = garbageOf capacity kept) ∧ ∀ id, selection.relocates id = true ↔
    id ∉ kept.map LiveSegment.id := by
  obtain ⟨after, chosen, kept, amount, hr, hk⟩ := keepSegments_spec percent cutoff hd hc
  refine ⟨after, chosen, kept, amount, _, fun other ho => ?_, hk, fun hf => ?_,
    relocates_surveyed hk.last⟩
  · rw [select, keepSegments_perm percent cutoff ho, hr]
    exact ⟨rfl, rfl⟩
  have hl : kept.length ≤ live.length := hk.permutes.length_eq ▸ hk.last.length_le
  have hs : garbageOf capacity kept ≤ kept.length * capacity := by
    simpa [garbageOf] using sum_le_card_nsmul (kept.map (garbage capacity)) capacity
      (by simp [garbage])
  have hm := Nat.mul_le_mul_right capacity hl
  rw [hk.counted]
  omega

def sevenSegments : List LiveSegment :=
  [⟨1, 950⟩, ⟨2, 400⟩, ⟨3, 900⟩, ⟨4, 500⟩, ⟨5, 960⟩, ⟨6, 880⟩, ⟨7, 990⟩]

theorem seven_segments_keep_dense : ∃ after chosen kept amount,
    keepSegments sevenSegments 1000 25 7 = some (after, kept.length, amount) ∧
    Keeps sevenSegments 1000 25 7 after chosen kept amount := by
  obtain ⟨after, chosen, kept, amount, _, h, hk, _⟩ :=
    keep_segments_keeps_dense 25 7 (by decide : (sevenSegments.map LiveSegment.id).Nodup)
      (by decide : 1000 < maxU64)
  exact ⟨after, chosen, kept, amount, (h _ (.refl _)).1, hk⟩

/-- Asked about a segment above the cutoff, a selection answers that it is relocated; evacuation
asks only about segments at or below it. -/
theorem relocates_above_cutoff : ∃ selection, select [⟨7, 990⟩] 1000 25 7 = some selection ∧
    selection.relocates 7 = false ∧ selection.relocates 8 = true :=
  ⟨.surveyed [⟨7, 990⟩] 0, rfl, by decide, by decide⟩

end EvacuationSelection
