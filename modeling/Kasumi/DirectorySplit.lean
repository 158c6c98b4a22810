import Kasumi.DirectoryTree

/-! The page writer: however the records of a rebuilt node are split, they reach at most
two pages, in order, each within one page and none empty. -/
namespace DirectorySplit

open DirectoryPages DirectoryUpdate DirectoryTree List

variable {D : Type} [DecidableEq D] {B : DirectoryBackend D} {s : B.Store} {rs : List (Record D)}
  {w : Output D} {r : Record D}

def capacity : ℕ := directoryPageBytes - headerBytes
def maxRecord : ℕ := maxEncodedKey + branchValueBytes

/-- Two maximum records fit a page, with room for a third: the source's static assertion. -/
theorem three_records_fit : 3 * maxRecord ≤ capacity := by decide

omit [DecidableEq D] in
theorem fits_iff (p : PendingPage D) (r : Record D) :
    p.fits r = true ↔ payload p.records + r.len ≤ capacity := by
  have hc : capacity + headerBytes = directoryPageBytes := by decide
  unfold PendingPage.fits PendingPage.used
  rw [decide_eq_true_iff]
  omega

omit [DecidableEq D] in
theorem not_fits_iff (p : PendingPage D) (r : Record D) :
    p.fits r = false ↔ capacity < payload p.records + r.len := by
  rw [← Bool.not_eq_true, fits_iff, not_le]

def imageOf (groupId generation level : ℕ) (rs : List (Record D)) : Page D :=
  ⟨groupId, generation, level, rs.length, headerBytes + payload rs, entriesOf rs, rs⟩

def appendAll (B : DirectoryBackend D) (w : Output D) (rs : List (Record D)) :
    DirM B (Output D) := rs.foldlM (fun w r => w.append B r) w

@[simp] theorem appendAll_nil (w : Output D) : appendAll B w [] = pure w := rfl

@[simp] theorem appendAll_cons (w : Output D) (r : Record D) (rs) :
    appendAll B w (r :: rs) = w.append B r >>= fun w => appendAll B w rs := rfl

theorem appendAll_append (w : Output D) (rs ts : List (Record D)) :
    appendAll B w (rs ++ ts) = appendAll B w rs >>= fun w => appendAll B w ts := by
  simp [appendAll, foldlM_append]

structure CarryPage (B : DirectoryBackend D) (s : B.Store) (groupId generation level : ℕ)
    (c : Carry D) (rs : List (Record D)) : Prop where
  stored : Stored B s c.page (imageOf groupId generation level rs)
  key : rs.head?.map Record.key = some c.key
  entries : c.entries = entriesOf rs
  fits : payload rs ≤ capacity

omit [DecidableEq D] in
theorem CarryPage.mono (h : CarryPage B s g n l c rs)
    (hs : Extends B s t) : CarryPage B t g n l c rs :=
  ⟨h.stored.mono hs, h.key, h.entries, h.fits⟩

theorem flush_spec (hB : AppendOnly B) (hn : w.page.records ≠ [])
    (hf : payload w.page.records ≤ capacity) (hre : w.replacement.children.length < 2) :
    Grows s (w.flush B) fun v t => ∃ c,
      CarryPage B t w.groupId w.generation w.level c w.page.records ∧
      v = { w with page := {}, replacement := ⟨w.replacement.children ++ [c]⟩ } := by
  unfold Output.flush
  split
  · next h => exact absurd h hn
  next first rest h =>
  refine grows_bind (grows_append hB w.image) ?_
  intro r t _ hr
  refine grows_check_bind hr.valid ?_
  rw [if_neg (by simpa using hr.digest)]
  refine grows_check_bind (b := ⟨w.replacement.children ++ [⟨first.key, r, w.page.entries⟩]⟩)
    ?_ ?_
  · rw [Replacement.push, if_neg (by omega)]; rfl
  · exact grows_pure ⟨⟨first.key, r, w.page.entries⟩, ⟨hr, by simp [h], rfl, hf⟩, rfl⟩

theorem append_keep (hr : w.remaining ≠ 0) (hl : r.value.len = valueBytes w.level)
    (hfi : payload w.page.records + r.len ≤ capacity) (hb : w.balancedSplit = false)
    (ht : entriesOf w.page.records + r.entries ≤ maxU64) :
    w.append B r =
      pure { w with page := ⟨w.page.records ++ [r]⟩, remaining := w.remaining - 1 } := by
  have hf : w.page.fits r = true := (fits_iff _ _).mpr hfi
  have ha : w.page.append r = .ok ⟨w.page.records ++ [r]⟩ := by
    rw [PendingPage.append, if_neg (by simp only [PendingPage.entries]; omega)]; rfl
  unfold Output.append
  rw [if_neg hr, if_neg (by simpa using hl), hf, hb]
  simp only [Bool.not_true, Bool.or_self, Bool.false_eq_true, if_false, pure_bind, ha]
  rfl

theorem appendAll_keep (hr : w.remaining = rs.length)
    (hl : ∀ r ∈ rs, r.value.len = valueBytes w.level)
    (hf : payload w.page.records + payload rs ≤ capacity)
    (hb : w.splitTarget = none ∨ w.replacement.children ≠ [])
    (ht : entriesOf w.page.records + entriesOf rs ≤ maxU64) :
    appendAll B w rs = pure { w with page := ⟨w.page.records ++ rs⟩, remaining := 0 } := by
  induction rs generalizing w with
  | nil =>
    rcases w with ⟨⟨rs⟩, g, n, l, t, rem, rep⟩
    simp only [length_nil] at hr
    simp [hr]
  | cons r rs ih =>
    simp only [payload_cons, entriesOf_cons, length_cons] at *
    have hs : w.balancedSplit = false := by
      rcases hb with hb | hb
      · simp [Output.balancedSplit, hb]
      have : w.replacement.children.isEmpty = false := by simpa using hb
      unfold Output.balancedSplit
      split <;> simp [this]
    rw [appendAll_cons, append_keep (by omega) (hl r (by simp)) (by omega) hs (by omega),
      pure_bind, ih]
    · simp
    · simp only; omega
    · exact fun q hq => hl q (by simp [hq])
    · simp only [payload_append, payload_cons, payload_nil]; omega
    · exact hb
    · simp only [entriesOf_append, entriesOf_cons, entriesOf_nil]; omega

theorem append_flush (hB : AppendOnly B) (hr : w.remaining ≠ 0)
    (hl : r.value.len = valueBytes w.level) (hn : w.page.records ≠ [])
    (hf : payload w.page.records ≤ capacity) (hre : w.replacement.children.length < 2)
    (hd : w.page.fits r = false ∨ w.balancedSplit = true) (ht : r.entries ≤ maxU64) :
    Grows s (w.append B r) fun v t => ∃ c,
      CarryPage B t w.groupId w.generation w.level c w.page.records ∧
      v = { w with page := ⟨[r]⟩, remaining := w.remaining - 1,
                   replacement := ⟨w.replacement.children ++ [c]⟩ } := by
  unfold Output.append
  rw [if_neg hr, if_neg (by simpa using hl), if_pos (by rcases hd with h | h <;> simp [h])]
  refine grows_bind (flush_spec hB hn hf hre) ?_
  rintro v t _ ⟨c, hc, rfl⟩
  refine grows_check_bind (b := ⟨[r]⟩) ?_ ?_
  · rw [PendingPage.append, if_neg (by simp [PendingPage.entries]; omega)]; rfl
  · exact grows_pure ⟨c, hc, rfl⟩

/-- The first page closes while the remaining records still fit the second one. -/
theorem appendAll_split (hB : AppendOnly B) (total : ℕ) (hrem : w.remaining = rs.length)
    (hl : ∀ r ∈ rs, r.value.len = valueBytes w.level)
    (hm : ∀ r ∈ w.page.records ++ rs, r.len ≤ maxRecord) (hre : w.replacement = {})
    (ht : w.splitTarget = some ((total + 1) / 2))
    (hs : payload w.page.records + payload rs = total) (hb : capacity < total)
    (hto : total + maxRecord ≤ 2 * capacity) (hfi : payload w.page.records ≤ capacity)
    (htot : entriesOf w.page.records + entriesOf rs ≤ maxU64) :
    Grows s (appendAll B w rs) fun v t => ∃ left right c,
      left ++ right = w.page.records ++ rs ∧ right ≠ [] ∧ payload right ≤ capacity ∧
      CarryPage B t w.groupId w.generation w.level c left ∧
      v = { w with page := ⟨right⟩, remaining := 0, replacement := ⟨[c]⟩ } := by
  have hth := three_records_fit
  induction rs generalizing w s with
  | nil => simp only [payload_nil] at hs; omega
  | cons r rs ih =>
    simp only [payload_cons, entriesOf_cons, length_cons] at *
    have hr : r.len ≤ maxRecord := hm r (by simp)
    rw [appendAll_cons]
    by_cases hd : w.page.fits r = false ∨ w.balancedSplit = true
    · -- the split: bound what is left by the reason for splitting
      have hres : r.len + payload rs ≤ capacity := by
        rcases hd with h | h
        · rw [not_fits_iff] at h
          omega
        simp only [Output.balancedSplit, ht, Bool.and_eq_true, Bool.or_eq_true,
          decide_eq_true_iff, beq_iff_eq] at h
        obtain ⟨-, h | h⟩ := h
        · rw [show w.page.used - headerBytes = payload w.page.records from
            Nat.add_sub_cancel_left _ _] at h
          omega
        obtain ⟨q, rfl⟩ : ∃ q, rs = [q] := length_eq_one_iff.mp (by omega)
        have := hm q (by simp)
        simp only [payload_cons, payload_nil]
        omega
      have hn : w.page.records ≠ [] := by
        intro h
        rw [h, payload_nil] at hs
        omega
      refine grows_bind (append_flush hB (by omega) (hl r (by simp)) hn hfi
        (by simp [hre]) hd (by omega)) ?_
      rintro v t _ ⟨c, hc, rfl⟩
      rw [appendAll_keep]
      · exact grows_pure ⟨w.page.records, r :: rs, c, rfl, by simp, by simpa using hres, hc,
          by simp [hre]⟩
      · simp only; omega
      · exact fun q hq => hl q (by simp [hq])
      · simpa using hres
      · right; simp
      · simp only [entriesOf_cons, entriesOf_nil]; omega
    rw [not_or, Bool.not_eq_false, Bool.not_eq_true] at hd
    have hf : payload w.page.records + r.len ≤ capacity := (fits_iff _ _).mp hd.1
    rw [append_keep (by omega) (hl r (by simp)) hf hd.2 (by omega), pure_bind]
    refine grows_mono (ih (by simp only; omega) (fun q hq => hl q (by simp [hq]))
      (by simpa using hm) hre ht ?_ ?_ ?_) ?_
    · simp only [payload_append, payload_cons, payload_nil]; omega
    · simpa using hf
    · simp only [entriesOf_append, entriesOf_cons, entriesOf_nil]; omega
    · rintro v t _ ⟨left, right, c, ha, hn, hp, hc, rfl⟩
      exact ⟨left, right, c, by simpa using ha, hn, hp, hc, rfl⟩

theorem write_spec (hB : AppendOnly B) (root : DirectoryRoot D) (level : ℕ)
    (rs : List (Record D)) (hl : ∀ r ∈ rs, r.value.len = valueBytes level)
    (hm : ∀ r ∈ rs, r.len ≤ maxRecord) (hto : entriesOf rs ≤ maxU64)
    (hs : payload rs + maxRecord ≤ 2 * capacity) :
    Grows s (appendAll B (output root level (payload rs) rs.length) rs >>= fun w => w.finish B)
      fun rep t => rep.children.length ≤ 2 ∧ (payload rs ≤ capacity → rep.children.length ≤ 1) ∧
        ∃ groups, groups.flatten = rs ∧
          List.Forall₂ (CarryPage B t root.groupId root.generation level) rep.children groups := by
  by_cases hb : capacity < payload rs
  · have ht : (output root level (payload rs) rs.length).splitTarget
        = some ((payload rs + 1) / 2) := by
      simp only [output]; exact if_pos hb
    refine grows_bind (appendAll_split hB (payload rs) rfl hl (by simpa [output])
      rfl ht (by simp [output]) hb hs (by simp [output]) (by simpa [output])) ?_
    rintro v t _ ⟨left, right, c, ha, hne, hp, hc, rfl⟩
    unfold Output.finish
    rw [if_neg (by simp)]
    refine grows_bind (flush_spec hB hne hp (by simp)) ?_
    rintro w u htu ⟨d, hd, rfl⟩
    refine grows_pure ⟨by simp, fun h => absurd hb (by omega), [left, right], by simpa [output] using ha, ?_⟩
    exact .cons (hc.mono htu) (.cons hd .nil)
  have hn : (output root level (payload rs) rs.length).splitTarget = none := by
    simp only [output]; exact if_neg hb
  rw [appendAll_keep rfl hl (by simpa [output] using not_lt.mp hb) (Or.inl hn)
    (by simpa [output]), pure_bind]
  unfold Output.finish
  rw [if_neg (by simp)]
  by_cases hr : rs = []
  · subst hr
    exact grows_bind (grows_pure (Q := fun a _ => a.replacement.children = []) rfl)
      fun w t _ hw => grows_pure ⟨by simp [hw], by simp [hw], [], rfl, by rw [hw]; exact .nil⟩
  refine grows_bind (flush_spec hB (by simpa [output]) (by simpa [output] using hb)
    (by simp [output])) ?_
  rintro w t _ ⟨c, hc, rfl⟩
  refine grows_pure ⟨by simp [output], by simp [output], [rs], by simp, ?_⟩
  exact .cons (by simpa [output] using hc) .nil

end DirectorySplit
