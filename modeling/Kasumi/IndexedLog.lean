import Mathlib

/-! Logs whose items sit at the index each of them names, without a hole between the first and
the last. A run of consecutive items may be written over such a log wherever it touches what is
there, and the log may be cut from above or from below: what is left has no hole either. -/
namespace IndexedLog

open List

variable {α : Type} (key : α → ℕ)

def Consecutive (f : ℕ) (part : List α) : Prop :=
  ∀ j a, part[j]? = some a → key a = f + j

def put (log : ℕ → Option α) (part : List α) : ℕ → Option α := fun i =>
  (part.find? fun a => key a == i).or (log i)

/-- What is left of a log cut at an index: the items under it. -/
def below (n : ℕ) (log : ℕ → Option α) : ℕ → Option α := fun i => if i < n then log i else none

def since (n : ℕ) (log : ℕ → Option α) : ℕ → Option α := fun i => if n ≤ i then log i else none

def Vacant (log : ℕ → Option α) : Prop := ∀ i, log i = none

/-- A log that starts with one item, ends with another and has no hole between them. -/
structure Extent (log : ℕ → Option α) (first last : α) : Prop where
  start : log (key first) = some first
  stop : log (key last) = some last
  filled : ∀ i, (log i).isSome = true ↔ key first ≤ i ∧ i ≤ key last

def Indexed (log : ℕ → Option α) : Prop := ∀ i a, log i = some a → key a = i

def slice (items : List α) (a b : ℕ) : List α := (items.take b).drop a

theorem getElem?_slice (items : List α) (a b j : ℕ) :
    (slice items a b)[j]? = if a + j < b then items[a + j]? else none := by
  unfold slice
  rw [getElem?_drop, getElem?_take]

theorem length_slice (h : b ≤ items.length) : (slice items a b).length = b - a := by
  simp [slice, Nat.min_eq_left h]

theorem mem_of_mem_slice (h : x ∈ slice items a b) : x ∈ items :=
  mem_of_mem_take (mem_of_mem_drop h)

theorem slice_all (items : List α) : slice items 0 items.length = items := by
  simp [slice]

theorem slice_self (items : List α) (a : ℕ) : slice items a a = [] := by
  simp [slice]

theorem slice_infix (items : List α) (a b : ℕ) : slice items a b <:+: items :=
  (List.drop_suffix a (items.take b)).isInfix.trans (List.take_prefix b items).isInfix

theorem slice_append (items : List α) (ha : a ≤ b) (hb : b ≤ c) :
    slice items a b ++ slice items b c = slice items a c := by
  unfold slice
  have ht : items.take b = (items.take c).take b := by rw [take_take, Nat.min_eq_left hb]
  have hd : (items.take c).drop b = ((items.take c).drop a).drop (b - a) := by
    rw [drop_drop, Nat.add_sub_cancel' ha]
  rw [ht, drop_take, hd, take_append_drop]

variable {key}

theorem Consecutive.slice (h : Consecutive key f items) (a b : ℕ) :
    Consecutive key (f + a) (slice items a b) := by
  intro j x hx
  rw [getElem?_slice] at hx
  by_cases hj : a + j < b
  · rw [if_pos hj] at hx
    rw [h (a + j) x hx]
    omega
  · rw [if_neg hj] at hx
    cases hx

theorem Consecutive.tail (h : Consecutive key f (a :: items)) : Consecutive key (f + 1) items := by
  intro j x hx
  have := h (j + 1) x (by simpa using hx)
  omega

theorem Consecutive.head (h : Consecutive key f (a :: items)) : key a = f := h 0 a rfl

theorem Consecutive.find (h : Consecutive key f items) (i : ℕ) :
    items.find? (fun a => key a == i) = if f ≤ i then items[i - f]? else none := by
  induction items generalizing f with
  | nil => simp
  | cons a items ih =>
    have hh := h.head
    have hr := ih h.tail
    rw [find?_cons]
    by_cases hi : key a = i
    · have : i - f = 0 := by omega
      rw [beq_iff_eq.mpr hi, if_pos (by omega), this]
      rfl
    rw [beq_eq_false_iff_ne.mpr hi, hr]
    by_cases hf : f ≤ i
    · have : i - f = (i - (f + 1)) + 1 := by omega
      rw [if_pos hf, if_pos (by omega), this, getElem?_cons_succ]
    · rw [if_neg hf, if_neg (by omega)]

theorem Consecutive.put_apply (h : Consecutive key f items) (log : ℕ → Option α) (i : ℕ) :
    put key log items i = if f ≤ i ∧ i < f + items.length then items[i - f]? else log i := by
  unfold put
  rw [h.find]
  by_cases hf : f ≤ i
  · by_cases hi : i < f + items.length
    · rw [if_pos hf, if_pos ⟨hf, hi⟩, getElem?_eq_getElem (by omega)]
      rfl
    · rw [if_pos hf, if_neg (fun hc => hi hc.2), getElem?_eq_none (by omega)]
      rfl
  · rw [if_neg hf, if_neg (fun hc => hf hc.1)]
    rfl

theorem put_nil (log : ℕ → Option α) : put key log [] = log := rfl

theorem put_append (log : ℕ → Option α) (h : Consecutive key f (items ++ more)) :
    put key (put key log items) more = put key log (items ++ more) ∧
      put key (put key log more) items = put key log (items ++ more) := by
  have hl : Consecutive key f items := by
    intro j a ha
    exact h j a (by rw [getElem?_append_left (List.getElem?_eq_some_iff.mp ha).1, ha])
  have hr : Consecutive key (f + items.length) more := by
    intro j a ha
    have := h (items.length + j) a (by
      rw [getElem?_append_right (by omega), Nat.add_sub_cancel_left, ha])
    omega
  constructor <;> funext i
  · rw [hr.put_apply, h.put_apply, hl.put_apply, length_append]
    by_cases h1 : f ≤ i ∧ i < f + items.length
    · rw [if_neg (by omega), if_pos h1, if_pos (by omega), getElem?_append_left (by omega)]
    by_cases h2 : f + items.length ≤ i ∧ i < f + items.length + more.length
    · rw [if_pos h2, if_pos (by omega), getElem?_append_right (by omega)]
      congr 1
      omega
    · rw [if_neg h2, if_neg h1, if_neg (by omega)]
  rw [hl.put_apply, h.put_apply, hr.put_apply, length_append]
  by_cases h1 : f ≤ i ∧ i < f + items.length
  · rw [if_pos h1, if_pos (by omega), getElem?_append_left (by omega)]
  by_cases h2 : f + items.length ≤ i ∧ i < f + items.length + more.length
  · rw [if_neg h1, if_pos h2, if_pos (by omega), getElem?_append_right (by omega)]
    congr 1
    omega
  · rw [if_neg h1, if_neg h2, if_neg (by omega)]

section Extents

variable {log : ℕ → Option α} {p q : α}

section

variable (h : Extent key log p q)

include h

theorem Extent.le : key p ≤ key q :=
  ((h.filled (key p)).mp (by rw [h.start]; rfl)).2

theorem Extent.absent (hi : i < key p ∨ key q < i) : log i = none := by
  rw [← Option.not_isSome_iff_eq_none, h.filled]
  omega

theorem Extent.present (hp : key p ≤ i) (hq : i ≤ key q) :
    ∃ a, log i = some a := Option.isSome_iff_exists.mp ((h.filled i).mpr ⟨hp, hq⟩)

end

theorem Consecutive.endpoints (h : Consecutive key f items) (ha : items.head? = some a)
    (hb : items.getLast? = some b) :
    key a = f ∧ key b = f + (items.length - 1) ∧ 0 < items.length := by
  have hl : 0 < items.length := by
    cases items with
    | nil => cases ha
    | cons _ _ => simp
  refine ⟨h 0 a (by rw [← head?_eq_getElem?, ha]), ?_, hl⟩
  exact h _ b (by rw [← getLast?_eq_getElem?, hb])

theorem extent_put_vacant (hv : Vacant log) (h : Consecutive key f items)
    (ha : items.head? = some a) (hb : items.getLast? = some b) :
    Extent key (put key log items) a b := by
  obtain ⟨hk, hkb, hl⟩ := h.endpoints ha hb
  constructor
  · rw [h.put_apply, if_pos (by omega), hk, Nat.sub_self, ← head?_eq_getElem?, ha]
  · have : f + (items.length - 1) - f = items.length - 1 := by omega
    rw [h.put_apply, if_pos (by omega), hkb, this, ← getLast?_eq_getElem?, hb]
  intro i
  rw [h.put_apply]
  by_cases hi : f ≤ i ∧ i < f + items.length
  · rw [if_pos hi, getElem?_eq_getElem (by omega)]
    simp
    omega
  rw [if_neg hi, hv i]
  simp
  omega

section

variable (hx : Extent key log p q)

include hx

theorem Extent.put (h : Consecutive key f items) (ha : items.head? = some a)
    (hb : items.getLast? = some b) (hr : key a ≤ key q + 1) (hl : key p ≤ key b + 1) :
    Extent key (put key log items) (if key a ≤ key p then a else p)
      (if key q ≤ key b then b else q) := by
  obtain ⟨hk, hkb, hle⟩ := h.endpoints ha hb
  have hpq := hx.le
  constructor
  · by_cases hap : key a ≤ key p
    · rw [if_pos hap, h.put_apply, if_pos (by omega), hk, Nat.sub_self,
        ← head?_eq_getElem?, ha]
    · rw [if_neg hap, h.put_apply, if_neg (by omega), hx.start]
  · by_cases hq : key q ≤ key b
    · have : f + (items.length - 1) - f = items.length - 1 := by omega
      rw [if_pos hq, h.put_apply, if_pos (by omega), hkb, this, ← getLast?_eq_getElem?, hb]
    · rw [if_neg hq, h.put_apply, if_neg (by omega), hx.stop]
  intro i
  rw [h.put_apply]
  by_cases hi : f ≤ i ∧ i < f + items.length
  · rw [if_pos hi, getElem?_eq_getElem (by omega)]
    simp only [Option.isSome_some, true_iff]
    constructor <;> split <;> omega
  rw [if_neg hi, hx.filled]
  constructor
  · intro hp
    constructor <;> split <;> omega
  intro hp
  have h1 := hp.1
  have h2 := hp.2
  split at h1 <;> split at h2 <;> omega

theorem Extent.below (hp : key p < n) (hq : n ≤ key q + 1) (hi : Indexed key log)
    (hr : log (n - 1) = some r) : Extent key (below n log) p r := by
  have hk : key r = n - 1 := hi _ _ hr
  constructor
  · rw [IndexedLog.below, if_pos hp, hx.start]
  · rw [IndexedLog.below, hk, if_pos (by omega), hr]
  intro i
  unfold IndexedLog.below
  by_cases hin : i < n
  · rw [if_pos hin, hx.filled]
    omega
  rw [if_neg hin]
  simp only [Option.isSome_none, Bool.false_eq_true, false_iff]
  omega

theorem Extent.below_all (hp : n ≤ key p) : Vacant (IndexedLog.below n log) := by
  intro i
  unfold IndexedLog.below
  split
  · exact hx.absent (Or.inl (by omega))
  · rfl

theorem Extent.since (hp : key p ≤ n) (hq : n ≤ key q) (hi : Indexed key log) (hr : log n = some r) :
    Extent key (since n log) r q := by
  have hk : key r = n := hi _ _ hr
  constructor
  · rw [IndexedLog.since, hk, if_pos le_rfl, hr]
  · rw [IndexedLog.since, if_pos hq, hx.stop]
  intro i
  unfold IndexedLog.since
  by_cases hin : n ≤ i
  · rw [if_pos hin, hx.filled]
    omega
  rw [if_neg hin]
  simp only [Option.isSome_none, Bool.false_eq_true, false_iff]
  omega

theorem Extent.since_all (hq : key q < n) : Vacant (IndexedLog.since n log) := by
  intro i
  unfold IndexedLog.since
  split
  · exact hx.absent (Or.inr (by omega))
  · rfl

end

theorem below_below (n m : ℕ) (log : ℕ → Option α) :
    below n (below m log) = below (min n m) log := by
  funext i
  unfold below
  by_cases hn : i < n
  · by_cases hm : i < m
    · rw [if_pos hn, if_pos hm, if_pos (by omega)]
    · rw [if_pos hn, if_neg hm, if_neg (by omega)]
  · rw [if_neg hn, if_neg (by omega)]

theorem since_since (n m : ℕ) (log : ℕ → Option α) :
    since n (since m log) = since (max n m) log := by
  funext i
  unfold since
  by_cases hn : n ≤ i
  · by_cases hm : m ≤ i
    · rw [if_pos hn, if_pos hm, if_pos (by omega)]
    · rw [if_pos hn, if_neg hm, if_neg (by omega)]
  · rw [if_neg hn, if_neg (by omega)]

theorem Extent.below_eq (hx : Extent key log p q) (hq : key q < n) :
    IndexedLog.below n log = log := by
  funext i
  unfold IndexedLog.below
  split
  · rfl
  · exact (hx.absent (Or.inr (by omega))).symm

theorem Vacant.below (h : Vacant log) (n : ℕ) : below n log = log := by
  funext i
  unfold IndexedLog.below
  rw [h i, ite_self]

end Extents

end IndexedLog
