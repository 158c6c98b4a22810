import Mathlib

/-! Strictly sorted association lists over a linear order. They denote finite maps, and
one edit (insert, replace or delete) of a list is the pointwise update of its map. -/
namespace SortedAssoc

open List

variable {K V : Type*} [LinearOrder K] {l r : List (K × V)} {k : K} {e : K × V} {v : Option V}

def Sorted (l : List (K × V)) : Prop := l.Pairwise fun a b => a.1 < b.1

/-- Insert or replace the key when a value is given, delete it otherwise. -/
def edit (k : K) (v : Option V) : List (K × V) → List (K × V)
  | [] => (v.map (k, ·)).toList
  | e :: l =>
    if e.1 < k then e :: edit k v l
    else if k < e.1 then (v.map (k, ·)).toList ++ e :: l
    else (v.map (k, ·)).toList ++ l

def toMap (l : List (K × V)) (k : K) : Option V := l.lookup k

@[simp] theorem toMap_nil (k : K) : toMap ([] : List (K × V)) k = none := rfl

theorem toMap_cons (e : K × V) (l : List (K × V)) (k : K) :
    toMap (e :: l) k = if k = e.1 then some e.2 else toMap l k := by
  rcases e with ⟨a, b⟩
  by_cases h : k = a
  · simp [toMap, h]
  · have hb : (k == a) = false := by simpa using h
    simp [toMap, lookup_cons, h, hb]

theorem toMap_append (l r : List (K × V)) (k : K) :
    toMap (l ++ r) k = (toMap l k).or (toMap r k) := lookup_append

theorem toMap_eq_none (h : ∀ e ∈ l, e.1 ≠ k) : toMap l k = none := by
  induction l with
  | nil => rfl
  | cons e l ih =>
    rw [toMap_cons, if_neg (fun hk => h e (by simp) hk.symm)]
    exact ih fun a ha => h a (by simp [ha])

/-- Lookup skips blocks that lie wholly below or above the key. -/
theorem toMap_append_middle (hl : ∀ e ∈ l, e.1 < k) (hr : ∀ e ∈ r, k < e.1) :
    toMap (l ++ m ++ r) k = toMap m k := by
  rw [toMap_append, toMap_append, toMap_eq_none fun e he => ne_of_lt (hl e he),
    toMap_eq_none (l := r) fun e he => ne_of_gt (hr e he)]
  simp

theorem sorted_cons : Sorted (e :: l) ↔ (∀ a ∈ l, e.1 < a.1) ∧ Sorted l := pairwise_cons

theorem sorted_append : Sorted (l ++ r) ↔ Sorted l ∧ Sorted r ∧ ∀ a ∈ l, ∀ b ∈ r, a.1 < b.1 :=
  pairwise_append

theorem mem_toMap (hl : Sorted l) (he : e ∈ l) : toMap l e.1 = some e.2 := by
  induction l with
  | nil => cases he
  | cons a l ih =>
    rw [toMap_cons]
    obtain ⟨ha, hl⟩ := sorted_cons.mp hl
    rcases mem_cons.mp he with rfl | he
    · simp
    · rw [if_neg (ne_of_gt (ha e he)), ih hl he]

theorem toMap_mem {v : V} (h : toMap l k = some v) : (k, v) ∈ l := by
  induction l with
  | nil => cases h
  | cons a l ih =>
    rw [toMap_cons] at h
    split at h
    · next hk => cases h; subst hk; simp
    · exact mem_cons_of_mem _ (ih h)

/-- A strictly sorted list is determined by the map it denotes. -/
theorem toMap_injective (hl : Sorted l) (hr : Sorted r) (h : toMap l = toMap r) : l = r := by
  have mem : ∀ {a b : List (K × V)}, Sorted a → toMap a = toMap b → ∀ e ∈ a, e ∈ b := by
    intro a b ha hab e he
    have := mem_toMap ha he
    rw [hab] at this
    exact toMap_mem this
  refine List.Perm.eq_of_pairwise (fun a b _ _ h1 h2 => absurd h1 (lt_asymm h2)) hl hr ?_
  refine (perm_ext_iff_of_nodup ?_ ?_).mpr fun e => ⟨mem hl h e, mem hr h.symm e⟩
  · exact hl.imp fun h he => absurd (congrArg Prod.fst he) (ne_of_lt h)
  · exact hr.imp fun h he => absurd (congrArg Prod.fst he) (ne_of_lt h)

theorem mem_edit (he : e ∈ edit k v l) : e ∈ l ∨ (e.1 = k ∧ v = some e.2) := by
  induction l with
  | nil => cases v <;> simp_all [edit]
  | cons a l ih =>
    simp only [edit] at he
    split at he
    · rcases mem_cons.mp he with rfl | he
      · simp
      rcases ih he with h | h
      · simp [h]
      · exact .inr h
    · cases v <;> split at he <;> simp_all <;> aesop

theorem edit_sorted (hl : Sorted l) (k : K) (v : Option V) : Sorted (edit k v l) := by
  induction l with
  | nil => cases v <;> simp [edit, Sorted]
  | cons e l ih =>
    obtain ⟨he, hl⟩ := sorted_cons.mp hl
    simp only [edit]
    split
    · next hlt =>
      refine sorted_cons.mpr ⟨fun a ha => ?_, ih hl⟩
      rcases mem_edit ha with h | ⟨h, -⟩
      · exact he a h
      · rw [h]; exact hlt
    next hg =>
    split
    · next hk =>
      cases v with
      | none => simpa using sorted_cons.mpr ⟨he, hl⟩
      | some v =>
        refine sorted_cons.mpr ⟨fun a ha => ?_, sorted_cons.mpr ⟨he, hl⟩⟩
        rcases mem_cons.mp ha with rfl | ha
        · exact hk
        · exact lt_trans hk (he a ha)
    next hk =>
    have heq : e.1 = k := le_antisymm (not_lt.mp hk) (not_lt.mp hg)
    cases v with
    | none => simpa using hl
    | some v => exact sorted_cons.mpr ⟨fun a ha => heq ▸ he a ha, hl⟩

/-- The abstract meaning of one edit: the map is updated at the edited key only. -/
theorem toMap_edit (hl : Sorted l) (k : K) (v : Option V) :
    toMap (edit k v l) = Function.update (toMap l) k v := by
  funext x
  induction l with
  | nil =>
    by_cases hx : x = k
    · subst hx; cases v <;> simp [edit, toMap_cons]
    · cases v <;> simp [edit, toMap_cons, hx]
  | cons e l ih =>
    obtain ⟨he, hl⟩ := sorted_cons.mp hl
    have hn : ∀ {y : K}, y ≤ e.1 → toMap l y = none := fun hy =>
      toMap_eq_none fun a ha => ne_of_gt (lt_of_le_of_lt hy (he a ha))
    simp only [edit]
    by_cases hx : x = k
    · subst hx
      simp only [Function.update_self]
      split
      · next h => rw [toMap_cons, if_neg (ne_of_gt h), ih hl, Function.update_self]
      split
      · next h =>
        cases v with
        | none => simp [toMap_cons, ne_of_lt h, hn (le_of_lt h)]
        | some v => simp [toMap_cons]
      next h =>
      cases v with
      | none => simpa using hn (not_lt.mp ‹_›)
      | some v => simp [toMap_cons]
    rw [Function.update_of_ne hx, toMap_cons]
    split
    · rw [toMap_cons, ih hl, Function.update_of_ne hx]
    split
    · cases v <;> simp [toMap_cons, hx]
    next h1 h2 =>
    have heq : e.1 = k := le_antisymm (not_lt.mp h2) (not_lt.mp h1)
    cases v <;> simp [toMap_cons, hx, heq]

theorem edit_append_left (hr : ∀ e ∈ r, k < e.1) : edit k v (l ++ r) = edit k v l ++ r := by
  induction l with
  | nil =>
    cases r with
    | nil => simp [edit]
    | cons e r =>
      have h := hr e (by simp)
      simp [edit, h, lt_asymm h]
  | cons e l ih =>
    simp only [edit, cons_append]
    split
    · rw [ih]; rfl
    · split <;> simp

theorem edit_append_right (hl : ∀ e ∈ l, e.1 < k) : edit k v (l ++ r) = l ++ edit k v r := by
  induction l with
  | nil => rfl
  | cons e l ih =>
    rw [cons_append, edit, if_pos (hl e (by simp)), ih fun a ha => hl a (by simp [ha])]
    rfl

theorem foldl_edit (h : Sorted (r ++ l)) :
    l.foldl (fun r e => edit e.1 (some e.2) r) r = r ++ l := by
  induction l generalizing r with
  | nil => simp
  | cons e l ih =>
    have hr := edit_append_right (r := []) (v := some e.2) fun a ha =>
      (sorted_append.mp h).2.2 a ha e mem_cons_self
    rw [append_nil] at hr
    rw [append_cons] at h ⊢
    rw [foldl_cons, hr]
    exact ih h

/-- Editing touches only the block a key is routed to. -/
theorem edit_append_middle (hl : ∀ e ∈ l, e.1 < k) (hr : ∀ e ∈ r, k < e.1) :
    edit k v (l ++ m ++ r) = l ++ edit k v m ++ r := by
  rw [append_assoc, edit_append_right hl, edit_append_left hr, append_assoc]

/-- A quantity that depends on keys only loses the removed entry's share and gains the
written one's. -/
theorem sum_edit (hl : Sorted l) (k : K) (v : Option V) (f : K → ℕ) :
    ((edit k v l).map fun e => f e.1).sum + (toMap l k).toList.length * f k =
      (l.map fun e => f e.1).sum + v.toList.length * f k := by
  induction l with
  | nil => cases v <;> simp [edit]
  | cons e l ih =>
    obtain ⟨he, hl⟩ := sorted_cons.mp hl
    have hn : ∀ {y : K}, y ≤ e.1 → toMap l y = none := fun hy =>
      toMap_eq_none fun a ha => ne_of_gt (lt_of_le_of_lt hy (he a ha))
    simp only [edit, toMap_cons]
    split
    · next h =>
      rw [if_neg (ne_of_gt h)]
      have := ih hl
      simp only [map_cons, sum_cons]
      omega
    split
    · next h =>
      rw [if_neg (ne_of_lt h), hn (le_of_lt h)]
      cases v <;> simp
      omega
    next h1 h2 =>
    have heq : k = e.1 := le_antisymm (not_lt.mp h1) (not_lt.mp h2)
    rw [if_pos heq]
    cases v <;> simp [heq]
    omega

theorem length_edit (hl : Sorted l) (k : K) (v : Option V) :
    (edit k v l).length + (toMap l k).toList.length = l.length + v.toList.length := by
  have h := sum_edit hl k v fun _ => 1
  simpa using h

/-- An edit that changes nothing in the map changes nothing in the list. -/
theorem edit_same (hl : Sorted l) (h : toMap l k = v) : edit k v l = l := by
  refine toMap_injective (edit_sorted hl k v) hl ?_
  rw [toMap_edit hl, ← h, Function.update_eq_self]

end SortedAssoc
