import Kasumi.SortedAssoc

/-! Finite maps over a linear order, held as strictly sorted association lists. The order
of the entries is a field, so a map is determined by its lookups and iterates in key order. -/

structure OrdMap (K V : Type) [LinearOrder K] where
  entries : List (K × V)
  sorted : SortedAssoc.Sorted entries

namespace OrdMap

open List SortedAssoc

variable {K V W V' : Type} [LinearOrder K] {m : OrdMap K V} {k : K} {v : V} {n : OrdMap K V'}

instance [DecidableEq V] : DecidableEq (OrdMap K V) := fun m n =>
  decidable_of_iff (m.entries = n.entries) ⟨fun h => by cases m; cases n; cases h; rfl,
    fun h => h ▸ rfl⟩

def empty : OrdMap K V := ⟨[], List.Pairwise.nil⟩

instance : Inhabited (OrdMap K V) := ⟨empty⟩

def get (m : OrdMap K V) (k : K) : Option V := SortedAssoc.toMap m.entries k

def set (m : OrdMap K V) (k : K) (v : Option V) : OrdMap K V :=
  ⟨SortedAssoc.edit k v m.entries, edit_sorted m.sorted k v⟩

def insert (m : OrdMap K V) (k : K) (v : V) : OrdMap K V := m.set k (some v)

def remove (m : OrdMap K V) (k : K) : OrdMap K V := m.set k none

def contains (m : OrdMap K V) (k : K) : Bool := (m.get k).isSome

def keys (m : OrdMap K V) : List K := m.entries.map Prod.fst

def values (m : OrdMap K V) : List V := m.entries.map Prod.snd

def size (m : OrdMap K V) : ℕ := m.entries.length

def weight (f : K → V → ℕ) (m : OrdMap K V) : ℕ := (m.entries.map fun e => f e.1 e.2).sum

theorem ext_get {n : OrdMap K V} (h : ∀ k, m.get k = n.get k) : m = n := by
  have := toMap_injective m.sorted n.sorted (funext h)
  cases m; cases n; cases this; rfl

@[simp] theorem get_empty (k : K) : (empty : OrdMap K V).get k = none := rfl

theorem get_set (m : OrdMap K V) (k : K) (v : Option V) (x : K) :
    (m.set k v).get x = if x = k then v else m.get x := by
  have h := congrFun (toMap_edit m.sorted k v) x
  rw [Function.update_apply] at h
  exact h

@[simp] theorem get_set_self (m : OrdMap K V) (k : K) (v : Option V) : (m.set k v).get k = v := by
  rw [get_set, if_pos rfl]

theorem get_set_of_ne (m : OrdMap K V) (v : Option V) (h : x ≠ k) :
    (m.set k v).get x = m.get x := by
  rw [get_set, if_neg h]

@[simp] theorem get_insert_self (m : OrdMap K V) (k : K) (v : V) :
    (m.insert k v).get k = some v := get_set_self m k (some v)

theorem get_insert (m : OrdMap K V) (k : K) (v : V) (x : K) :
    (m.insert k v).get x = if x = k then some v else m.get x := get_set m k (some v) x

theorem get_insert_of_ne (m : OrdMap K V) (v : V) (h : x ≠ k) :
    (m.insert k v).get x = m.get x := get_set_of_ne m (some v) h

@[simp] theorem get_remove_self (m : OrdMap K V) (k : K) : (m.remove k).get k = none :=
  get_set_self m k none

theorem get_remove (m : OrdMap K V) (k : K) (x : K) :
    (m.remove k).get x = if x = k then none else m.get x := get_set m k none x

theorem get_remove_of_ne (m : OrdMap K V) (h : x ≠ k) :
    (m.remove k).get x = m.get x := get_set_of_ne m none h

theorem contains_iff : m.contains k = true ↔ ∃ v, m.get k = some v := by
  exact Option.isSome_iff_exists

theorem mem_entries : (k, v) ∈ m.entries ↔ m.get k = some v :=
  ⟨fun h => mem_toMap m.sorted h, toMap_mem⟩

theorem mem_keys : k ∈ m.keys ↔ m.contains k = true := by
  rw [contains_iff]
  constructor
  · intro h
    obtain ⟨e, he, rfl⟩ := mem_map.mp h
    exact ⟨e.2, mem_entries.mp he⟩
  · rintro ⟨v, h⟩
    exact mem_map.mpr ⟨(k, v), mem_entries.mpr h, rfl⟩

theorem mem_values : v ∈ m.values ↔ ∃ k, m.get k = some v := by
  constructor
  · intro h
    obtain ⟨e, he, rfl⟩ := mem_map.mp h
    exact ⟨e.1, mem_entries.mp he⟩
  · rintro ⟨k, h⟩
    exact mem_map.mpr ⟨(k, v), mem_entries.mpr h, rfl⟩

theorem keys_nodup (m : OrdMap K V) : m.keys.Nodup := by
  unfold keys
  have h := m.sorted
  rw [List.Nodup, pairwise_map]
  exact h.imp fun hl => ne_of_lt hl

theorem foldl_insert (m : OrdMap K V) : m.entries.foldl (fun n e => n.insert e.1 e.2) empty = m :=
  ext_get fun k => congrArg (SortedAssoc.toMap · k)
    ((foldl_hom entries fun _ _ => rfl).symm.trans (foldl_edit (r := []) m.sorted))

theorem weight_set (f : K → V → ℕ) (m : OrdMap K V) (k : K) (v : Option V) :
    (m.set k v).weight f + ((m.get k).map (f k)).getD 0 = m.weight f + (v.map (f k)).getD 0 := by
  obtain ⟨l, hl⟩ := m
  unfold weight set get
  dsimp only
  induction l with
  | nil => cases v <;> simp [SortedAssoc.edit]
  | cons e l ih =>
    obtain ⟨he, hl⟩ := sorted_cons.mp hl
    have hn : ∀ {y : K}, y ≤ e.1 → SortedAssoc.toMap l y = none := fun hy =>
      toMap_eq_none fun a ha => ne_of_gt (lt_of_le_of_lt hy (he a ha))
    simp only [SortedAssoc.edit, toMap_cons]
    split
    · next h =>
      rw [if_neg (ne_of_gt h)]
      have := ih hl
      simp only [map_cons, sum_cons]
      omega
    split
    · next h =>
      rw [if_neg (ne_of_lt h), hn (le_of_lt h)]
      cases v <;> simp
      omega
    next h1 h2 =>
    have heq : k = e.1 := le_antisymm (not_lt.mp h1) (not_lt.mp h2)
    rw [if_pos heq]
    cases v <;> simp only [heq, Option.map_none, Option.map_some, Option.toList_none,
      Option.toList_some, Option.getD_none, Option.getD_some, nil_append,
      singleton_append, map_cons, sum_cons] <;> omega

theorem size_eq_weight (m : OrdMap K V) : m.size = m.weight fun _ _ => 1 := by
  simp [size, weight]

theorem size_set (m : OrdMap K V) (k : K) (v : Option V) :
    (m.set k v).size + (m.get k).toList.length = m.size + v.toList.length := by
  have h := weight_set (fun _ _ => 1) m k v
  rw [size_eq_weight, size_eq_weight]
  cases hm : m.get k <;> cases v <;> simp_all

theorem toMap_map (f : K → V → W) (l : List (K × V)) (k : K) : SortedAssoc.toMap (l.map fun e =>
    (e.1, f e.1 e.2)) k = (SortedAssoc.toMap l k).map (f k) := by
  induction l with
  | nil => rfl
  | cons e l ih =>
    rw [map_cons, toMap_cons, toMap_cons]
    by_cases hk : k = e.1
    · rw [if_pos hk, if_pos hk, hk]
      rfl
    · rw [if_neg hk, if_neg hk, ih]

theorem entries_map_congr {f : K → V → W} {g : K → V' → W}
    (h : ∀ k, (n.get k).map (g k) = (m.get k).map (f k)) :
    (n.entries.map fun e => (e.1, g e.1 e.2)) = m.entries.map fun e => (e.1, f e.1 e.2) := by
  apply toMap_injective
  · unfold SortedAssoc.Sorted
    rw [pairwise_map]
    exact n.sorted
  · unfold SortedAssoc.Sorted
    rw [pairwise_map]
    exact m.sorted
  funext k
  rw [toMap_map, toMap_map]
  exact h k

theorem weight_congr {f : K → V → ℕ} {g : K → V' → ℕ}
    (h : ∀ k, (n.get k).map (g k) = (m.get k).map (f k)) : n.weight g = m.weight f := by
  have he := congrArg (List.map Prod.snd) (entries_map_congr h)
  rw [map_map, map_map] at he
  exact congrArg List.sum he

def filterMap {W : Type} (f : K → V → Option W) (m : OrdMap K V) : OrdMap K W where
  entries := m.entries.filterMap fun e => (f e.1 e.2).map fun w => (e.1, w)
  sorted := by
    have h := m.sorted
    unfold SortedAssoc.Sorted at h ⊢
    rw [List.pairwise_filterMap]
    refine h.imp fun hlt b hb c hc => ?_
    obtain ⟨_, _, rfl⟩ := Option.map_eq_some_iff.mp hb
    obtain ⟨_, _, rfl⟩ := Option.map_eq_some_iff.mp hc
    exact hlt

theorem get_filterMap (f : K → V → Option W) (m : OrdMap K V) (k : K) :
    (m.filterMap f).get k = (m.get k).bind (f k) := by
  apply Option.ext
  intro w
  rw [← mem_entries, Option.bind_eq_some_iff]
  constructor
  · intro h
    obtain ⟨e, he, hw⟩ := mem_filterMap.mp h
    obtain ⟨w', hf, heq⟩ := Option.map_eq_some_iff.mp hw
    cases heq
    exact ⟨e.2, mem_entries.mp he, hf⟩
  rintro ⟨v, hv, hf⟩
  refine mem_filterMap.mpr ⟨(k, v), mem_entries.mpr hv, ?_⟩
  rw [hf]
  rfl

end OrdMap

abbrev OrdSet (K : Type) [LinearOrder K] := OrdMap K Unit

namespace OrdSet

variable {K : Type} [LinearOrder K]

def add (s : OrdSet K) (k : K) : OrdSet K := s.insert k ()

def ofList (l : List K) : OrdSet K := l.foldl add OrdMap.empty

theorem contains_add (s : OrdSet K) (k x : K) :
    (s.add k).contains x = (decide (x = k) || s.contains x) := by
  unfold add OrdMap.contains
  rw [OrdMap.get_insert]
  by_cases h : x = k <;> simp [h]

end OrdSet
