import Kasumi.Mutations

/-! Merge patches against RFC 7396. The specification is the recursive `MergePatch` of the RFC;
an object's members are a map, so its lists are taken in key order. -/
namespace MergePatch

open TenantTypes Mutations SortedAssoc

/-- Every object within the value lists its members in key order, once each. -/
inductive Ordered : Value → Prop
  | leaf (v : Value) (hv : isObject v = false) (ha : ∀ l, v ≠ .array l) : Ordered v
  | array (l : List Value) (h : ∀ v ∈ l, Ordered v) : Ordered (.array l)
  | object (l : List (String × Value)) (hs : Sorted l) (h : ∀ m ∈ l, Ordered m.2) :
    Ordered (.object l)

def membersOf : Value → List (String × Value)
  | .object l => l
  | _ => []

mutual

/-- `MergePatch(Target, Patch)`. -/
def mergePatch (target : Value) : Value → Value
  | .object patch => .object (patchMembers patch (membersOf target))
  | patch => patch

def patchMembers : List (String × Value) → List (String × Value) → List (String × Value)
  | [], object => object
  | (name, value) :: patch, object =>
    patchMembers patch (edit name
      (if isNull value then none
        else some (mergePatch ((toMap object name).getD .null) value)) object)

end

mutual

def nesting : Value → ℕ
  | .object l => membersNesting l + 1
  | _ => 0

def membersNesting : List (String × Value) → ℕ
  | [] => 0
  | (_, v) :: l => max (nesting v) (membersNesting l)

end

variable {target v : Value} {patch object : List (String × Value)} {depth : ℕ}

theorem patch_induction {P : Value → Prop} (leaf : ∀ v, isObject v = false → P v)
    (node : ∀ l, (∀ m ∈ l, P m.2) → P (.object l)) : ∀ v, P v
  | .object l => node l fun m _hm => patch_induction leaf node m.2
  | .null | .bool _ | .number _ | .string _ | .array _ => leaf _ rfl
termination_by v => sizeOf v
decreasing_by
  have := List.sizeOf_lt_of_mem _hm
  cases m
  simp_all
  omega

theorem mergePatch_leaf (hv : isObject v = false) : mergePatch target v = v := by
  cases v <;> simp_all [mergePatch, isObject]

theorem merge_leaf (hv : isObject v = false) : merge target depth v = .ok v := by
  cases v <;> simp_all [merge, isObject]

theorem merge_object (l : List (String × Value)) : merge target depth (.object l) =
      if depth > maxMergePatchDepth then
        fail .invalidArgument "merge patch exceeds its nesting limit" else
        match mergeMembers depth l (membersOf target) with
        | .ok merged => .ok (.object merged)
        | .error e => .error e := by
  rw [merge.eq_def]
  cases target <;> rfl

theorem nesting_leaf (hv : isObject v = false) : nesting v = 0 := by
  cases v <;> simp_all [nesting, isObject]

/-- The code's recursion is the RFC's up to the depth check, which an object fails exactly when
its nesting goes past the limit from where the recursion stands. -/
theorem merge_eq (patch target : Value) (depth : ℕ) (hd : depth ≤ maxMergePatchDepth + 1) :
    merge target depth patch =
      if depth + nesting patch ≤ maxMergePatchDepth + 1 then .ok (mergePatch target patch)
      else fail .invalidArgument "merge patch exceeds its nesting limit" := by
  induction patch using patch_induction generalizing target depth with
  | leaf v hv => rw [merge_leaf hv, nesting_leaf hv, Nat.add_zero, mergePatch_leaf hv, if_pos hd]
  | node l ih =>
    rw [merge_object, nesting]
    by_cases hg : depth > maxMergePatchDepth
    · rw [if_pos hg, if_neg (by omega)]
    rw [if_neg hg]
    -- The members are merged one depth further in.
    have hm : ∀ object, mergeMembers depth l object =
        if depth + 1 + membersNesting l ≤ maxMergePatchDepth + 1 then
          .ok (patchMembers l object)
        else fail .invalidArgument "merge patch exceeds its nesting limit" := by
      induction l with
      | nil => intro object; rw [mergeMembers, patchMembers, membersNesting, if_pos (by omega)]
      | cons m l ihl =>
        obtain ⟨name, value⟩ := m
        have ihl := ihl fun m hm => ih m (List.mem_cons_of_mem _ hm)
        intro object
        rw [mergeMembers, patchMembers, membersNesting]
        by_cases hn : isNull value
        · have hv : nesting value = 0 := by cases value <;> simp_all [nesting, isNull]
          rw [if_pos hn, if_pos hn, ihl, hv, Nat.zero_max]
        rw [if_neg hn, if_neg hn, ih _ List.mem_cons_self _ (depth + 1) (by omega)]
        by_cases hv : depth + 1 + nesting value ≤ maxMergePatchDepth + 1
        · rw [if_pos hv]
          simp only [ihl]
          exact if_congr (by omega) rfl rfl
        · rw [if_neg hv, if_neg (by omega)]
          rfl
    rw [hm, mergePatch]
    by_cases hv : depth + 1 + membersNesting l ≤ maxMergePatchDepth + 1
    · rw [if_pos hv, if_pos (by omega)]
    · rw [if_neg hv, if_neg (by omega)]
      rfl

theorem patchMembers_sorted (ho : Sorted object) : Sorted (patchMembers patch object) := by
  induction patch generalizing object with
  | nil => rwa [patchMembers]
  | cons m l ih => rw [patchMembers]; exact ih (edit_sorted ho _ _)

/-- What stands under a key after the patch: the patch decides the keys it names, and the
target keeps the others. -/
theorem toMap_patchMembers (hp : Sorted patch) (ho : Sorted object) (key : String) :
    toMap (patchMembers patch object) key = match toMap patch key with
      | none => toMap object key
      | some v =>
        if isNull v then none
        else some (mergePatch ((toMap object key).getD .null) v) := by
  induction patch generalizing object with
  | nil => rw [patchMembers, toMap_nil]
  | cons m l ih =>
    obtain ⟨name, v⟩ := m
    obtain ⟨hm, hl⟩ := sorted_cons.mp hp
    rw [patchMembers, ih hl (edit_sorted ho _ _), toMap_edit ho, toMap_cons]
    by_cases hk : key = name
    · subst hk
      have hn : toMap l key = none := toMap_eq_none fun e he => (hm e he).ne'
      simp [hn]
    · simp [hk]

theorem membersOf_sorted (hv : Ordered v) : Sorted (membersOf v) := by
  cases hv with
  | leaf v hv =>
    cases v <;> simp_all [membersOf, isObject, Sorted]
  | array => exact List.Pairwise.nil
  | object l hs => exact hs

theorem Ordered.member (hv : Ordered v) (key : String) :
    Ordered ((toMap (membersOf v) key).getD .null) := by
  have hl : ∀ m ∈ membersOf v, Ordered m.2 := by
    cases hv with
    | leaf v hv => cases v <;> simp_all [membersOf, isObject]
    | array => simp [membersOf]
    | object l _ h => exact h
  cases h : toMap (membersOf v) key with
  | none => exact .leaf _ rfl (by simp)
  | some w => exact hl _ (toMap_mem h)

theorem mergePatch_idempotent (patch : Value) (hp : Ordered patch) (target : Value)
    (ht : Ordered target) :
    mergePatch (mergePatch target patch) patch = mergePatch target patch := by
  induction patch using patch_induction generalizing target with
  | leaf v hv => rw [mergePatch_leaf hv, mergePatch_leaf hv]
  | node l ih =>
    cases hp with
    | leaf _ h => cases h
    | object l hs hl =>
    have ho := membersOf_sorted ht
    have hr : Sorted (patchMembers l (membersOf target)) := patchMembers_sorted ho
    rw [mergePatch, mergePatch, membersOf]
    -- Both lists are sorted, so it is enough to compare them key by key.
    refine congrArg Value.object (toMap_injective (patchMembers_sorted hr) hr ?_)
    funext key
    rw [toMap_patchMembers hs hr, toMap_patchMembers hs ho]
    cases hk : toMap l key with
    | none => rfl
    | some value =>
      by_cases hn : isNull value
      · simp [hn]
      · have hm := toMap_mem hk
        simpa [hn] using ih _ hm (hl _ hm) _ (ht.member key)

theorem applyMergePatch_eq_mergePatch (ht : Ordered target) (hp : Ordered (.object patch)) :
    applyMergePatch target (.object patch) =
        (if nesting (.object patch) ≤ maxMergePatchDepth + 1 then
          .ok (mergePatch target (.object patch))
        else fail .invalidArgument "merge patch exceeds its nesting limit") ∧
      (∀ key, toMap (membersOf (mergePatch target (.object patch))) key =
        match toMap patch key with
        | none => toMap (membersOf target) key
        | some value =>
          if isNull value then none
          else some (mergePatch ((toMap (membersOf target) key).getD .null) value)) ∧
      ∀ merged, applyMergePatch target (.object patch) = .ok merged →
        applyMergePatch merged (.object patch) = .ok merged := by
  have he : ∀ t, applyMergePatch t (.object patch) =
      if nesting (.object patch) ≤ maxMergePatchDepth + 1 then .ok (mergePatch t (.object patch))
      else fail .invalidArgument "merge patch exceeds its nesting limit" := by
    intro t
    rw [applyMergePatch, isObject, if_pos rfl, merge_eq _ _ _ (Nat.zero_le _), Nat.zero_add]
  refine ⟨he target, fun key => ?_, fun merged hm => ?_⟩
  · cases hp with
    | leaf _ h => cases h
    | object l hs => exact toMap_patchMembers hs (membersOf_sorted ht) key
  rw [he] at hm ⊢
  split at hm
  · next hn =>
    cases hm
    rw [if_pos hn, mergePatch_idempotent _ hp _ ht]
  · cases hm

/-- A null within a member that the target lacks leaves an empty object. -/
theorem applyMergePatch_eq_mergePatch_nulls :
    applyMergePatch (.bool true) (.object [("a", .null), ("b", .object [("c", .null)])]) =
        .ok (.object [("b", .object [])]) ∧
      applyMergePatch (.object [("b", .object [])])
          (.object [("a", .null), ("b", .object [("c", .null)])]) =
        .ok (.object [("b", .object [])]) := by
  have ht : Ordered (.bool true) := .leaf _ rfl nofun
  have hn : Ordered .null := .leaf _ rfl nofun
  have hb : Ordered (.object [("c", .null)]) := .object _ (by simp [Sorted]) (by simpa using hn)
  have hp : Ordered (.object [("a", .null), ("b", .object [("c", .null)])]) :=
    .object _ (List.pairwise_pair.mpr (by decide)) (by simpa using ⟨hn, hb⟩)
  have he : applyMergePatch (.bool true) (.object [("a", .null), ("b", .object [("c", .null)])]) =
      .ok (.object [("b", .object [])]) := by
    rw [(applyMergePatch_eq_mergePatch ht hp).1]
    rfl
  exact ⟨he, (applyMergePatch_eq_mergePatch ht hp).2.2 _ he⟩

end MergePatch
