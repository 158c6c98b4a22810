import Kasumi.FallibleSteps
import Kasumi.MergePatch

/-! Document filters: the builder, the wire form, and the two decoders that read it, the typed
one of the server and the one of the client library. A JSON text is its token tree: members in
the order written, repeated keys kept, numbers by their text. -/
namespace Filters

open TenantTypes SortedAssoc FallibleSteps MergePatch List

inductive Operator where
  | eq | ne | gt | gte | lt | lte | isIn | nin | exist | contains
  deriving DecidableEq

namespace Operator

def all : List Operator := [eq, ne, gt, gte, lt, lte, isIn, nin, exist, contains]

def name : Operator → String
  | eq => "eq"
  | ne => "ne"
  | gt => "gt"
  | gte => "gte"
  | lt => "lt"
  | lte => "lte"
  | isIn => "in"
  | nin => "nin"
  | exist => "exists"
  | contains => "contains"

def ofName (key : String) : Option Operator := all.find? fun o => o.name == key

abbrev Arg : Operator → Type
  | isIn | nin => List Value
  | exist => Bool
  | _ => Value

def write : (o : Operator) → o.Arg → Value
  | isIn, vs | nin, vs => .array vs
  | exist, b => .bool b
  | eq, v | ne, v | gt, v | gte, v | lt, v | lte, v | contains, v => v

end Operator

abbrev Condition := (o : Operator) → Option o.Arg

def isScalar : Value → Bool
  | .object _ | .array _ => false
  | _ => true

namespace Condition

def empty : Condition := fun _ => none

def one (o : Operator) (a : o.Arg) : Condition := Function.update empty o (some a)

def isEmpty (c : Condition) : Bool := Operator.all.all fun o => (c o).isNone

def shorthand (c : Condition) : Option Value :=
  (c .eq).filter fun v => (Operator.all.all fun o => o = .eq || (c o).isNone) && isScalar v

def disjoint (c d : Condition) : Bool :=
  let apart (o : Operator) := (c o).isNone || (d o).isNone
  let lower (c : Condition) := (c .gt).isSome || (c .gte).isSome
  let upper (c : Condition) := (c .lt).isSome || (c .lte).isSome
  apart .eq && apart .ne && !(lower c && lower d) && !(upper c && upper d) && apart .isIn &&
    apart .nin && apart .exist && apart .contains

def merge (c d : Condition) : Condition := fun o => (d o).or (c o)

def encode (c : Condition) : Value :=
  match c.shorthand with
  | some v => v
  | none => .object (Operator.all.filterMap fun o => (c o).map fun a => (o.name, o.write a))

end Condition

structure Filter where
  fields : OrdMap String Condition
  and : List Filter
  or : List Filter
  not : Option Filter

namespace Filter

def new : Filter := ⟨.empty, [], [], none⟩

def isAll (f : Filter) : Bool :=
  f.fields.entries.isEmpty && f.and.isEmpty && f.or.isEmpty && f.not.isNone

/-- `!filter`. -/
def neg (f : Filter) : Filter := { new with not := some f }

/-- `Filter::or`. -/
def anyOf (or : List Filter) : Filter := if or.isEmpty then neg new else { new with or }

def field (path : String) (c : Condition) : Filter := { new with fields := .insert .empty path c }

def push (f g : Filter) : Filter := { f with and := f.and ++ [g] }

-- The entry is made first, but a condition that was absent is disjoint from every other.
def withOp (f : Filter) (path : String) (o : Operator) (value : o.Arg) : Filter :=
  let condition := Condition.one o value
  let existing := (f.fields.get path).getD .empty
  if existing.disjoint condition then
    { f with fields := f.fields.insert path (existing.merge condition) }
  else f.push (field path condition)

section
variable (f : Filter) (path : String) (value : Value) (values : List Value)

def eq := f.withOp path .eq value
def ne := f.withOp path .ne value
def gt := f.withOp path .gt value
def gte := f.withOp path .gte value
def lt := f.withOp path .lt value
def lte := f.withOp path .lte value
def isIn := f.withOp path .isIn values
def notIn := f.withOp path .nin values
def exist := f.withOp path .exist true
def missing := f.withOp path .exist false
def contains := f.withOp path .contains value

end

def andField (f : Filter) (e : String × Condition) : Filter :=
  match f.fields.get e.1 with
  | none => { f with fields := f.fields.insert e.1 e.2 }
  | some existing =>
    if existing.disjoint e.2 then
      { f with fields := f.fields.insert e.1 (existing.merge e.2) }
    else f.push (field e.1 e.2)

def andOr (f : Filter) (or : List Filter) : Filter :=
  if or.isEmpty then f else if f.or.isEmpty then { f with or } else f.push (anyOf or)

def andNot (f : Filter) : Option Filter → Filter
  | none => f
  | some n => if f.not.isNone then { f with not := some n } else f.push (neg n)

/-- `Filter::and`. -/
def andAlso (f g : Filter) : Filter :=
  if f.isAll then g
  else
    let f := g.fields.entries.foldl andField f
    ({ f with and := f.and ++ g.and }.andOr g.or).andNot g.not

end Filter

def encode : Filter → Value
  | ⟨fields, all, any, no⟩ => .object (fields.entries.map (fun e => (e.1, e.2.encode)) ++
      ((if all.isEmpty then [] else [("and", .array (all.map encode))]) ++
      ((match no with | none => [] | some f => [("not", encode f)]) ++
      if any.isEmpty then [] else [("or", .array (any.map encode))])))

/-- A value read from its text: the last of repeated members stays. -/
def normal : Value → Value
  | .array items => .array (items.map normal)
  | .object members =>
    .object ((members.map fun m => (m.1, normal m.2)).foldl (fun l m => edit m.1 (some m.2) l) [])
  | v => v
decreasing_by
  · decreasing_tactic
  · next h =>
    have := sizeOf_lt_of_mem h
    cases m
    simp at this ⊢
    omega

/-- An operator of the derived reader; the inner option is none for an omitted one. -/
def Operator.read : (o : Operator) → Value → Option (Option o.Arg)
  | isIn, .array vs | nin, .array vs => some (some (vs.map normal))
  | exist, .bool b => some (some b)
  | isIn, .null | nin, .null | exist, .null => some none
  | isIn, _ | nin, _ | exist, _ => none
  | eq, v | ne, v | gt, v | gte, v | lt, v | lte, v | contains, v => some (some (normal v))

def operators (seen : List String) (c : Condition) : List (String × Value) → Option Condition
  | [] => some c
  | (key, raw) :: rest => do
    let o ← Operator.ofName key
    if seen.contains key then none
    else
      let a ← o.read raw
      operators (key :: seen) (Function.update c o a) rest

def explainCondition : List (String × Value) → String
  | [] => "each filter operator may appear only once per field"
  | (key, value) :: rest =>
    if (Operator.ofName key).isNone then
      "unknown filter operator `" ++ key ++ "`; use one of " ++
        ", ".intercalate (Operator.all.map Operator.name)
    else
      match key, value with
      | "in", .array _ | "nin", .array _ | "exists", .bool _ => explainCondition rest
      | "in", _ | "nin", _ => "`" ++ key ++ "` requires an array of values"
      | "exists", _ => "`exists` requires true or false"
      | _, _ => explainCondition rest

def condition : Value → Except String Condition
  | .object members =>
    match operators [] .empty members with
    | none => .error (explainCondition (membersOf (normal (.object members))))
    | some c =>
      if c.isEmpty then .error "a field condition requires at least one operator" else .ok c
  | .array _ => .error ("a filter value cannot be an array; use \x7b\"in\": [...]\x7d to match " ++
      "one of several values or \x7b\"contains\": value\x7d for array fields")
  | v => .ok (.one .eq (normal v))

def isPath (key : String) : Bool := key.toList.head? = some '/'

def unknownFilterKey (key : String) : String :=
  let bare := String.ofList (key.toList.dropWhile (· = '$'))
  let unknown := "unknown filter key `" ++ key ++ "`; "
  if bare ≠ key ∧ bare ∈ ["and", "or", "not"] then
    unknown ++ "combinators are written without `$`: `" ++ bare ++ "`"
  else if (Operator.ofName bare).isSome then
    unknown ++ "operators belong inside a field condition, e.g. \x7b\"/amount\": \x7b\"" ++ bare ++
      "\": 10\x7d\x7d"
  else
    unknown ++ "field paths are JSON Pointers that start with '/', e.g. `/" ++ bare ++
      "`, and combinators are `and`, `or` and `not`"

def Filter.combine (f : Filter) (key : String) (filters : List Filter) : Filter :=
  if key = "and" then { f with and := filters } else { f with or := filters }

mutual

def typed : Value → Except String Filter
  | .object members => typedEntries [] .new members
  | _ => .error "expected a filter object such as \x7b\"/status\": \"open\"\x7d"

def typedEntries (combinators : List String) (f : Filter) :
    List (String × Value) → Except String Filter
  | [] => .ok f
  | (key, raw) :: rest =>
    if isPath key then
      if f.fields.contains key then .error ("duplicate filter field `" ++ key ++ "`")
      else do
        let c ← condition raw
        typedEntries combinators { f with fields := f.fields.insert key c } rest
    else if key ∉ ["and", "or", "not"] then .error (unknownFilterKey key)
    else if key ∈ combinators then .error ("duplicate filter key `" ++ key ++ "`")
    else if key = "not" then do
      let n ← typed raw
      typedEntries (key :: combinators) { f with not := some n } rest
    else do
      let filters ← typedRows raw
      check (!filters.isEmpty) ("`" ++ key ++ "` requires at least one filter")
      typedEntries (key :: combinators) (f.combine key filters) rest

def typedRows : Value → Except String (List Filter)
  | .array rows => typedAll rows
  | _ => .error "expected a sequence"

def typedAll : List Value → Except String (List Filter)
  | [] => .ok []
  | row :: rest => do
    let f ← typed row
    let fs ← typedAll rest
    .ok (f :: fs)

end

/-- What bounds one call of the client's decoder: list lengths, filter nesting, the token scan
of a literal, and the checks of deadline and input that fail the whole call. -/
structure Limits where
  rows : ℕ → Bool
  values : ℕ → Bool
  depth : ℕ
  admits : Value → Bool
  check : Except String Unit

section
variable (L : Limits)

def literal (raw : Value) : Except String Value :=
  if L.admits raw then .ok (normal raw) else .error "native client resource budget exceeded"

def array (fits : ℕ → Bool) : Value → Except String (List Value)
  | .array rows => if fits rows.length then .ok rows else .error "too many admitted JSON rows"
  | _ => .error "bounded JSON rows"

def Operator.literal : (o : Operator) → Value → Except String o.Arg
  | isIn, raw | nin, raw => do
    let rows ← array L.values raw
    rows.mapM (Filters.literal L)
  | exist, .bool b => .ok b
  | exist, _ => .error "expected a boolean"
  | eq, raw | ne, raw | gt, raw | gte, raw | lt, raw | lte, raw | contains, raw =>
    Filters.literal L raw

def nativeOperators (c : Condition) : List (String × Value) → Except String Condition
  | [] => .ok c
  | (key, raw) :: rest => do
    let o ← demand "unknown filter operator" (Operator.ofName key)
    let a ← o.literal L raw
    nativeOperators (Function.update c o (some a)) rest

/-- `Object::new`. Entries are then taken as written, not in key order: this decides only
which of several errors is reported. -/
def object (members : List (String × Value)) : Except String Unit :=
  check (decide (members.map Prod.fst).Nodup) "duplicate typed JSON field"

def nativeCondition (raw : Value) : Except String Condition := do
  L.check
  match raw with
  | .object members =>
    object members
    let c ← nativeOperators L .empty members
    check (!c.isEmpty) "empty filter condition"
    .ok c
  | .array _ => .error "filter values cannot be arrays"
  | raw => do
    let v ← literal L raw
    .ok (.one .eq v)

mutual

def filter (depth : ℕ) (raw : Value) : Except String Filter := do
  L.check
  check (depth ≤ L.depth) "filter exceeds its nesting limit"
  match raw with
  | .object members => do
    object members
    entries depth .new members
  | _ => .error "a typed JSON object"

def entries (depth : ℕ) (f : Filter) : List (String × Value) → Except String Filter
  | [] => .ok f
  | (key, raw) :: rest =>
    if isPath key then do
      let c ← nativeCondition L raw
      entries depth { f with fields := f.fields.insert key c } rest
    else if key = "not" then do
      let n ← filter (depth + 1) raw
      entries depth { f with not := some n } rest
    else if key = "and" ∨ key = "or" then do
      let filters ← rows (depth + 1) raw
      check (!filters.isEmpty) "empty filter combinator"
      entries depth (f.combine key filters) rest
    else .error "unknown filter key"

def rows (depth : ℕ) : Value → Except String (List Filter)
  | .array rows => do
    check (L.rows rows.length) "too many admitted JSON rows"
    filters depth rows
  | _ => .error "bounded JSON rows"

def filters (depth : ℕ) : List Value → Except String (List Filter)
  | [] => .ok []
  | row :: rest => do
    let f ← filter depth row
    let fs ← filters depth rest
    .ok (f :: fs)

end

end

section
variable (D : String → (o : Operator) → o.Arg → Prop)

/-- A document, seen as the operators its fields satisfy, meets a condition. -/
def Condition.Holds (path : String) (c : Condition) : Prop := ∀ o a, c o = some a → D path o a

def Holds : Filter → Prop
  | ⟨fields, all, any, no⟩ => (∀ path c, fields.get path = some c → c.Holds D path) ∧
      (∀ g ∈ all, Holds g) ∧ (any ≠ [] → ∃ g, ∃ _ : g ∈ any, Holds g) ∧ ∀ g ∈ no, ¬ Holds g

variable {D} {f g : Filter} {path : String} {c d : Condition}

theorem holds_iff : Holds D f ↔ (∀ path c, f.fields.get path = some c → c.Holds D path) ∧
    (∀ g ∈ f.and, Holds D g) ∧ (f.or ≠ [] → ∃ g ∈ f.or, Holds D g) ∧ ∀ g ∈ f.not, ¬ Holds D g := by
  cases f
  simp only [Holds, exists_prop]

theorem merge_holds (h : c.disjoint d = true) :
    (c.merge d).Holds D path ↔ c.Holds D path ∧ d.Holds D path := by
  have hd : ∀ o, c o = none ∨ d o = none := by
    simp only [Condition.disjoint, Bool.and_eq_true, Bool.or_eq_true, Bool.not_eq_true',
      Bool.and_eq_false_iff, Bool.or_eq_false_iff, Option.isNone_iff_eq_none,
      Option.isSome_eq_false_iff] at h
    intro o
    cases o <;> grind
  simp only [Condition.Holds, Condition.merge, Option.or_eq_some_iff]
  grind

theorem one_holds (o : Operator) (a : o.Arg) : (Condition.one o a).Holds D path ↔ D path o a := by
  constructor
  · intro h
    exact h o a (Function.update_self ..)
  intro h o' a' ho
  by_cases e : o' = o
  · subst e
    rw [Condition.one, Function.update_self] at ho
    cases ho
    exact h
  · rw [Condition.one, Function.update_of_ne e] at ho
    cases ho

theorem append_holds (gs : List Filter) :
    Holds D { f with and := f.and ++ gs } ↔ Holds D f ∧ ∀ g ∈ gs, Holds D g := by
  rw [holds_iff, holds_iff (f := f)]
  simp only [mem_append, or_imp, forall_and]
  tauto

theorem push_holds : Holds D (f.push g) ↔ Holds D f ∧ Holds D g := by
  rw [Filter.push, append_holds, forall_mem_singleton]

theorem insert_holds (h : c.Holds D path ↔
      ((f.fields.get path).getD .empty).Holds D path ∧ d.Holds D path) :
    Holds D { f with fields := f.fields.insert path c } ↔ Holds D f ∧ d.Holds D path := by
  have hf : (∀ p e, (f.fields.insert path c).get p = some e → e.Holds D p) ↔
      (∀ p e, f.fields.get p = some e → e.Holds D p) ∧ d.Holds D path := by
    constructor
    · intro hi
      have hc := h.mp (hi path c (OrdMap.get_insert_self ..))
      refine ⟨fun p e he => ?_, hc.2⟩
      by_cases hp : p = path
      · subst hp
        rw [he] at hc
        exact hc.1
      · exact hi p e (by rw [OrdMap.get_insert_of_ne _ _ hp, he])
    rintro ⟨hi, hd⟩ p e he
    rw [OrdMap.get_insert] at he
    split at he
    · next hp =>
      cases he
      subst hp
      refine h.mpr ⟨?_, hd⟩
      cases hg : f.fields.get p with
      | none => exact fun o a ho => nomatch ho
      | some x => exact hi p x hg
    · exact hi p e he
  rw [holds_iff, holds_iff (f := f)]
  dsimp only
  rw [hf]
  tauto

theorem new_holds : Holds D .new := by
  rw [holds_iff]
  simp [Filter.new]

theorem field_holds : Holds D (.field path c) ↔ c.Holds D path := by
  refine (insert_holds (f := .new) (d := c) ?_).trans (and_iff_right new_holds)
  simp [Filter.new, Condition.Holds, Condition.empty]

theorem neg_holds : Holds D f.neg ↔ ¬ Holds D f := by
  rw [holds_iff]
  simp [Filter.neg, Filter.new]

theorem anyOf_holds (fs : List Filter) : Holds D (.anyOf fs) ↔ ∃ f ∈ fs, Holds D f := by
  cases fs with
  | nil => simp [Filter.anyOf, neg_holds, new_holds]
  | cons f fs =>
    rw [holds_iff]
    simp [Filter.anyOf, Filter.new]

theorem withOp_holds (o : Operator) (a : o.Arg) :
    Holds D (f.withOp path o a) ↔ Holds D f ∧ D path o a := by
  rw [← one_holds (D := D) o a, Filter.withOp]
  split
  · next h => exact insert_holds (merge_holds h)
  · rw [push_holds, field_holds]

theorem andField_holds (e : String × Condition) :
    Holds D (f.andField e) ↔ Holds D f ∧ e.2.Holds D e.1 := by
  unfold Filter.andField
  split
  · next h =>
    refine insert_holds ?_
    rw [h]
    exact (and_iff_right fun o a ho => nomatch ho).symm
  next h =>
  split
  · next hd =>
    refine insert_holds ?_
    rw [h]
    exact merge_holds hd
  · rw [push_holds, field_holds]

theorem andFields_holds (l : List (String × Condition)) :
    Holds D (l.foldl Filter.andField f) ↔ Holds D f ∧ ∀ e ∈ l, e.2.Holds D e.1 := by
  induction l generalizing f with
  | nil => simp
  | cons e l ih => rw [foldl_cons, ih, andField_holds, forall_mem_cons, and_assoc]

theorem isAll_holds (h : f.isAll = true) : Holds D f := by
  simp only [Filter.isAll, Bool.and_eq_true, List.isEmpty_iff, Option.isNone_iff_eq_none] at h
  obtain ⟨⟨⟨hf, ha⟩, ho⟩, hn⟩ := h
  rw [holds_iff]
  simp [ha, ho, hn, OrdMap.get, hf]

theorem andOr_holds (fs : List Filter) :
    Holds D (f.andOr fs) ↔ Holds D f ∧ (fs ≠ [] → ∃ g ∈ fs, Holds D g) := by
  unfold Filter.andOr
  split
  · next h => simp [isEmpty_iff.mp h]
  next h =>
  have hn : fs ≠ [] := fun e => h (by rw [e]; rfl)
  split
  · next ho =>
    rw [holds_iff, holds_iff (f := f)]
    simp only [isEmpty_iff.mp ho]
    tauto
  · rw [push_holds, anyOf_holds]
    tauto

theorem andNot_holds (n : Option Filter) :
    Holds D (f.andNot n) ↔ Holds D f ∧ ∀ g ∈ n, ¬ Holds D g := by
  cases n with
  | none => simp [Filter.andNot]
  | some n =>
    rw [Filter.andNot]
    split
    · next h =>
      rw [holds_iff, holds_iff (f := f)]
      simp only [Option.isNone_iff_eq_none.mp h]
      tauto
    · rw [push_holds, neg_holds]
      simp

theorem andAlso_holds : Holds D (f.andAlso g) ↔ Holds D f ∧ Holds D g := by
  unfold Filter.andAlso
  split
  · next h => exact (and_iff_right (isAll_holds h)).symm
  rw [andNot_holds, andOr_holds, append_holds, andFields_holds, holds_iff (f := g), Prod.forall]
  simp only [OrdMap.mem_entries]
  tauto
end

section
variable {L : Limits} {c d : Condition} {f g : Filter} {n : ℕ} {v : Value} {fs : List Filter}
  {seen : List String} {l : List (String × Value)}

theorem literal_ok (h : literal L v = .ok w) : normal v = w := by
  unfold literal at h
  split at h
  · injection h
  · cases h

theorem literals_ok {vs : List Value} (h : vs.mapM (literal L) = .ok ws) : vs.map normal = ws := by
  induction vs generalizing ws with
  | nil =>
    cases h
    rfl
  | cons v vs ih =>
    rw [mapM_cons] at h
    obtain ⟨w, hw, h⟩ := bind_ok h
    obtain ⟨ws', hws, h⟩ := bind_ok h
    cases h
    rw [map_cons, literal_ok hw, ih hws]

theorem literal_read {o : Operator} {a : o.Arg} (h : o.literal L v = .ok a) :
    o.read v = some (some a) := by
  have hl : ∀ ws : List Value, (do
      let rows ← array L.values v
      rows.mapM (literal L)) = Except.ok ws → ∃ vs, v = .array vs ∧ vs.map normal = ws := by
    intro ws h
    obtain ⟨rows, hr, hm⟩ := bind_ok h
    cases v with
    | array vs =>
      rw [array] at hr
      split at hr
      · cases hr
        exact ⟨_, rfl, literals_ok hm⟩
      · cases hr
    | _ => cases hr
  cases o with
  | isIn | nin =>
    obtain ⟨vs, rfl, rfl⟩ := hl _ h
    rfl
  | exist =>
    cases v with
    | bool b =>
      cases h
      rfl
    | _ => cases h
  | _ => exact congrArg (some ∘ some) (literal_ok h)

theorem nativeOperators_typed (h : nativeOperators L c l = .ok d) (hn : (l.map Prod.fst).Nodup)
    (hs : ∀ m ∈ l, m.1 ∉ seen) : operators seen c l = some d := by
  induction l generalizing c seen with
  | nil =>
    cases h
    rfl
  | cons m l ih =>
    obtain ⟨o, ho, h⟩ := bind_ok h
    obtain ⟨a, ha, h⟩ := bind_ok h
    obtain ⟨hm, hn⟩ := nodup_cons.mp hn
    have hk : seen.contains m.1 = false := by simpa using hs m mem_cons_self
    have hi : operators (m.1 :: seen) _ l = some d := ih h hn fun m' hm' => by
      rw [mem_cons]
      rintro (e | e)
      · exact hm (e ▸ mem_map_of_mem hm')
      · exact hs m' (mem_cons_of_mem m hm') e
    simp only [operators, demand_ok ho, Option.bind_some, hk, literal_read ha, Option.bind_eq_bind]
    exact hi

theorem nativeCondition_typed (h : nativeCondition L v = .ok c) : condition v = .ok c := by
  replace h := then_ok h
  cases v with
  | object l =>
    obtain ⟨_, hn, h⟩ := bind_ok h
    obtain ⟨d, hd, h⟩ := bind_ok h
    obtain ⟨_, he, h⟩ := bind_ok h
    cases h
    rw [condition, nativeOperators_typed hd (of_decide_eq_true (check_ok hn)) fun _ _ => not_mem_nil]
    have := check_ok he
    simp_all
  | array l => cases h
  | _ =>
    obtain ⟨w, hw, h⟩ := bind_ok h
    cases h
    cases literal_ok hw
    rfl

mutual

theorem filter_typed : ∀ {n f} (v : Value), filter L n v = .ok f → typed v = .ok f
  | _, _, v, h => by
    rw [filter.eq_def] at h
    replace h := then_ok (then_ok h)
    cases v with
    | object l =>
      obtain ⟨_, hn, h⟩ := bind_ok h
      rw [typed]
      exact entries_typed l h (of_decide_eq_true (check_ok hn)) fun _ _ => ⟨rfl, not_mem_nil⟩
    | _ => cases h

-- The keys still to come are new, so no check of the typed decoder for a repeated one fails.
theorem entries_typed : ∀ {n f g seen} (l : List (String × Value)), entries L n f l = .ok g →
    (l.map Prod.fst).Nodup → (∀ m ∈ l, f.fields.contains m.1 = false ∧ m.1 ∉ seen) →
      typedEntries seen f l = .ok g
  | _, _, _, _, [], h, _, _ => by
    rw [entries] at h
    rw [typedEntries, h]
  | _, f, _, seen, (key, raw) :: rest, h, hn, hs => by
    obtain ⟨hm, hn⟩ := nodup_cons.mp hn
    have hk := hs _ mem_cons_self
    have hr := fun m hm => hs m (mem_cons_of_mem _ hm)
    have hne : ∀ m ∈ rest, m.1 ≠ key := by
      rintro m hm' rfl
      exact hm (mem_map.mpr ⟨m, hm', rfl⟩)
    have hseen : ∀ m ∈ rest, f.fields.contains m.1 = false ∧ m.1 ∉ key :: seen := fun m hm =>
      ⟨(hr m hm).1, not_mem_cons_of_ne_of_not_mem (hne m hm) (hr m hm).2⟩
    rw [entries] at h
    rw [typedEntries]
    split at h
    · next hp =>
      rw [if_pos hp, if_neg (by simp [hk.1])]
      obtain ⟨c, hc, h⟩ := bind_ok h
      rw [ok_bind (nativeCondition_typed hc)]
      refine entries_typed rest h hn fun m hm => ⟨?_, (hr m hm).2⟩
      rw [OrdMap.contains, OrdMap.get_insert_of_ne _ _ (hne m hm)]
      exact (hr m hm).1
    next hp =>
    rw [if_neg hp]
    split at h
    · next hnot =>
      rw [if_neg (by simp [hnot]), if_neg hk.2, if_pos hnot]
      obtain ⟨x, hx, h⟩ := bind_ok h
      rw [ok_bind (filter_typed raw hx)]
      exact entries_typed rest h hn hseen
    next hnot =>
    split at h
    · next ha =>
      rw [if_neg (by simp; tauto), if_neg hk.2, if_neg hnot]
      obtain ⟨fs, hf, h⟩ := bind_ok h
      obtain ⟨_, he, h⟩ := bind_ok h
      rw [ok_bind (rows_typed raw hf), ok_bind (check_true (check_ok he))]
      refine entries_typed rest h hn fun m hm => ?_
      rw [Filter.combine]
      split <;> exact hseen m hm
    · cases h

theorem rows_typed : ∀ {n fs} (v : Value), rows L n v = .ok fs → typedRows v = .ok fs
  | _, _, v, h => by
    cases v with
    | array l =>
      rw [rows] at h
      rw [typedRows]
      exact filters_typed l (then_ok h)
    | _ => cases h

theorem filters_typed : ∀ {n fs} (l : List Value), filters L n l = .ok fs → typedAll l = .ok fs
  | _, _, [], h => by
    rw [filters] at h
    rw [typedAll, h]
  | _, _, v :: l, h => by
    rw [filters] at h
    obtain ⟨f, hf, h⟩ := bind_ok h
    obtain ⟨fs, hl, h⟩ := bind_ok h
    cases h
    rw [typedAll, ok_bind (filter_typed v hf), ok_bind (filters_typed l hl)]

end

theorem normal_ordered (h : Ordered v) : normal v = v := by
  induction h with
  | leaf v hv ha =>
    cases v with
    | object l => cases hv
    | array l => exact (ha l rfl).elim
    | _ => simp [normal]
  | array l _ ih => rw [normal, map_congr_left ih, map_id']
  | object l hs _ ih =>
    have hl : ∀ m ∈ l, (m.1, normal m.2) = m := fun m hm => by rw [ih m hm]
    rw [normal, map_congr_left hl, map_id', foldl_edit (r := []) hs, nil_append]

variable (L) in
/-- An operand within the limits, whose objects are maps. -/
def Operator.Fits : (o : Operator) → o.Arg → Prop
  | isIn, vs | nin, vs => L.values vs.length = true ∧ ∀ v ∈ vs, Ordered v ∧ L.admits v = true
  | exist, _ => True
  | eq, v | ne, v | gt, v | gte, v | lt, v | lte, v | contains, v =>
    Ordered v ∧ L.admits v = true

theorem literal_of (h : Ordered v ∧ L.admits v = true) : literal L v = .ok v := by
  rw [literal, if_pos h.2, normal_ordered h.1]

theorem literal_write {o : Operator} {a : o.Arg} (h : o.Fits L a) :
    o.literal L (o.write a) = .ok a := by
  have hl : ∀ vs, (L.values vs.length = true ∧ ∀ v ∈ vs, Ordered v ∧ L.admits v = true) → (do
      let rows ← array L.values (.array vs)
      rows.mapM (literal L)) = .ok vs := by
    intro vs hv
    rw [array, if_pos hv.1]
    exact (mapM_ok (r := id) fun v hm => literal_of (hv.2 v hm)).trans (by rw [map_id])
  cases o with
  | isIn | nin => exact hl a h
  | exist => rfl
  | _ => exact literal_of h

theorem ofName_name (o : Operator) : Operator.ofName o.name = some o := by
  cases o <;> decide

variable (L) in
def Condition.Fits (c : Condition) : Prop :=
  c.isEmpty = false ∧ ∀ o a, c o = some a → o.Fits L a

/-- Reading the operators in `l` of a condition copies them. -/
theorem nativeOperators_encode (hc : ∀ o a, c o = some a → o.Fits L a) (l : List Operator) :
    nativeOperators L d (l.filterMap fun o => (c o).map fun a => (o.name, o.write a)) =
      .ok fun o => if o ∈ l then (c o).or (d o) else d o := by
  induction l generalizing d with
  | nil => rfl
  | cons o l ih =>
    cases ho : c o with
    | none =>
      rw [filterMap_cons_none (by rw [ho]; rfl), ih]
      congr 1
      funext x
      by_cases hx : x = o
      · subst hx
        simp [ho]
      · simp [hx]
    | some a =>
      rw [filterMap_cons_some (by rw [ho]; rfl), nativeOperators, ok_bind (demand_some (ofName_name o)),
        ok_bind (literal_write (hc o a ho)), ih]
      congr 1
      funext x
      by_cases hx : x = o
      · subst hx
        simp [ho]
      · simp [hx]

theorem nativeCondition_encode (hL : L.check = .ok ()) (h : c.Fits L) :
    nativeCondition L c.encode = .ok c := by
  unfold nativeCondition
  rw [ok_bind hL, Condition.encode]
  cases hs : c.shorthand with
  | some v =>
    obtain ⟨he, hv⟩ := Option.filter_eq_some_iff.mp hs
    rw [Bool.and_eq_true] at hv
    have hc : Condition.one .eq v = c := by
      funext o
      have ho := all_eq_true.mp hv.1 o (by cases o <;> decide)
      by_cases e : o = .eq
      · subst e
        rw [he]
        rfl
      rw [Condition.one, Function.update_of_ne e]
      simp only [e, decide_false, Bool.false_or, Option.isNone_iff_eq_none] at ho
      exact ho.symm
    have hw := literal_of (h.2 _ _ he)
    cases v with
    | object | array => cases hv.2
    | _ =>
      dsimp only
      rw [ok_bind hw, hc]
  | none =>
    have hn : ((Operator.all.filterMap fun o => (c o).map fun a =>
        (o.name, o.write a)).map Prod.fst).Nodup := by
      have hp : Operator.all.Pairwise fun o o' => o.name ≠ o'.name := by decide
      refine pairwise_map.mpr (hp.filterMap _ ?_)
      intro o o' hne b hb b' hb'
      obtain ⟨_, -, rfl⟩ := Option.map_eq_some_iff.mp hb
      obtain ⟨_, -, rfl⟩ := Option.map_eq_some_iff.mp hb'
      exact hne
    dsimp only
    rw [object, ok_bind (check_true (decide_eq_true hn)), ok_bind (nativeOperators_encode h.2 _)]
    have hc : (fun o => if o ∈ Operator.all then (c o).or (Condition.empty o) else
        Condition.empty o) = c := by
      funext o
      rw [if_pos (by cases o <;> decide)]
      exact Option.or_none
    rw [hc, ok_bind (check_true (by rw [h.1]; rfl))]

variable (L) in
/-- A filter the client's decoder takes at this nesting: paths for keys, an operator in every
condition, operands and lists within the limits. -/
inductive Wire : ℕ → Filter → Prop
  | mk {n fields all any no} (hd : n ≤ L.depth)
    (hf : ∀ e ∈ fields.entries, isPath e.1 = true ∧ e.2.Fits L)
    (ha : L.rows all.length = true) (ho : L.rows any.length = true)
    (hs : ∀ f ∈ all ++ any ++ no.toList, Wire (n + 1) f) : Wire n ⟨fields, all, any, no⟩

theorem filters_encode (h : ∀ f ∈ fs, filter L n (encode f) = .ok f) :
    filters L n (fs.map encode) = .ok fs := by
  induction fs with
  | nil => rfl
  | cons f fs ih =>
    rw [map_cons, filters, ok_bind (h f mem_cons_self),
      ok_bind (ih fun f hf => h f (mem_cons_of_mem _ hf))]

theorem entries_fields (hL : L.check = .ok ()) {l : List (String × Condition)}
    (hl : ∀ e ∈ l, isPath e.1 = true ∧ e.2.Fits L) (m : OrdMap String Condition)
    (rest : List (String × Value)) :
    entries L n ⟨m, [], [], none⟩ (l.map (fun e => (e.1, e.2.encode)) ++ rest) =
      entries L n ⟨l.foldl (fun m e => m.insert e.1 e.2) m, [], [], none⟩ rest := by
  induction l generalizing m with
  | nil => rfl
  | cons e l ih =>
    have he := hl e mem_cons_self
    rw [map_cons, cons_append, entries, if_pos he.1, ok_bind (nativeCondition_encode hL he.2)]
    exact ih (fun e he => hl e (mem_cons_of_mem _ he)) _

theorem entries_rows (hf : ∀ f ∈ fs, filter L (n + 1) (encode f) = .ok f)
    (hr : L.rows fs.length = true) (hk : key = "and" ∨ key = "or") (rest : List (String × Value)) :
    entries L n f ((if fs.isEmpty then [] else [(key, .array (fs.map encode))]) ++ rest) =
      entries L n (if fs.isEmpty then f else f.combine key fs) rest := by
  split
  · rfl
  next he =>
  have hp : isPath key = false ∧ key ≠ "not" := by
    rcases hk with rfl | rfl <;> decide
  rw [cons_append, nil_append, entries, if_neg (by simp [hp.1]), if_neg hp.2, if_pos hk, rows,
    length_map, ok_bind (check_true hr), ok_bind (filters_encode hf),
    ok_bind (check_true (by simp [he]))]

/-- Paths and combinators are different keys, and a map repeats no path. -/
theorem keys_nodup {m : OrdMap String Condition} {t : List (String × Value)}
    (hm : ∀ e ∈ m.entries, isPath e.1 = true ∧ e.2.Fits L)
    (ht : t.map Prod.fst <+ ["and", "not", "or"]) :
    ((m.entries.map (fun e => (e.1, e.2.encode)) ++ t).map Prod.fst).Nodup := by
  rw [map_append, map_map]
  refine nodup_append.mpr ⟨m.keys_nodup, ht.nodup (by decide), ?_⟩
  rintro _ ha key hb rfl
  obtain ⟨e, he, rfl⟩ := mem_map.mp ha
  have hp : ∀ key ∈ ["and", "not", "or"], isPath key = false := by decide
  exact Bool.false_ne_true ((hp e.1 (ht.subset hb)).symm.trans (hm e he).1)

theorem filter_encode (hL : L.check = .ok ()) (h : Wire L n f) : filter L n (encode f) = .ok f := by
  induction h with
  | @mk n fields all any no hd hf ha ho _ ih =>
    have hor : ∀ x, entries L n ⟨fields, all, [], x⟩
        (if any.isEmpty then [] else [("or", .array (any.map encode))]) =
          .ok ⟨fields, all, any, x⟩ := by
      intro x
      have h := entries_rows (f := ⟨fields, all, [], x⟩) (fun f hf => ih f (by simp [hf])) ho
        (.inr rfl) []
      rw [append_nil] at h
      rw [h]
      cases any <;> rfl
    have hand : (if all.isEmpty then ⟨fields, [], [], none⟩ else
        Filter.combine ⟨fields, [], [], none⟩ "and" all) = ⟨fields, all, [], none⟩ := by
      cases all <;> rfl
    rw [encode.eq_def]
    dsimp only
    rw [filter, ok_bind hL, ok_bind (check_true (decide_eq_true hd)), object,
      ok_bind (check_true (decide_eq_true (keys_nodup hf ?_))), Filter.new, entries_fields hL hf,
      OrdMap.foldl_insert, entries_rows (fun f hf => ih f (by simp [hf])) ha (.inl rfl)]
    · rw [hand]
      cases no with
      | none => exact hor none
      | some f =>
        rw [cons_append, nil_append, entries, if_neg (by decide), if_pos rfl,
          ok_bind (ih f (by simp))]
        exact hor (some f)
    · cases all <;> cases no <;> cases any <;> simp

end

/-- The limits of a call; what the token scan of a literal admits is given. -/
def Limits.ofCall (maxRows : ℕ) (admits : Value → Bool) (check : Except String Unit) : Limits :=
  ⟨(· ≤ maxRows), (· ≤ min 256 maxRows), 16, admits, check⟩

def unlimited : Limits := ⟨fun _ => true, fun _ => true, 16, fun _ => true, .ok ()⟩

/-- The builder means what its methods say, both decoders read a filter back from its text, and
a text the client's decoder takes has the same filter for the typed one. -/
theorem filter_meaning_kept (D : String → (o : Operator) → o.Arg → Prop) (f g : Filter)
    (fs : List Filter) (path : String) (v : Value) (vs : List Value) :
    (Holds D (f.andAlso g) ↔ Holds D f ∧ Holds D g) ∧
    (∀ m ∈ ([(f.eq path v, ⟨.eq, v⟩), (f.ne path v, ⟨.ne, v⟩), (f.gt path v, ⟨.gt, v⟩),
        (f.gte path v, ⟨.gte, v⟩), (f.lt path v, ⟨.lt, v⟩), (f.lte path v, ⟨.lte, v⟩),
        (f.isIn path vs, ⟨.isIn, vs⟩), (f.notIn path vs, ⟨.nin, vs⟩),
        (f.exist path, ⟨.exist, true⟩), (f.missing path, ⟨.exist, false⟩),
        (f.contains path v, ⟨.contains, v⟩)] : List (Filter × (o : Operator) × o.Arg)),
      (Holds D m.1 ↔ Holds D f ∧ D path m.2.1 m.2.2)) ∧
    (Holds D (.anyOf fs) ↔ ∃ f ∈ fs, Holds D f) ∧ (Holds D f.neg ↔ ¬ Holds D f) ∧
    (Wire unlimited 0 f → typed (encode f) = .ok f) ∧
    ∀ maxRows admits check, let L := Limits.ofCall maxRows admits check
      (check = .ok () → Wire L 0 f → filter L 0 (encode f) = .ok f) ∧
      ∀ text, filter L 0 text = .ok f → typed text = .ok f := by
  refine ⟨andAlso_holds, ?_, anyOf_holds fs, neg_holds, ?_, ?_⟩
  · simp only [forall_mem_cons]
    and_intros
    all_goals first | exact withOp_holds _ _ | exact fun _ h => nomatch h
  · intro h
    exact filter_typed _ (filter_encode rfl h)
  · intro _ _ _
    exact ⟨fun hc h => filter_encode (L := .ofCall ..) hc h, fun text h => filter_typed text h⟩

theorem one_fits {o : Operator} {a : o.Arg} (h : o.Fits L a) : (Condition.one o a).Fits L := by
  constructor
  · cases o <;> rfl
  intro o' a' ha
  by_cases e : o' = o
  · subst e
    rw [Condition.one, Function.update_self] at ha
    cases ha
    exact h
  · rw [Condition.one, Function.update_of_ne e] at ha
    cases ha

theorem field_wire {o : Operator} {a : o.Arg} (hd : n ≤ L.depth) (hp : isPath path = true)
    (hr : L.rows 0 = true) (h : o.Fits L a) : Wire L n (.field path (.one o a)) := by
  refine .mk hd ?_ hr hr nofun
  intro e he
  cases mem_singleton.mp he
  exact ⟨hp, one_fits h⟩

def samplePoint : Value := .object [("x", .number "1"), ("y", .number "2")]

def nestedFilter : Filter where
  fields := .insert .empty "/at" (.one .eq samplePoint)
  and := [.field "/age" (.one .gt (.number "3"))]
  or := [.field "/kind" (.one .isIn [.null, .string "a"]), .field "/tag" (.one .exist false)]
  not := some (.anyOf [.field "/list" (.one .contains (.bool true))])

theorem samplePoint_ordered : Ordered samplePoint := by
  refine .object _ (pairwise_pair.mpr (by decide)) fun m hm => ?_
  rcases mem_pair.mp hm with rfl | rfl <;> exact .leaf _ rfl nofun

theorem nestedFilter_wire (hd : 2 ≤ L.depth) (hr : ∀ n ≤ 2, L.rows n = true)
    (hv : L.values 2 = true) (ha : ∀ v, L.admits v = true) : Wire L 0 nestedFilter := by
  have h0 := hr 0 (by decide)
  have leaf {v : Value} (ho : Mutations.isObject v = false) (hl : ∀ l, v ≠ .array l) :
      Ordered v ∧ L.admits v = true := ⟨.leaf v ho hl, ha v⟩
  refine .mk (Nat.zero_le _) ?_ (hr 1 (by decide)) (hr 2 le_rfl) ?_
  · intro e he
    cases mem_singleton.mp he
    exact ⟨by decide, one_fits ⟨samplePoint_ordered, ha _⟩⟩
  have h1 : 1 ≤ L.depth := le_trans (by decide) hd
  simp only [Option.toList, cons_append, nil_append, forall_mem_cons]
  refine ⟨field_wire h1 (by decide) h0 (leaf rfl nofun), field_wire h1 (by decide) h0 ⟨hv, ?_⟩,
    field_wire h1 (by decide) h0 trivial, ?_, nofun⟩
  · intro v hm
    rcases mem_pair.mp hm with rfl | rfl <;> exact leaf rfl nofun
  · refine .mk h1 nofun h0 (hr 1 (by decide)) ?_
    intro f hf
    cases mem_singleton.mp hf
    exact field_wire hd (by decide) h0 (leaf rfl nofun)

theorem filter_meaning_kept_nested :
    typed (encode nestedFilter) = .ok nestedFilter ∧
    filter (.ofCall 2 (fun _ => true) (.ok ())) 0 (encode nestedFilter) = .ok nestedFilter := by
  have h := (filter_meaning_kept (fun _ _ _ => True) nestedFilter .new [] "" .null []).2.2.2.2
  refine ⟨h.1 (nestedFilter_wire ?_ ?_ rfl fun _ => rfl),
    (h.2 _ _ _).1 rfl (nestedFilter_wire ?_ ?_ rfl fun _ => rfl)⟩
  · decide
  · exact fun _ _ => rfl
  · change 2 ≤ 16
    decide
  · exact fun n hn => decide_eq_true hn

end Filters
