import Kasumi.JsonUnique
import Kasumi.Scalars

/-! The key of a document under a unique index: the bytes a snapshot check compares, and the
scalars the resident index holds. -/
namespace UniqueKeys

open FallibleSteps JsonText Scalars List
open TenantTypes hiding IndexField IndexDefinition

variable {D : Type} (X : Externals D)

def encodeScalar : Scalar D → Except Error Json
  | .missing => pure (.arr [.str "missing"])
  | .null => pure (.arr [.str "null"])
  | .boolean b => pure (.arr [.str "boolean", .bool b])
  | .number n => pure (.arr [.str "number", .str (X.toText (X.normalized n))])
  | .string s => pure (.arr [.str "string", .str s])
  | .upperBound => invalid "internal bound cannot be an indexed value"

def isMissing : Scalar D → Bool
  | .missing => true
  | _ => false

def encodeFields (body : Value) : List IndexField → Except Error (List Json × Bool)
  | [] => pure ([], false)
  | field :: fields => do
    let values ← indexedValues X (X.pointer body field.path) field.kind
    match values with
    | [value] => do
      let encoded ← encodeScalar X value
      let (key, missing) ← encodeFields body fields
      pure (encoded :: key, isMissing value || missing)
    | _ => invalid "unique index has a non-scalar field"

def uniqueIndexKey (index : IndexDefinition) (body : Value) :
    Except Error (Option (List UInt8)) := do
  require index.unique .invalidArgument "equality key requires a unique index"
  let (key, missing) ← encodeFields X body index.fields
  pure (if missing then none else some (encode (.arr key)))

inductive Record where
  | live (body : Value)
  | archived (indexedFields : OrdMap String Value)

def recordValue (record : Record) (path : String) : Option Value :=
  match record with
  | .live body => X.pointer body path
  | .archived indexedFields => indexedFields.get path

def same : Scalar D → Scalar D → Bool
  | .missing, .missing => true
  | .null, .null => true
  | .boolean a, .boolean b => a == b
  | .number a, .number b => X.eq a b
  | .string a, .string b => a == b
  | .upperBound, .upperBound => true
  | _, _ => false

def sameKey : List (Scalar D) → List (Scalar D) → Bool
  | [], [] => true
  | a :: k, b :: l => same X a b && sameKey k l
  | _, _ => false

structure UniqueIndex (D : Type) where
  fields : List IndexField
  entries : List (List (Scalar D) × String)

def fieldScalars (record : Record) : List IndexField → Except Error (List (Scalar D))
  | [] => pure []
  | field :: fields => do
    let s ← scalar X (recordValue X record field.path) (some field.kind)
    let rest ← fieldScalars record fields
    pure (s :: rest)

def UniqueIndex.key (u : UniqueIndex D) (record : Record) :
    Except Error (Option (List (Scalar D))) := do
  let key ← fieldScalars X record u.fields
  pure (if key.any isMissing then none else some key)

def conflicts {α : Type} (name : String) : Except Error α :=
  fail .conflict ("unique index " ++ name ++ " conflicts")

def UniqueIndex.insert (name id : String) (u : UniqueIndex D) (record : Record) :
    Except Error (UniqueIndex D) := do
  match ← u.key X record with
  | none => pure u
  | some key =>
    if u.entries.any fun e => sameKey X key e.1 then conflicts name
    else pure { u with entries := (key, id) :: u.entries }

def meaning (value : D → ℚ) : Scalar D → Scalar ℚ
  | .missing => .missing
  | .null => .null
  | .boolean b => .boolean b
  | .number n => .number (value n)
  | .string s => .string s
  | .upperBound => .upperBound

def fieldMeaning (value : D → ℚ) (body : Value) (field : IndexField) : Option (Scalar ℚ) :=
  match scalar X (X.pointer body field.path) (some field.kind) with
  | .ok s => some (meaning value s)
  | .error _ => none

def RecordOf (fields : List IndexField) (body : Value) (record : Record) : Prop :=
  ∀ field ∈ fields, recordValue X record field.path = X.pointer body field.path

variable {X} {value : D → ℚ} {a b : Value} {k : List (Scalar D)} {index : IndexDefinition}
  {record ra : Record} {u u' : UniqueIndex D} {name id : String} {ka : Option (List (Scalar D))}
  {indexes : List IndexDefinition}

theorem same_iff (hx : Exact X value) (a b : Scalar D) :
    same X a b = true ↔ meaning value a = meaning value b := by
  cases a <;> cases b <;> simp [same, meaning, hx.eq]

theorem sameKey_iff (hx : Exact X value) (k l : List (Scalar D)) :
    sameKey X k l = true ↔ k.map (meaning value) = l.map (meaning value) := by
  induction k generalizing l with
  | nil => cases l <;> simp [sameKey]
  | cons a k ih =>
    cases l with
    | nil => simp [sameKey]
    | cons b l => simp [sameKey, same_iff hx, ih]

theorem text_iff (hx : Exact X value) (a b : D) :
    X.toText (X.normalized a) = X.toText (X.normalized b) ↔ value a = value b := by
  refine ⟨fun h => ?_, hx.canonical a b⟩
  have hv := hx.readable _ _ h
  rwa [hx.normalized, hx.normalized] at hv

theorem encodeScalar_total (h : s ≠ .upperBound) : ∃ j, encodeScalar X s = .ok j := by
  cases s with
  | upperBound => exact absurd rfl h
  | _ => exact ⟨_, rfl⟩

theorem encodeScalar_iff (hx : Exact X value) {a b : Scalar D}
    (ha : encodeScalar X a = .ok i) (hb : encodeScalar X b = .ok j) :
    i = j ↔ meaning value a = meaning value b := by
  cases a <;> cases ha <;> cases b <;> cases hb <;> simp [meaning, text_iff hx]

def Encodes (X : Externals D) : List (Scalar D) → List Json → Prop :=
  List.Forall₂ fun s j => encodeScalar X s = .ok j

theorem encoded_iff (hx : Exact X value) {is js : List Json} (hk : Encodes X k is)
    (hl : Encodes X l js) : is = js ↔ k.map (meaning value) = l.map (meaning value) := by
  induction hk generalizing l js with
  | nil => cases hl <;> simp
  | cons ha _ ih =>
    cases hl with
    | nil => simp
    | cons hb hl => simp [encodeScalar_iff hx ha hb, ih hl]

def ScalarsOf (X : Externals D) (body : Value) : List IndexField → List (Scalar D) → Prop :=
  List.Forall₂ fun field s => scalar X (X.pointer body field.path) (some field.kind) = .ok s

theorem scalarsOf_total (h : ∀ field ∈ fields,
    ∃ s, scalar X (X.pointer body field.path) (some field.kind) = .ok s) :
    ∃ k, ScalarsOf X body fields k := by
  induction fields with
  | nil => exact ⟨[], .nil⟩
  | cons field fields ih =>
    obtain ⟨s, hs⟩ := h field mem_cons_self
    obtain ⟨k, hk⟩ := ih fun f hf => h f (mem_cons_of_mem _ hf)
    exact ⟨s :: k, .cons hs hk⟩

theorem fieldMeanings_eq (h : ScalarsOf X body fields k) :
    fields.map (fieldMeaning X value body) = k.map (some ∘ meaning value) := by
  induction h with
  | nil => rfl
  | cons hs _ ih => simp [fieldMeaning, hs, ih]

theorem fieldScalars_ok (hr : RecordOf X fields body record)
    (h : ScalarsOf X body fields k) : fieldScalars X record fields = .ok k := by
  induction h with
  | nil => rfl
  | cons hs _ ih =>
    rw [fieldScalars, hr _ mem_cons_self, ok_bind hs,
      ok_bind (ih fun f hf => hr f (mem_cons_of_mem _ hf))]
    rfl

theorem encodeFields_ok (hk : ∀ field ∈ fields, field.kind.isArray = false)
    (h : ScalarsOf X body fields k) :
    ∃ js, encodeFields X body fields = .ok (js, k.any isMissing) ∧ Encodes X k js := by
  induction h with
  | nil => exact ⟨[], rfl, .nil⟩
  | cons hs _ ih =>
    obtain ⟨js, he, hj⟩ := ih fun f hf => hk f (mem_cons_of_mem _ hf)
    obtain ⟨j, hj'⟩ := encodeScalar_total (scalar_not_upperBound hs)
    refine ⟨j :: js, ?_, .cons hj' hj⟩
    rw [encodeFields, indexedValues_scalar (hk _ mem_cons_self), hs]
    simp [hj', he, bind, Except.bind, pure, Except.pure]

theorem insert_none (h : u.key X record = .ok none) : u.insert X name id record = .ok u := by
  rw [UniqueIndex.insert, ok_bind h]
  rfl

theorem insert_some (h : u.key X record = .ok (some k)) : u.insert X name id record =
    if u.entries.any fun e => sameKey X k e.1 then conflicts name
    else .ok { u with entries := (k, id) :: u.entries } := by
  rw [UniqueIndex.insert, ok_bind h]
  rfl

theorem insert_refused (h : u.key X record = .ok (some k)) :
    u.insert X name id record = conflicts name ↔
      (u.entries.any fun e => sameKey X k e.1) = true := by
  rw [insert_some h]
  split
  case isTrue h => simp [h]
  case isFalse h => simp [h, conflicts, fail]

/-- Once a record is in, another one conflicts if it did before or has the same key. -/
theorem insert_conflicts (hx : Exact X value) (ha : u.key X ra = .ok ka) (hb : u.key X rb = .ok kb)
    (hi : u.insert X name id ra = .ok u') (id' : String) :
    u'.insert X name id' rb = conflicts name ↔ u.insert X name id' rb = conflicts name ∨
      ∃ k l, ka = some k ∧ kb = some l ∧ sameKey X k l = true := by
  cases ka with
  | none =>
    rw [insert_none ha] at hi
    cases hi
    simp
  | some k =>
    rw [insert_some ha] at hi
    split at hi
    · cases hi
    cases hi
    have hb' : UniqueIndex.key X { u with entries := (k, id) :: u.entries } rb = .ok kb := hb
    cases kb with
    | none => simp [insert_none hb, insert_none hb', conflicts, fail]
    | some l =>
      have hs : sameKey X l k = sameKey X k l := by
        rw [Bool.eq_iff_iff, sameKey_iff hx, sameKey_iff hx, eq_comm]
      rw [insert_refused hb, insert_refused hb', any_cons, hs, Bool.or_eq_true, or_comm]
      simp

theorem insert_entries (ha : u.key X ra = .ok ka) (hi : u.insert X name id ra = .ok u') :
    u'.entries = u.entries ↔ ka = none := by
  cases ka with
  | none =>
    rw [insert_none ha] at hi
    cases hi
    simp
  | some k =>
    rw [insert_some ha] at hi
    split at hi
    · cases hi
    · cases hi
      simp

theorem present_of_isSome (h : (if c then none else some x).isSome) : c = false := by
  cases c with
  | true => cases h
  | false => rfl

/-- Both keys of a valid document, from the same scalars. -/
theorem keys_of_valid (hd : validateIndexes [] [] indexes = .ok ()) (hi : index ∈ indexes)
    (hu : index.unique = true)
    (hb : validateFieldValues X body (indexes.flatMap IndexDefinition.fields) = .ok ()) :
    ∃ k js, ScalarsOf X body index.fields k ∧ Encodes X k js ∧
      (∀ u r, u.fields = index.fields → RecordOf X index.fields body r →
        UniqueIndex.key X u r = .ok (if k.any isMissing then none else some k)) ∧
      uniqueIndexKey X index body =
        .ok (if k.any isMissing then none else some (encode (.arr js))) := by
  have hk := validateIndexes_scalar hu hd hi
  obtain ⟨k, hs⟩ := scalarsOf_total fun f hf => by
    obtain ⟨values, hv⟩ := validateFieldValues_ok hb f (mem_flatMap.mpr ⟨index, hi, hf⟩)
    rw [indexedValues_scalar (hk f hf)] at hv
    obtain ⟨s, hs, _⟩ := bind_ok hv
    exact ⟨s, hs⟩
  obtain ⟨js, he, hj⟩ := encodeFields_ok hk hs
  refine ⟨k, js, hs, hj, fun u r hf hr => ?_, ?_⟩
  · rw [UniqueIndex.key, hf, ok_bind (fieldScalars_ok hr hs)]
    rfl
  · rw [uniqueIndexKey, hu, he]
    rfl

def naturals : Externals ℕ where
  fromStr t := if t.toList.all Char.isDigit then some (Nat.ofDigitChars 10 t.toList 0) else none
  normalized n := n
  toText := Nat.repr
  eq a b := a == b
  pointer v path := match v with
    | .object members => (members.find? fun m => "/" ++ m.1 = path).map Prod.snd
    | _ => none

theorem naturals_exact : Exact naturals fun n => (n : ℚ) where
  eq a b := by simp [naturals]
  normalized _ := rfl
  canonical _ _ h := congrArg Nat.repr (Nat.cast_injective (R := ℚ) h)
  readable a b h := by
    have ht := congrArg (fun s : String => Nat.ofDigitChars 10 s.toList 0) h
    simpa [naturals, Nat.toList_repr] using ht

def serial : IndexDefinition := ⟨"serial", [⟨"/n", .decimal⟩], true, none⟩

def numbered (text : String) : Value := .object [("n", .string text)]

end UniqueKeys
