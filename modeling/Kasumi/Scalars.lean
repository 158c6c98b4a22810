import Kasumi.TenantFrames

/-! Scalar values of indexed fields: exact decimals, the order of types, and the definitions and
documents that declare them. -/
namespace Scalars

open FallibleSteps TenantFrames
open TenantTypes hiding IndexField IndexDefinition
open TenantAccess (validateName)

inductive ScalarType where
  | string
  | number
  | boolean
  | decimal
  | stringArray
  | numberArray
  deriving DecidableEq

structure IndexField where
  path : String
  kind : ScalarType

structure IndexDefinition where
  name : String
  fields : List IndexField
  unique : Bool
  text : Option String

inductive Scalar (D : Type) where
  | missing
  | null
  | boolean (b : Bool)
  | number (n : D)
  | string (s : String)
  | upperBound

/-- The libraries the checks call: exact decimals of type `D`, and lookup by pointer. -/
structure Externals (D : Type) where
  fromStr : String → Option D
  normalized : D → D
  toText : D → String
  eq : D → D → Bool
  pointer : Value → String → Option Value

variable {D : Type} (X : Externals D)

/-- A decimal library is exact when `value` is what its numbers stand for: equality is numerical,
and a normalized number has one text. -/
structure Exact (value : D → ℚ) : Prop where
  eq : ∀ a b, X.eq a b = true ↔ value a = value b
  normalized : ∀ a, value (X.normalized a) = value a
  canonical : ∀ a b, value a = value b → X.toText (X.normalized a) = X.toText (X.normalized b)
  readable : ∀ a b, X.toText a = X.toText b → value a = value b

def invalid {α : Type} (message : String) : Except Error α := fail .invalidArgument message

def splitExponent (text : List Char) : List Char × List Char :=
  match text.span fun c => c ≠ 'e' && c ≠ 'E' with
  | (coefficient, _ :: exponent) => (coefficient, exponent)
  | (_, []) => (text, ['0'])

def parseI32 (text : List Char) : Option ℤ :=
  let (negative, digits) := match text with
    | '-' :: digits => (true, digits)
    | '+' :: digits => (false, digits)
    | digits => (false, digits)
  if digits.isEmpty || !digits.all Char.isDigit then none else
    let n : ℤ := Nat.ofDigitChars 10 digits 0
    let n := if negative then -n else n
    if -2 ^ 31 ≤ n ∧ n < 2 ^ 31 then some n else none

def decimal (text : String) : Except Error D := do
  require (text.utf8ByteSize ≤ 256) .invalidArgument "number exceeds 256-byte limit"
  let (coefficient, exponent) := splitExponent text.toList
  require (coefficient.countP Char.isDigit ≤ 100) .invalidArgument
    "number exceeds 100 significant/input digits"
  let exponent ← demand ⟨.invalidArgument, "invalid numeric exponent"⟩ (parseI32 exponent)
  require (-1000 ≤ exponent ∧ exponent ≤ 1000) .invalidArgument
    "numeric exponent must be between -1000 and 1000"
  let number ← demand ⟨.invalidArgument, "invalid exact decimal"⟩ (X.fromStr text)
  pure (X.normalized number)

def mismatch {α : Type} : Except Error α := invalid "value does not match the declared scalar type"

def scalar (value : Option Value) (kind : Option ScalarType) : Except Error (Scalar D) :=
  match value with
  | none => pure .missing
  | some .null => pure .null
  | some (.string text) => match kind with
    | some .decimal => Scalar.number <$> decimal X text
    | some .string | some .stringArray | none => pure (.string text)
    | _ => mismatch
  | some (.number text) => match kind with
    | some .number | some .numberArray | none => Scalar.number <$> decimal X text
    | _ => mismatch
  | some (.bool b) => match kind with
    | some .boolean | none => pure (.boolean b)
    | _ => mismatch
  | _ => mismatch

def arrayScalars (kind : ScalarType) : List Value → Except Error (List (Scalar D))
  | [] => pure []
  | .null :: _ => invalid "indexed array elements cannot be null"
  | v :: values => do
    let s ← scalar X (some v) (some kind)
    let rest ← arrayScalars kind values
    pure (s :: rest)

def ScalarType.isArray (kind : ScalarType) : Bool := kind = .stringArray || kind = .numberArray

def indexedValues (value : Option Value) (kind : ScalarType) :
    Except Error (List (Scalar D)) :=
  if kind.isArray then
    match value with
    | none => pure [.missing]
    | some .null => pure [.null]
    | some (.array values) => do
      require (values.length ≤ 4096) .invalidArgument "indexed arrays are limited to 4096 values"
      arrayScalars X kind values
    | _ => invalid "array index requires an array"
  else do
    let s ← scalar X value (some kind)
    pure [s]

def escapesValid : List Char → Bool
  | [] => true
  | '~' :: '0' :: rest => escapesValid rest
  | '~' :: '1' :: rest => escapesValid rest
  | c :: rest => c ≠ '~' && escapesValid rest

def validatePointer (path : String) : Except Error Unit := do
  require (path.utf8ByteSize ≤ 1024 && (path.isEmpty || path.toList.head? = some '/'))
    .invalidArgument "field must be a JSON Pointer of at most 1024 bytes"
  require (escapesValid path.toList) .invalidArgument "invalid JSON Pointer escape"

def validateFields (index : IndexDefinition) :
    (paths : List String) → (types : List (String × ScalarType)) → List IndexField →
      Except Error (List (String × ScalarType))
  | _, types, [] => pure types
  | paths, types, field :: fields => do
    validatePointer field.path
    require (!paths.contains field.path) .invalidArgument "duplicate field in index"
    require ((types.lookup field.path).all (· = field.kind)) .invalidArgument
      "conflicting declared types for indexed path"
    require (index.text.isNone || field.kind = .string || field.kind = .stringArray)
      .invalidArgument "text indexes require string or string_array fields"
    require (!(index.unique && field.kind.isArray)) .invalidArgument
      "unique indexes require scalar fields"
    validateFields index (field.path :: paths) ((field.path, field.kind) :: types) fields

def validateIndexes : (names : List String) → (types : List (String × ScalarType)) →
    List IndexDefinition → Except Error Unit
  | _, _, [] => pure ()
  | names, types, index :: indexes => do
    validateName index.name
    require (!names.contains index.name) .invalidArgument "duplicate index name"
    require (!(index.fields.isEmpty || index.fields.length > 8)) .invalidArgument
      "indexes require 1–8 fields"
    let types ← validateFields index [] types index.fields
    require (!(index.text.isSome && index.unique)) .invalidArgument "text indexes cannot be unique"
    validateIndexes (index.name :: names) types indexes

def validateFieldValues (body : Value) : List IndexField → Except Error Unit
  | [] => pure ()
  | field :: fields =>
    match indexedValues X (X.pointer body field.path) field.kind with
    | .ok _ => validateFieldValues body fields
    | .error e => fail .schemaViolation (field.path ++ ": " ++ e.message)

variable {X} {types : List (String × ScalarType)}

theorem scalar_not_upperBound (h : scalar X v kind = .ok s) : s ≠ .upperBound := by
  rintro rfl
  unfold scalar at h
  split at h
  · cases h
  · cases h
  all_goals try split at h
  all_goals first
    | cases h
    | cases hd : decimal X ‹String› <;> rw [hd] at h <;> cases h

theorem indexedValues_scalar (h : kind.isArray = false) :
    indexedValues X v kind = (do let s ← scalar X v (some kind); pure [s]) := by
  simp [indexedValues, h]

theorem validateFields_scalar (hu : index.unique = true)
    (h : validateFields index paths types fields = .ok types') :
    ∀ field ∈ fields, field.kind.isArray = false := by
  induction fields generalizing paths types with
  | nil => exact fun _ hm => nomatch hm
  | cons field fields ih =>
    replace h := then_ok h
    replace h := then_ok h
    replace h := then_ok h
    replace h := then_ok h
    obtain ⟨_, hk, h⟩ := bind_ok h
    intro f hf
    rcases List.mem_cons.mp hf with rfl | hf
    · simpa [hu] using require_ok hk
    · exact ih h f hf

/-- A unique index of a validated definition has scalar fields only. -/
theorem validateIndexes_scalar (hu : index.unique = true)
    (h : validateIndexes names types idx = .ok u) (hi : index ∈ idx) :
    ∀ field ∈ index.fields, field.kind.isArray = false := by
  induction idx generalizing names types with
  | nil => cases hi
  | cons first idx ih =>
    replace h := then_ok h
    replace h := then_ok h
    replace h := then_ok h
    obtain ⟨_, hf, h⟩ := bind_ok h
    replace h := then_ok h
    rcases List.mem_cons.mp hi with rfl | hi
    · exact validateFields_scalar hu hf
    · exact ih h hi

theorem validateFieldValues_ok (h : validateFieldValues X body fields = .ok u) : ∀ field ∈ fields,
      ∃ values, indexedValues X (X.pointer body field.path) field.kind = .ok values := by
  induction fields with
  | nil => exact fun _ hm => nomatch hm
  | cons field fields ih =>
    unfold validateFieldValues at h
    split at h
    case h_1 values hv =>
      intro f hf
      rcases List.mem_cons.mp hf with rfl | hf
      · exact ⟨values, hv⟩
      · exact ih h f hf
    case h_2 => cases h

end Scalars
