import Kasumi.ByteFields

/-! Immutable directory pages: keys, values, page references, page images and their
validation. Numbers are naturals, with the width of the source's type checked where the
source checks it. A page image keeps its decoded header and records; byte sizes are those
of the encoded records, so every split and fit decision is the one made on bytes. -/
namespace DirectoryPages

/-- `CoreErrorCause`; the payloads of I/O errors and panics are dropped. -/
inductive CoreError where
  | io
  | allocationRefused
  | corrupt (message : String)
  | capacityDenied
  | ownerFailed
  | closed
  | invalidInput (message : String)
  | missingTable
  | panicked
  deriving DecidableEq

def CoreError.isCorrupt : CoreError → Bool
  | .corrupt _ => true
  | _ => false

abbrev Byte := Fin 256

def directoryPageBytes : ℕ := 16 * 1024
def headerBytes : ℕ := 64
def keyHeaderBytes : ℕ := 5
def leafValueBytes : ℕ := 32
def pageRefBytes : ℕ := 48
def branchValueBytes : ℕ := pageRefBytes + 8
def maxTableBytes : ℕ := 1024
def maxKeyBytes : ℕ := 4096
def maxValueBytes : ℕ := 40 * 1024 * 1024
def maxEncodedKey : ℕ := keyHeaderBytes + maxTableBytes + maxKeyBytes
def maxHeight : ℕ := 48
def segmentBytes : ℕ := 64 * 1024 * 1024
def segmentHeaderBytes : ℕ := 64
def recordHeaderBytes : ℕ := 36
def putPrefixBytes : ℕ := 16
def maxU64 : ℕ := 2 ^ 64 - 1

/-- Table entries sort before that table's rows. The table name is its UTF-8 bytes. -/
@[ext] structure DirectoryKey where
  table : List Byte
  row : Option (List Byte)

namespace DirectoryKey

/-- The order of the source: table bytes first, then an absent row before every row. -/
def order (k : DirectoryKey) : List Byte ×ₗ WithBot (List Byte) := toLex (k.table, k.row)

theorem order_injective : Function.Injective order := by
  intro a b h
  obtain ⟨h1, h2⟩ := Prod.mk.inj (toLex.injective h)
  exact DirectoryKey.ext h1 h2

instance : LinearOrder DirectoryKey := LinearOrder.lift' order order_injective

def Valid (k : DirectoryKey) : Prop :=
  k.table ≠ [] ∧ k.table.length ≤ maxTableBytes ∧ (k.row.getD []).length ≤ maxKeyBytes

instance (k : DirectoryKey) : Decidable k.Valid := inferInstanceAs (Decidable (_ ∧ _ ∧ _))

def validate (k : DirectoryKey) : Except CoreError Unit :=
  if k.Valid then pure () else throw (.invalidInput "directory key exceeds storage limits")

def encodedLen (k : DirectoryKey) : ℕ :=
  keyHeaderBytes + k.table.length + (k.row.getD []).length

end DirectoryKey

@[ext] structure ValueLocation where
  segmentId : ℕ
  offset : ℕ
  len : ℕ
  crc : ℕ
  deriving DecidableEq

/-- Overflow of the end offset needs no branch of its own: it exceeds a segment. -/
def ValueLocation.validate (v : ValueLocation) : Except CoreError Unit :=
  if v.segmentId = 0 ∨ v.len > maxValueBytes ∨
      v.offset < segmentHeaderBytes + (recordHeaderBytes + putPrefixBytes) ∨
      v.offset + v.len > segmentBytes then
    throw (.corrupt "value location is out of bounds")
  else pure ()

inductive DirectoryValue where
  | table (birthSeq : ℕ)
  | row (batchSeq : ℕ) (value : ValueLocation)
  deriving DecidableEq

def DirectoryValue.validate (v : DirectoryValue) (key : DirectoryKey) (generation : ℕ) :
    Except CoreError Unit := do
  let seq ← match key.row, v with
    | none, .table birthSeq => pure birthSeq
    | some _, .row batchSeq value => do
      value.validate
      pure batchSeq
    | _, _ => throw (.corrupt "directory key and value kinds differ")
  if seq = 0 ∨ seq > generation then
    throw (.corrupt "directory version exceeds its page")

/-- The digest type is a parameter: nothing below computes with digest bytes. -/
structure DirectoryPageRef (D : Type) where
  arenaId : ℕ
  pageIndex : ℕ
  sha256 : D
  deriving DecidableEq

variable {D : Type}

def DirectoryPageRef.validate (r : DirectoryPageRef D) : Except CoreError Unit :=
  if r.arenaId = 0 ∨ r.arenaId = maxU64 ∨ r.pageIndex = maxU64 then
    throw (.corrupt "directory page reference is invalid")
  else pure ()

structure DirectoryRoot (D : Type) where
  groupId : ℕ
  generation : ℕ
  page : Option (DirectoryPageRef D)
  height : ℕ
  entries : ℕ
  deriving DecidableEq

def DirectoryRoot.validate (r : DirectoryRoot D) : Except CoreError Unit :=
  if (r.generation = 0 ∧ r.page.isSome) ∨
      (r.page.isNone ∧ (r.height ≠ 0 ∨ r.entries ≠ 0)) ∨
      (r.page.isSome ∧ (r.height = 0 ∨ r.height > maxHeight ∨ r.entries = 0)) then
    throw (.corrupt "directory root is invalid")
  else match r.page with
    | some page => page.validate
    | none => pure ()

/-- The value field of a page record: 32 bytes in a leaf, 56 bytes in a branch. -/
inductive RecordValue (D : Type) where
  | leaf (value : DirectoryValue)
  | branch (page : DirectoryPageRef D) (entries : ℕ)

def valueBytes (level : ℕ) : ℕ := if level = 0 then leafValueBytes else branchValueBytes

def RecordValue.len : RecordValue D → ℕ
  | .leaf _ => leafValueBytes
  | .branch _ _ => branchValueBytes

structure Record (D : Type) where
  key : DirectoryKey
  value : RecordValue D

def Record.len (r : Record D) : ℕ := r.key.encodedLen + r.value.len

def Record.entries (r : Record D) : ℕ :=
  match r.value with
  | .leaf _ => 1
  | .branch _ n => n

def payload (rs : List (Record D)) : ℕ := (rs.map Record.len).sum
def entriesOf (rs : List (Record D)) : ℕ := (rs.map Record.entries).sum

@[simp] theorem payload_nil : payload ([] : List (Record D)) = 0 := rfl
@[simp] theorem payload_cons (r : Record D) (rs) : payload (r :: rs) = r.len + payload rs := by
  simp [payload]
@[simp] theorem payload_append (rs ts : List (Record D)) :
    payload (rs ++ ts) = payload rs + payload ts := by simp [payload]
@[simp] theorem entriesOf_nil : entriesOf ([] : List (Record D)) = 0 := rfl
@[simp] theorem entriesOf_cons (r : Record D) (rs) :
    entriesOf (r :: rs) = r.entries + entriesOf rs := by simp [entriesOf]
@[simp] theorem entriesOf_append (rs ts : List (Record D)) :
    entriesOf (rs ++ ts) = entriesOf rs + entriesOf ts := by simp [entriesOf]

/-- One page image. Magic, version and reserved bytes are constants of the format; the
records are the `count` entries decoded from the `used` bytes. -/
structure Page (D : Type) where
  groupId : ℕ
  generation : ℕ
  level : ℕ
  count : ℕ
  used : ℕ
  entries : ℕ
  records : List (Record D)

structure PageInfo where
  level : ℕ
  count : ℕ
  used : ℕ
  entries : ℕ
  generation : ℕ
  last : ℕ

def PageInfo.header (page : Page D) (last : ℕ) : PageInfo :=
  ⟨page.level, page.count, page.used, page.entries, page.generation, last⟩

def pageEntry (rs : List (Record D)) (start offset : ℕ) : Except CoreError (Record D × ℕ) :=
  match rs with
  | [] => throw (.corrupt "directory entry exceeds page")
  | r :: rs => if offset = start then pure (r, start + r.len)
    else pageEntry rs (start + r.len) offset

inductive PageCheck where
  | unchecked
  | digest
  deriving DecidableEq

/-- The entry loop of `validate_checked_page`: offset, previous key, running entry count
and the offset of the last entry seen are the loop's variables. -/
def validateEntries (info : PageInfo) : List (Record D) → (offset : ℕ) →
    (previous : Option DirectoryKey) → (entries last : ℕ) → Except CoreError (ℕ × ℕ × ℕ)
  | [], offset, _, entries, last => pure (offset, entries, last)
  | r :: rs, offset, previous, entries, _ => do
    if ¬ r.key.Valid then throw (.corrupt "directory key is invalid")
    if (previous.map fun p => decide (r.key ≤ p)).getD false then
      throw (.corrupt "directory page keys are not strictly ordered")
    let count ← match info.level, r.value with
      | 0, .leaf value => do
        value.validate r.key info.generation
        pure 1
      | _ + 1, .branch page count => do
        page.validate
        if count = 0 then throw (.corrupt "directory child is empty")
        pure count
      | _, _ => throw (.corrupt "directory value exceeds page")
    if entries + count > maxU64 then throw (.corrupt "directory entry count overflows")
    validateEntries info rs (offset + r.len) (some r.key) (entries + count) offset

/-- Validate a page image whose digest `check` says the backend already verified. -/
def validateCheckedPage [DecidableEq D] (digest : Page D → D) (page : Page D)
    (root : DirectoryRoot D) (reference : DirectoryPageRef D) (check : PageCheck) :
    Except CoreError PageInfo := do
  reference.validate
  if check = .unchecked ∧ digest page ≠ reference.sha256 then
    throw (.corrupt "directory page digest differs")
  if page.groupId ≠ root.groupId then throw (.corrupt "directory page header is invalid")
  let info := PageInfo.header page 0
  if info.generation = 0 ∨ info.generation > root.generation ∨ info.level ≥ maxHeight ∨
      info.count = 0 ∨ info.used < headerBytes ∨ info.used > directoryPageBytes then
    throw (.corrupt "directory page bounds are invalid")
  if page.records.length ≠ info.count then throw (.corrupt "directory page totals differ")
  let (offset, entries, last) ← validateEntries info page.records headerBytes none 0 0
  if offset ≠ info.used ∨ entries ≠ info.entries then
    throw (.corrupt "directory page totals differ")
  pure { info with last := last }

def validatePage [DecidableEq D] (digest : Page D → D) (page : Page D) (root : DirectoryRoot D)
    (reference : DirectoryPageRef D) : Except CoreError PageInfo :=
  validateCheckedPage digest page root reference .unchecked

def nthEntry (page : Page D) (info : PageInfo) (index : ℕ) : Except CoreError (Record D) :=
  if index ≥ info.count then throw (.corrupt "directory child index exceeds page")
  else match page.records[index]? with
    | some r => pure r
    | none => throw (.corrupt "directory entry exceeds page")

/-- What an ancestor path demands of the next page. An absent separator is the source's
empty key buffer. -/
structure Bounds where
  lower : Option DirectoryKey
  upper : Option DirectoryKey
  entries : ℕ
  level : ℕ
  generation : ℕ

def Bounds.root (root : DirectoryRoot D) : Bounds :=
  ⟨none, none, root.entries, root.height - 1, root.generation⟩

/-- The last child keeps its parent's upper limit; earlier children receive the next
sibling's minimum instead. -/
def Bounds.child (b : Bounds) (page : Page D) (info : PageInfo) (index : ℕ) :
    Except CoreError (DirectoryPageRef D × Bounds) := do
  let entry ← nthEntry page info index
  let upper ← if index + 1 < info.count then do
      let next ← nthEntry page info (index + 1)
      pure (some next.key)
    else pure b.upper
  match entry.value with
  | .branch child entries => do
    child.validate
    pure (child, ⟨some entry.key, upper, entries, info.level - 1, info.generation⟩)
  | .leaf _ => throw (.corrupt "directory value exceeds page")

def Bounds.check (b : Bounds) (page : Page D) (info : PageInfo) : Except CoreError Unit := do
  if info.level ≠ b.level ∨ info.entries ≠ b.entries ∨ info.generation > b.generation then
    throw (.corrupt "directory child shape differs from parent")
  match b.lower with
  | some lower => do
    let first ← nthEntry page info 0
    if first.key ≠ lower then throw (.corrupt "directory child minimum differs from parent")
  | none => pure ()
  match b.upper with
  | some upper => do
    let (final, _) ← pageEntry page.records headerBytes info.last
    if final.key ≥ upper then throw (.corrupt "directory child exceeds parent range")
  | none => pure ()

end DirectoryPages
