import Kasumi.DirectoryPages
import Kasumi.FallibleState

/-! Path-copying mutation of the immutable directory: `DirectoryMutator::set` with its
descent, leaf rewrite, splits on the way up and collapse of unary roots. Owner checks of
the admission are those of a live owner. -/
namespace DirectoryUpdate

open DirectoryPages FallibleState

variable {D : Type} [DecidableEq D]

/-- `DirectoryBackend`: the page arena boundary. An append may be refused by the device or
by growth admission; the store it leaves then is the backend's own affair. -/
structure DirectoryBackend (D : Type) where
  Store : Type
  digest : Page D → D
  pageCheck : PageCheck
  readPage : Store → DirectoryPageRef D → Except CoreError (Page D)
  appendPage : Store → Page D → Except CoreError (DirectoryPageRef D) × Store

abbrev DirM (B : DirectoryBackend D) (α : Type) := Prog B.Store CoreError α

variable (B : DirectoryBackend D)

def lendPage (reference : DirectoryPageRef D) : DirM B (Page D) := do
  let s ← get
  check (B.readPage s reference)

/-- `append_digested_page`: the returned reference must name the caller's digest. -/
def appendDigestedPage (page : Page D) (sha256 : D) : DirM B (DirectoryPageRef D) := do
  let reference ← (fun s => B.appendPage s page : DirM B (DirectoryPageRef D))
  if reference.sha256 ≠ sha256 then throw (.corrupt "appended directory page digest differs")
  pure reference

def load (root : DirectoryRoot D) (reference : DirectoryPageRef D) (bounds : Bounds) :
    DirM B (Page D × PageInfo) := do
  let page ← lendPage B reference
  let info ← check (validateCheckedPage B.digest page root reference B.pageCheck)
  check (bounds.check page info)
  pure (page, info)

structure Frame (D : Type) where
  reference : DirectoryPageRef D
  info : PageInfo
  child : ℕ

structure Edit (D : Type) where
  root : DirectoryRoot D
  generation : ℕ
  key : DirectoryKey
  value : Option DirectoryValue
  rewrite : Bool

structure Carry (D : Type) where
  key : DirectoryKey
  page : DirectoryPageRef D
  entries : ℕ

def Carry.record (c : Carry D) : Record D := ⟨c.key, .branch c.page c.entries⟩

structure Replacement (D : Type) where
  children : List (Carry D) := []

def Replacement.push (r : Replacement D) (carry : Carry D) : Except CoreError (Replacement D) :=
  if r.children.length ≥ 2 then throw (.corrupt "directory mutation split exceeds two pages")
  else pure ⟨r.children ++ [carry]⟩

def sumEntries : List (Carry D) → ℕ → Except CoreError ℕ
  | [], sum => pure sum
  | c :: cs, sum =>
    if sum + c.entries > maxU64 then throw (.corrupt "directory mutation entries overflow")
    else sumEntries cs (sum + c.entries)

def Replacement.entries (r : Replacement D) : Except CoreError ℕ := sumEntries r.children 0

structure PendingPage (D : Type) where
  records : List (Record D) := []

namespace PendingPage

def used (p : PendingPage D) : ℕ := headerBytes + payload p.records
def count (p : PendingPage D) : ℕ := p.records.length
def entries (p : PendingPage D) : ℕ := entriesOf p.records

def fits (p : PendingPage D) (r : Record D) : Bool := p.used + r.len ≤ directoryPageBytes

def append (p : PendingPage D) (r : Record D) : Except CoreError (PendingPage D) :=
  if p.entries + r.entries > maxU64 then
    throw (.invalidInput "directory entry count overflow")
  else pure ⟨p.records ++ [r]⟩

end PendingPage

structure Output (D : Type) where
  page : PendingPage D
  groupId : ℕ
  generation : ℕ
  level : ℕ
  /-- `usize::MAX` is `none`: the whole payload fits one page. -/
  splitTarget : Option ℕ
  remaining : ℕ
  replacement : Replacement D

namespace Output

def image (w : Output D) : Page D :=
  ⟨w.groupId, w.generation, w.level, w.page.count, w.page.used, w.page.entries, w.page.records⟩

def flush (w : Output D) : DirM B (Output D) :=
  match w.page.records with
  | [] => pure w
  | first :: _ => do
    let sha256 := B.digest w.image
    let reference ← appendDigestedPage B w.image sha256
    check reference.validate
    if reference.sha256 ≠ sha256 then throw (.corrupt "appended directory page digest differs")
    let replacement ← check (w.replacement.push ⟨first.key, reference, w.page.entries⟩)
    pure { w with page := {}, replacement := replacement }

/-- Split near half the byte population, but preserve at least two records on each side. -/
def balancedSplit (w : Output D) : Bool :=
  match w.splitTarget with
  | none => false
  | some target => w.replacement.children.isEmpty && 2 ≤ w.page.count && 2 ≤ w.remaining &&
      (target ≤ w.page.used - headerBytes || w.remaining == 2)

def append (w : Output D) (r : Record D) : DirM B (Output D) := do
  if w.remaining = 0 then throw (.corrupt "directory mutation record count exceeds plan")
  if r.value.len ≠ valueBytes w.level then
    throw (.corrupt "directory mutation value size differs")
  let w ← if !w.page.fits r || w.balancedSplit then w.flush B else pure w
  let page ← check (w.page.append r)
  pure { w with page := page, remaining := w.remaining - 1 }

def appendChild (w : Output D) (child : Carry D) : DirM B (Output D) := w.append B child.record

def finish (w : Output D) : DirM B (Replacement D) := do
  if w.remaining ≠ 0 then throw (.corrupt "directory mutation record count is incomplete")
  let w ← w.flush B
  pure w.replacement

end Output

def output (root : DirectoryRoot D) (level payload count : ℕ) : Output D where
  page := {}
  groupId := root.groupId
  generation := root.generation
  level := level
  splitTarget :=
    if payload > directoryPageBytes - headerBytes then some ((payload + 1) / 2) else none
  remaining := count
  replacement := {}

def selectChild (key : DirectoryKey) : List (Record D) → (index selected : ℕ) → ℕ
  | [], _, selected => selected
  | r :: rs, index, selected =>
    if r.key > key then selected else selectChild key rs (index + 1) index

/-- The descent loop. Levels strictly decrease, so `fuel` is the tree height. -/
def descend (root : DirectoryRoot D) (key : DirectoryKey) :
    (fuel : ℕ) → DirectoryPageRef D → Bounds → (path : List (Frame D)) →
    DirM B (DirectoryPageRef D × Page D × PageInfo × List (Frame D))
  | 0, _, _, _ => throw (.corrupt "directory child shape differs from parent")
  | fuel + 1, reference, bounds, path => do
    let (page, info) ← load B root reference bounds
    if info.level = 0 then pure (reference, page, info, path)
    else
      let selected := selectChild key page.records 0 0
      let (child, bounds) ← check (bounds.child page info selected)
      descend root key fuel child bounds (path ++ [⟨reference, info, selected⟩])

def findEntry (key : DirectoryKey) (generation : ℕ) : List (Record D) →
    Except CoreError (Option DirectoryValue)
  | [] => pure none
  | r :: rs =>
    if r.key = key then
      match r.value with
      | .leaf value => do
        value.validate r.key generation
        pure (some value)
      | .branch _ _ => throw (.corrupt "directory value exceeds page")
    else if r.key > key then pure none
    else findEntry key generation rs

def writeDue (key : DirectoryKey) (value : Option DirectoryValue) (due : Bool) (w : Output D) :
    DirM B (Output D) :=
  match value, due with
  | some value, true => w.append B ⟨key, .leaf value⟩
  | _, _ => pure w

def writeLeaf (key : DirectoryKey) (value : Option DirectoryValue) :
    List (Record D) → (inserted : Bool) → Output D → DirM B (Output D)
  | [], inserted, w => writeDue B key value (!inserted) w
  | r :: rs, inserted, w => do
    let due := !inserted && decide (r.key ≥ key)
    let w ← writeDue B key value due w
    let w ← if r.key ≠ key then w.append B r else pure w
    writeLeaf key value rs (inserted || due) w

def writeParent (position : ℕ) (replacement : List (Carry D)) :
    List (Record D) → (index : ℕ) → Output D → DirM B (Output D)
  | [], _, w => pure w
  | r :: rs, index, w => do
    let w ← if index = position then replacement.foldlM (fun w c => w.appendChild B c) w
      else w.append B r
    writeParent position replacement rs (index + 1) w

def rebuildParent (root nextRoot : DirectoryRoot D) (replacement : Replacement D)
    (frame : Frame D) : DirM B (Replacement D) := do
  let page ← lendPage B frame.reference
  let info ← check (validateCheckedPage B.digest page root frame.reference B.pageCheck)
  if info.level ≠ frame.info.level ∨ info.count ≠ frame.info.count ∨
      info.used ≠ frame.info.used ∨ info.entries ≠ frame.info.entries ∨
      info.generation ≠ frame.info.generation then
    throw (.corrupt "directory parent changed during mutation")
  let replaced ← check (nthEntry page info frame.child)
  let payload := info.used - headerBytes - replaced.key.encodedLen - branchValueBytes +
    (replacement.children.map fun c => c.key.encodedLen + branchValueBytes).sum
  let count := info.count - 1 + replacement.children.length
  let w ← writeParent B frame.child replacement.children page.records 0
    (output nextRoot info.level payload count)
  w.finish B

def collapse : (height : ℕ) → DirectoryRoot D → DirM B (DirectoryRoot D)
  | 0, nextRoot => pure nextRoot
  | height + 1, nextRoot =>
    if nextRoot.height > 1 then
      match nextRoot.page with
      | none => throw .panicked
      | some reference => do
        let (page, info) ← load B nextRoot reference (Bounds.root nextRoot)
        if info.count ≠ 1 then pure nextRoot
        else
          let (child, bounds) ← check ((Bounds.root nextRoot).child page info 0)
          let _ ← load B nextRoot child bounds
          collapse height { nextRoot with page := some child, height := nextRoot.height - 1 }
    else pure nextRoot

def raiseRoot (root nextRoot : DirectoryRoot D) (replacement : Replacement D) :
    DirM B (DirectoryRoot D) := do
  let height := max root.height 1
  let (replacement, height) ← if 2 ≤ replacement.children.length then do
      if height = maxHeight then throw (.invalidInput "directory exceeds maximum height")
      let payload := (replacement.children.map fun c => c.key.encodedLen + branchValueBytes).sum
      let w ← replacement.children.foldlM (fun w c => w.appendChild B c)
        (output nextRoot height payload 2)
      let replacement ← w.finish B
      pure (replacement, height + 1)
    else pure (replacement, height)
  let page := replacement.children.head?.map Carry.page
  pure { nextRoot with page := page, height := if page.isSome then height else 0 }

def finishPath (root nextRoot : DirectoryRoot D) (path : List (Frame D))
    (replacement : Replacement D) : DirM B (DirectoryRoot D) := do
  let replacement ← path.reverse.foldlM (rebuildParent B root nextRoot) replacement
  let entries ← check replacement.entries
  if entries ≠ nextRoot.entries then
    throw (.corrupt "directory mutation root count differs")
  let nextRoot ← raiseRoot B root nextRoot replacement
  let nextRoot ← collapse B nextRoot.height nextRoot
  check nextRoot.validate
  pure nextRoot

def nextEntries (entries : ℕ) (found value : Option DirectoryValue) : Except CoreError ℕ :=
  match found, value with
  | none, some _ =>
    if entries + 1 > maxU64 then throw (.invalidInput "directory entry count overflow")
    else pure (entries + 1)
  | some _, none => pure (entries - 1)
  | _, _ => pure entries

def editAdmitted (edit : Edit D) : DirM B (DirectoryRoot D) :=
  let nextRoot := { edit.root with generation := edit.generation }
  match edit.root.page with
  | some reference => do
    let (_, page, info, path) ← descend B edit.root edit.key edit.root.height reference
      (Bounds.root edit.root) []
    let found ← check (findEntry edit.key info.generation page.records)
    if found = edit.value ∧ edit.rewrite = false then pure nextRoot
    else
      let entries ← check (nextEntries edit.root.entries found edit.value)
      let nextRoot := { nextRoot with entries := entries }
      let recordBytes := edit.key.encodedLen + leafValueBytes
      let payload := info.used - headerBytes - (if found.isSome then recordBytes else 0) +
        (if edit.value.isSome then recordBytes else 0)
      let count := info.count - (if found.isSome then 1 else 0) +
        (if edit.value.isSome then 1 else 0)
      let w ← writeLeaf B edit.key edit.value page.records false
        (output nextRoot 0 payload count)
      let replacement ← w.finish B
      finishPath B edit.root nextRoot path replacement
  | none =>
    match edit.value with
    | none => pure nextRoot
    | some value => do
      let w ← (output nextRoot 0 (edit.key.encodedLen + leafValueBytes) 1).append B
        ⟨edit.key, .leaf value⟩
      let replacement ← w.finish B
      finishPath B edit.root { nextRoot with entries := 1 } [] replacement

inductive WriteMode where
  | edits
  | leafRewrite
  | pack
  deriving DecidableEq

/-- The part of `DirectoryMutator` that outlives one call: an operational error poisons it. -/
structure DirectoryMutator where
  failed : Bool
  mode : WriteMode

def DirectoryMutator.forEdits : DirectoryMutator := ⟨false, .edits⟩

def admitEdit (m : DirectoryMutator) (edit : Edit D) : Except CoreError Unit := do
  edit.root.validate
  edit.key.validate
  if edit.generation = 0 ∨ edit.generation < edit.root.generation then
    throw (.invalidInput "directory mutation generation is invalid")
  match edit.value with
  | some value =>
    match value.validate edit.key edit.generation with
    | .ok () => pure ()
    | .error _ => throw (.invalidInput "directory value is invalid")
  | none => pure ()
  if m.mode ≠ .edits then throw (.invalidInput "directory write workspace operation differs")

def DirectoryMutator.edit (m : DirectoryMutator) (edit : Edit D) (s : B.Store) :
    Except CoreError (DirectoryRoot D) × DirectoryMutator × B.Store :=
  if m.failed then (.error .ownerFailed, m, s)
  else match admitEdit m edit with
    | .error e => (.error e, m, s)
    | .ok () =>
      match ((editAdmitted B edit).run).run s with
      | (.ok root, t) => (.ok root, m, t)
      | (.error e, t) => (.error e, { m with failed := true }, t)

def DirectoryMutator.set (m : DirectoryMutator) (root : DirectoryRoot D) (generation : ℕ)
    (key : DirectoryKey) (value : Option DirectoryValue) (s : B.Store) :
    Except CoreError (DirectoryRoot D) × DirectoryMutator × B.Store :=
  m.edit B ⟨root, generation, key, value, false⟩ s

end DirectoryUpdate
