import Kasumi.FallibleState
import Kasumi.OrderedWrites
import Kasumi.RootCodec

/-! Root publication over two mirrored slots: selection of the durable root, publication of
a successor, and repair of the mirror. A call talks to the root file through single backend
calls; a budget of calls says where, if anywhere, the power fails. -/
namespace RootPublication

open ByteFields
open DirectoryPages (CoreError)
open FallibleState
open OrderedWrites
open RootCodec
open RootFormat

inductive RootSlot where
  | a
  | b
  deriving DecidableEq

namespace RootSlot

def forGeneration (generation : ℕ) : RootSlot := if generation % 2 = 0 then .a else .b

def other : RootSlot → RootSlot
  | a => b
  | b => a

end RootSlot

inductive RootSelection where
  | empty
  | selected (superblock : Superblock) (slot : RootSlot) (mirrored : Bool)

abbrev Slots := RootSlot → List Byte
abbrev RootFile := Device RootSlot (List Byte)

structure Failure where
  unknownCommit : Bool
  cause : CoreError

def rejected (cause : CoreError) : Failure := ⟨false, cause⟩

/-- The root file and the number of backend calls until the power fails; `none` for never. -/
structure Group where
  file : RootFile
  budget : Option ℕ

abbrev RootM := Prog Group Failure

/-- One backend call: its effect, or what it leaves behind when the power fails in it. -/
def backendCall (effect failed : RootFile → RootFile) : RootM Unit := fun g =>
  if g.budget = some 0 then (.error (rejected .io), { g with file := failed g.file })
  else (.ok (), ⟨effect g.file, g.budget.map (· - 1)⟩)

/-- A failed write may have left its bytes in flight. -/
def writeRoot (slot : RootSlot) (bytes : List Byte) : RootM Unit :=
  backendCall (·.write slot bytes) (·.write slot bytes)

def syncRoot : RootM Unit := backendCall (·.sync) id

def syncRootOrdered : RootM Unit := backendCall (·.order) id

def readRoot (slot : RootSlot) : RootM (List Byte) := do
  backendCall id id
  let g ← get
  pure (g.file.view slot)

def unknownIo (x : RootM Unit) : RootM Unit := fun g =>
  match x g with
  | (.error e, g') => (.error { e with unknownCommit := true }, g')
  | ok => ok

def refuse {α : Type} (x : Except CoreError α) : RootM α := check (x.mapError rejected)

def selectDecoded : (a b : SlotImage) → Except CoreError RootSelection
  | .valid a, .valid b =>
    if a.groupId ≠ b.groupId then throw (.corrupt "root slots name different groups")
    else if a.generation = b.generation then
      if a ≠ b then throw (.corrupt "root slots disagree at one generation")
      else pure (.selected a .a true)
    else
      let (newer, newerSlot, older) :=
        if a.generation > b.generation then (a, RootSlot.a, b) else (b, RootSlot.b, a)
      if newer.generation ≠ older.generation + 1 ∨
          RootSlot.forGeneration newer.generation ≠ newerSlot then
        throw (.corrupt "root slots are not adjacent publications")
      else if ¬ isSuccessor older newer then
        throw (.corrupt "root slots are not successive publications")
      else pure (.selected newer newerSlot false)
  | .valid valid, .invalid => pure (.selected valid .a false)
  | .invalid, .valid valid => pure (.selected valid .b false)
  | .valid _, .unwritten => throw (.corrupt "a published root slot was erased")
  | .unwritten, .valid valid =>
    -- Only the first publication leaves its mirror slot unwritten.
    if valid.generation = 1 then pure (.selected valid .b false)
    else throw (.corrupt "a published root slot was erased")
  | .unwritten, .unwritten => pure .empty
  | .unwritten, .invalid => pure .empty
  | .invalid, .invalid => throw (.corrupt "no intact root slot")
  | .invalid, .unwritten => throw (.corrupt "no intact root slot")

def selectRootImages (a b : List Byte) : Except CoreError RootSelection := do
  let a ← decodeSlot a
  let b ← decodeSlot b
  selectDecoded a b

def readSelection : RootM RootSelection := do
  let a ← readRoot .a
  let b ← readRoot .b
  refuse (selectRootImages a b)

def selectRoot : RootM RootSelection := do
  syncRoot
  readSelection

/-- Whether the previous copy must be restored before its only slot is overwritten; a
predecessor the slots do not select is refused. -/
def needsRestore (selection : RootSelection) (previous : Superblock) (first : RootSlot) :
    Except CoreError Bool :=
  match selection with
  | .empty =>
    if previous.generation = 0 then pure false
    else throw (.invalidInput "root publication does not follow the selected root")
  | .selected superblock slot mirrored =>
    if superblock = previous then pure (!mirrored && slot == first)
    else throw (.invalidInput "root publication does not follow the selected root")

def restorePrevious (previous : Superblock) (slot : RootSlot) : RootM Unit := do
  let bytes ← refuse (encode previous)
  writeRoot slot bytes
  syncRoot

/-- The first copy is ordered before the second; the second synchronization is full. -/
def writeBoth (first : RootSlot) (bytes : List Byte) : RootM Unit := do
  unknownIo (writeRoot first bytes)
  unknownIo syncRootOrdered
  unknownIo (writeRoot first.other bytes)
  unknownIo syncRoot

def publish (previous next : Superblock) : RootM Unit := do
  if ¬ isSuccessor previous next then
    throw (rejected (.invalidInput "root publication is not a successor"))
  let bytes ← refuse (encode next)
  let first := RootSlot.forGeneration next.generation
  let selection ← readSelection
  let restore ← refuse (needsRestore selection previous first)
  if restore then restorePrevious previous first.other
  writeBoth first bytes

def publishRoot (previous next : Superblock) : RootM Unit := do
  if previous.garbage.any (· ∉ next.garbage) then
    throw (rejected (.invalidInput "root publication drops garbage without an unlink proof"))
  publish previous next

def publishForget (previous : Superblock) (unlinked : Unlinked) : RootM Superblock := do
  let next ← refuse (previous.forget unlinked)
  publish previous next
  pure next

def repairAllowed (selection : RootSelection) (superblock : Superblock) (slot : RootSlot) : Bool :=
  match selection with
  | .empty => false
  | .selected held heldSlot mirrored => held == superblock && (mirrored || heldSlot == slot)

def repairMirror (superblock : Superblock) (slot : RootSlot) : RootM Unit := do
  let selection ← readSelection
  if ¬ repairAllowed selection superblock slot then
    throw (rejected (.invalidInput "mirror repair does not name the selected root slot"))
  let bytes ← refuse (encode superblock)
  writeRoot slot.other bytes
  syncRoot

end RootPublication
