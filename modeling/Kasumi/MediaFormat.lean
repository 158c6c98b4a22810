import Kasumi.RootFormat

/-! The encodings that root slots and log records share: CRC-32C, refused legacy images,
and the canonical bytes of a directory root. -/
namespace MediaFormat

open ByteFields
open DirectoryPages (CoreError DirectoryPageRef DirectoryRoot)
open RootFormat (Digest)

def crcStep (value : ℕ) : ℕ :=
  if value % 2 = 1 then (value / 2) ^^^ 0x82f63b78 else value / 2

/-- Entry `i` of the reflected Castagnoli table. -/
def crcTable (i : ℕ) : ℕ := crcStep^[8] i

def crc32cUpdate (crc : ℕ) (bytes : List Byte) : ℕ :=
  bytes.foldl (fun crc byte => crcTable ((crc % 256) ^^^ byte.val) ^^^ (crc / 256)) crc

def crc32c (bytes : List Byte) : ℕ := (2 ^ 32 - 1) - crc32cUpdate (2 ^ 32 - 1) bytes

theorem crc32c_fits (bs : List Byte) : Fits 4 (crc32c bs) := by
  simp only [Fits, crc32c]
  omega

-- "KASUMI-KV", the first nine bytes of every magic, and the seven bytes after it.
def magicStem : List Byte := [75, 65, 83, 85, 77, 73, 45, 75, 86]
def legacyMagic : List Byte := magicStem ++ [45, 48, 48, 48, 48, 48, 49]
def segmentMagic (version : Byte) : List Byte := magicStem ++ [83, 69, 71, 48, 48, 48, version]
def formatVersion : ℕ := 4

/-- Reject the replaced contiguous and segmented images before any other decoding. -/
def rejectLegacy (bytes : List Byte) : Except CoreError Unit := do
  if bytes.take 16 = legacyMagic then
    throw (.corrupt "unsupported KASUMI-KV-000001 single-file image")
  if bytes.take 16 = segmentMagic 49 then
    throw (.corrupt "unsupported KASUMI-KVSEG0001 segmented image")
  if bytes.take 16 = segmentMagic 50 then
    throw (.corrupt "unsupported KASUMI-KVSEG0002 segmented image")
  if bytes.take 16 = segmentMagic 51 then
    throw (.corrupt "unsupported KASUMI-KVSEG0003 segmented image")

structure PageRefTyped (r : DirectoryPageRef Digest) : Prop where
  arena : Fits 8 r.arenaId
  page : Fits 8 r.pageIndex
  digest : Fits 32 r.sha256

def encodePageRef (r : DirectoryPageRef Digest) : List Byte :=
  [le 8 r.arenaId, le 8 r.pageIndex, le 32 r.sha256].flatten

def decodePageRef (bytes : List Byte) : Except CoreError (DirectoryPageRef Digest) := do
  let reference : DirectoryPageRef Digest :=
    ⟨unle (slice 0 8 bytes), unle (slice 8 16 bytes), unle (slice 16 48 bytes)⟩
  reference.validate
  pure reference

@[simp] theorem length_encodePageRef (r : DirectoryPageRef Digest) :
    (encodePageRef r).length = 48 := by simp [encodePageRef]

theorem decodePageRef_encode (ht : PageRefTyped r)
    (hv : r.validate = .ok ()) : decodePageRef (encodePageRef r) = .ok r := by
  simp [decodePageRef, encodePageRef, unle_le ht.arena, unle_le ht.page, unle_le ht.digest, hv]

def directoryRootBytes : ℕ := 96

structure RootTyped (r : DirectoryRoot Digest) : Prop where
  group : Fits 16 r.groupId
  generation : Fits 8 r.generation
  height : Fits 1 r.height
  entries : Fits 8 r.entries
  page : ∀ p, r.page = some p → PageRefTyped p

def encodePage : Option (DirectoryPageRef Digest) → List Byte
  | none => zeros 48
  | some page => encodePageRef page

@[simp] theorem length_encodePage (page : Option (DirectoryPageRef Digest)) :
    (encodePage page).length = 48 := by cases page <;> simp [encodePage]

def directoryRootFields (r : DirectoryRoot Digest) : List (List Byte) :=
  [le 16 r.groupId, le 8 r.generation, le 1 r.height, le 1 r.page.isSome.toNat, zeros 6,
    le 8 r.entries, encodePage r.page, zeros 8]

/-- The bytes of a root that passed `validate`; both encoders call it after that check. -/
def encodeDirectoryRoot (r : DirectoryRoot Digest) : List Byte := (directoryRootFields r).flatten

def decodeDirectoryRoot (bytes : List Byte) : Except CoreError (DirectoryRoot Digest) := do
  let flag := unle (slice 25 26 bytes)
  if flag > 1 ∨ ¬ isZero (slice 26 32 bytes) ∨ ¬ isZero (slice 88 96 bytes) ∨
      (flag = 0 ∧ ¬ isZero (slice 40 88 bytes)) then
    throw (.corrupt "directory root is noncanonical")
  let page ← if flag = 0 then pure none else do
    let page ← decodePageRef (slice 40 88 bytes)
    pure (some page)
  let root : DirectoryRoot Digest :=
    ⟨unle (slice 0 16 bytes), unle (slice 16 24 bytes), page, unle (slice 24 25 bytes),
      unle (slice 32 40 bytes)⟩
  root.validate
  pure root

@[simp] theorem length_encodeDirectoryRoot (r : DirectoryRoot Digest) :
    (encodeDirectoryRoot r).length = directoryRootBytes := by
  simp [encodeDirectoryRoot, directoryRootFields, directoryRootBytes]

variable {r : DirectoryRoot Digest}

theorem DirectoryRoot.page_validate (hv : r.validate = .ok ())
    (hp : r.page = some p) : p.validate = .ok () := by
  unfold DirectoryRoot.validate at hv
  split at hv
  · cases hv
  · rw [hp] at hv; exact hv

theorem decodeDirectoryRoot_encode (ht : RootTyped r) (hv : r.validate = .ok ()) :
    decodeDirectoryRoot (encodeDirectoryRoot r) = .ok r := by
  have hf : unle (le 1 r.page.isSome.toNat) = r.page.isSome.toNat :=
    unle_le (by cases r.page <;> simp [Fits])
  simp [decodeDirectoryRoot, encodeDirectoryRoot, directoryRootFields, hf, unle_le ht.group,
    unle_le ht.generation, unle_le ht.height, unle_le ht.entries]
  rcases hp : r.page with _ | p
  · obtain ⟨g, n, pg, hg, e⟩ := r
    subst hp
    simp [encodePage, hv]
  have hd := decodePageRef_encode (ht.page p hp) (DirectoryRoot.page_validate hv hp)
  obtain ⟨g, n, pg, hg, e⟩ := r
  subst hp
  simp [encodePage, hd, hv, bind, Except.bind]

end MediaFormat
