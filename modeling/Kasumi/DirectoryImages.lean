import Kasumi.FallibleSteps
import Kasumi.MediaFormat

/-! The bytes of a directory page and their validation. A page that a cache retains carries the
offset of its last entry from an earlier validation, which later ones reuse. -/
namespace DirectoryImages

open ByteFields FallibleSteps
open DirectoryPages hiding Byte
open MediaFormat (magicStem decodePageRef)
open RootFormat (Digest)

def magic : List Byte := magicStem ++ [68, 73, 82, 48, 48, 48, 50]
def formatVersion : ℕ := 2

def decodeKey (bytes : List Byte) : Except CoreError (DirectoryKey × ℕ) := do
  if bytes.length < keyHeaderBytes then throw (.corrupt "directory key header is truncated")
  let tableLen := unle (slice 0 2 bytes)
  let keyLen := unle (slice 2 4 bytes)
  let kind := unle (slice 4 5 bytes)
  let tableEnd := keyHeaderBytes + tableLen
  if tableLen = 0 ∨ tableLen > maxTableBytes ∨ keyLen > maxKeyBytes ∨ kind > 1 ∨
      (kind = 0 ∧ keyLen ≠ 0) ∨ tableEnd + keyLen > bytes.length then
    throw (.corrupt "directory key is invalid")
  let table := slice keyHeaderBytes tableEnd bytes
  if ¬ isUtf8 table then throw (.corrupt "directory table name is not UTF-8")
  pure (⟨table, if kind = 1 then some (slice tableEnd (tableEnd + keyLen) bytes) else none⟩,
    tableEnd + keyLen)

def pageEntry (bytes : List Byte) (info : PageInfo) (offset : ℕ) :
    Except CoreError (DirectoryKey × List Byte × ℕ) := do
  if offset > info.used then throw (.corrupt "directory entry exceeds page")
  let (key, keyLen) ← decodeKey (slice offset info.used bytes)
  let stop := offset + keyLen + valueBytes info.level
  if stop > info.used then throw (.corrupt "directory value exceeds page")
  pure (key, slice (offset + keyLen) stop bytes, stop)

def decodeValue (key : DirectoryKey) (bytes : List Byte) (generation : ℕ) :
    Except CoreError DirectoryValue := do
  let seq := unle (slice 0 8 bytes)
  let value ← match key.row with
    | none =>
      if isZero (bytes.drop 8) then pure (DirectoryValue.table seq)
        else throw (.corrupt "directory table value is noncanonical")
    | some _ => pure (.row seq ⟨unle (slice 8 16 bytes), unle (slice 16 24 bytes),
        unle (slice 24 28 bytes), unle (slice 28 32 bytes)⟩)
  value.validate key generation
  pure value

def entryCount (info : PageInfo) (key : DirectoryKey) (value : List Byte) : Except CoreError ℕ :=
  if info.level = 0 then do
    let _ ← decodeValue key value info.generation
    pure 1
  else do
    let _ ← decodePageRef (value.take pageRefBytes)
    let count := unle (value.drop pageRefBytes)
    if count = 0 then throw (.corrupt "directory child is empty")
    pure count

/-- The entry loop of `validate_checked_page`, with `n` entries to go. -/
def scanEntries (bytes : List Byte) (info : PageInfo) : (n offset : ℕ) →
    (previous : Option DirectoryKey) → (entries last : ℕ) → Except CoreError (ℕ × ℕ × ℕ)
  | 0, offset, _, entries, last => pure (offset, entries, last)
  | n + 1, offset, previous, entries, _ => do
    let (key, value, stop) ← pageEntry bytes info offset
    if previous.any (fun p => decide (key ≤ p)) then
      throw (.corrupt "directory page keys are not strictly ordered")
    let count ← entryCount info key value
    if entries + count > maxU64 then throw (.corrupt "directory entry count overflows")
    scanEntries bytes info n stop (some key) (entries + count) offset

def header (bytes : List Byte) (last : ℕ) : PageInfo where
  generation := unle (slice 36 44 bytes)
  level := unle (slice 44 45 bytes)
  count := unle (slice 46 48 bytes)
  used := unle (slice 48 52 bytes)
  entries := unle (slice 52 60 bytes)
  last := last

variable (pageDigest : List Byte → Digest) (bytes : List Byte)

def validateCheckedPage (root : DirectoryRoot Digest) (reference : DirectoryPageRef Digest)
    (check : PageCheck) : Except CoreError PageInfo := do
  reference.validate
  if bytes.length ≠ directoryPageBytes ∨
      (check = .unchecked ∧ pageDigest bytes ≠ reference.sha256) then
    throw (.corrupt "directory page digest differs")
  if slice 0 16 bytes ≠ magic ∨ unle (slice 16 20 bytes) ≠ formatVersion ∨
      unle (slice 20 36 bytes) ≠ root.groupId ∨ unle (slice 45 46 bytes) ≠ 0 ∨
      ¬ isZero (slice 60 64 bytes) then
    throw (.corrupt "directory page header is invalid")
  let info := header bytes 0
  if info.generation = 0 ∨ info.generation > root.generation ∨ info.level ≥ maxHeight ∨
      info.count = 0 ∨ info.used < headerBytes ∨ info.used > directoryPageBytes ∨
      ¬ isZero (bytes.drop info.used) then
    throw (.corrupt "directory page bounds are invalid")
  let (offset, entries, last) ← scanEntries bytes info info.count headerBytes none 0 0
  if offset ≠ info.used ∨ entries ≠ info.entries then
    throw (.corrupt "directory page totals differ")
  pure (header bytes last)

/-- A validation of a retained page with what was recorded before it, and the record it leaves.
The recorded offset is a nonzero `u32`: a zero is a panic. -/
def validateResidentPage (root : DirectoryRoot Digest) (reference : DirectoryPageRef Digest)
    (check : PageCheck) (validated : Option ℕ) : Except CoreError PageInfo × Option ℕ :=
  match validated.filter fun last => last < 2 ^ 16 ∧ bytes.length = directoryPageBytes ∧
      unle (slice 20 36 bytes) = root.groupId ∧
      (header bytes last).generation ≤ root.generation with
  | some last => (reference.validate.map fun _ => header bytes last, validated)
  | none => match validateCheckedPage pageDigest bytes root reference check with
    | .ok info =>
      if info.last = 0 then (.error .panicked, validated) else (.ok info, some info.last)
    | .error e => (.error e, validated)

def validations (validated : Option ℕ) :
    List (DirectoryRoot Digest × DirectoryPageRef Digest) → List (Except CoreError PageInfo)
  | [] => []
  | (root, reference) :: calls =>
    let (result, recorded) := validateResidentPage pageDigest bytes root reference .digest validated
    result :: validations recorded calls

variable {pageDigest bytes}

theorem pageEntry_le (h : pageEntry bytes info off = .ok (key, v, stop)) : off ≤ stop := by
  obtain ⟨_, h⟩ := guard_ok h
  obtain ⟨⟨_, keyLen⟩, _, h⟩ := bind_ok h
  obtain ⟨_, h⟩ := guard_ok h
  cases h
  omega

theorem scanEntries_last
    (h : scanEntries bytes info n off prev es last = .ok (stop, total, found)) : n = 0 ∧
    found = last ∨ off ≤ found := by
  induction n generalizing off es last prev with
  | zero =>
    cases h
    exact .inl ⟨rfl, rfl⟩
  | succ n ih =>
    obtain ⟨⟨key, v, next⟩, he, h⟩ := bind_ok h
    obtain ⟨_, h⟩ := guard_ok h
    obtain ⟨_, _, h⟩ := bind_ok h
    obtain ⟨_, h⟩ := guard_ok h
    rcases ih h with ⟨_, hf⟩ | hf
    · exact .inr hf.ge
    · exact .inr ((pageEntry_le he).trans hf)

/-! ## The page that an image spells -/

def recordAt (bytes : List Byte) (info : PageInfo) (offset : ℕ) :
    Except CoreError (Record Digest × ℕ) := do
  let (key, value, stop) ← pageEntry bytes info offset
  if info.level = 0 then do
    let v ← decodeValue key value info.generation
    pure (⟨key, .leaf v⟩, stop)
  else do
    let page ← decodePageRef (value.take pageRefBytes)
    pure (⟨key, .branch page (unle (value.drop pageRefBytes))⟩, stop)

def recordsFrom (bytes : List Byte) (info : PageInfo) : (n offset : ℕ) →
    Except CoreError (List (Record Digest))
  | 0, _ => pure []
  | n + 1, offset => do
    let (record, stop) ← recordAt bytes info offset
    let rest ← recordsFrom bytes info n stop
    pure (record :: rest)

def pageOf (bytes : List Byte) (records : List (Record Digest)) : Page Digest :=
  let info := header bytes 0
  ⟨unle (slice 20 36 bytes), info.generation, info.level, info.count, info.used, info.entries,
    records⟩

theorem length_slice_within (h : b ≤ bs.length) : (slice a b bs).length = b - a := by
  rw [slice, List.length_take, List.length_drop]
  omega

theorem decodeKey_valid (h : decodeKey bytes = .ok (key, len)) :
    key.Valid ∧ key.encodedLen = len := by
  obtain ⟨_, h⟩ := guard_ok h
  obtain ⟨hb, h⟩ := guard_ok h
  obtain ⟨_, h⟩ := guard_ok h
  cases h
  simp only [not_or, not_and, not_not, not_lt] at hb
  obtain ⟨ht, htm, hkm, hkind, hk, hl⟩ := hb
  generalize unle (slice 0 2 bytes) = tableLen at *
  generalize unle (slice 2 4 bytes) = keyLen at *
  generalize unle (slice 4 5 bytes) = kind at *
  have htl : (slice keyHeaderBytes (keyHeaderBytes + tableLen) bytes).length = tableLen := by
    rw [length_slice_within (by omega)]
    omega
  have hrow : ((if kind = 1 then some (slice (keyHeaderBytes + tableLen)
      (keyHeaderBytes + tableLen + keyLen) bytes) else none).getD []).length = keyLen := by
    split
    · rw [Option.getD_some, length_slice_within hl]
      omega
    · exact (hk (by omega)).symm
  refine ⟨⟨fun hn => ht (htl.symm.trans (congrArg List.length hn)), htl.le.trans htm, hrow.le.trans hkm⟩, ?_⟩
  rw [DirectoryKey.encodedLen, htl, hrow]

theorem pageEntry_valid (h : pageEntry bytes info off = .ok (key, v, stop)) :
    key.Valid ∧ stop = off + key.encodedLen + valueBytes info.level := by
  obtain ⟨_, h⟩ := guard_ok h
  obtain ⟨⟨_, keyLen⟩, hk, h⟩ := bind_ok h
  obtain ⟨_, h⟩ := guard_ok h
  cases h
  obtain ⟨hv, rfl⟩ := decodeKey_valid hk
  exact ⟨hv, rfl⟩

theorem decodeValue_valid (h : decodeValue key bytes gen = .ok value) :
    value.validate key gen = .ok () := by
  unfold decodeValue at h
  cases hr : key.row with
  | none =>
    simp only [hr] at h
    split at h
    · obtain ⟨_, hp, h⟩ := bind_ok h
      cases hp
      obtain ⟨_, hv, h⟩ := bind_ok h
      cases h
      exact hv
    · cases h
  | some row =>
    simp only [hr] at h
    obtain ⟨_, hp, h⟩ := bind_ok h
    cases hp
    obtain ⟨_, hv, h⟩ := bind_ok h
    cases h
    exact hv

theorem scanEntries_page (h : scanEntries bytes info n off prev es last = .ok res) :
    ∃ rs, recordsFrom bytes info n off = .ok rs ∧ rs.length = n ∧
      validateEntries info rs off prev es last = .ok res := by
  induction n generalizing off prev es last with
  | zero => exact ⟨[], rfl, rfl, h⟩
  | succ n ih =>
    obtain ⟨⟨key, v, stop⟩, he, h⟩ := bind_ok h
    obtain ⟨hp, h⟩ := guard_ok h
    obtain ⟨count, hc, h⟩ := bind_ok h
    obtain ⟨ho, h⟩ := guard_ok h
    obtain ⟨rs, hr, hn, hv⟩ := ih h
    obtain ⟨hk, rfl⟩ := pageEntry_valid he
    have hp : ¬ (prev.map fun p => decide (key ≤ p)).getD false = true := by
      cases prev <;> exact hp
    have hl (value : RecordValue Digest) (h : value.len = valueBytes info.level) :
        off + (⟨key, value⟩ : Record Digest).len =
          off + key.encodedLen + valueBytes info.level := by
      rw [Record.len, h, Nat.add_assoc]
    cases hlv : info.level with
    | zero =>
      rw [entryCount, if_pos hlv] at hc
      obtain ⟨value, hd, hc⟩ := bind_ok hc
      cases hc
      have hat : recordAt bytes info off = .ok (⟨key, .leaf value⟩, _) :=
        (ok_bind he).trans ((if_pos hlv).trans (ok_bind hd))
      refine ⟨⟨key, .leaf value⟩ :: rs, (ok_bind hat).trans (ok_bind hr), congrArg (· + 1) hn, ?_⟩
      rw [← hl (.leaf value) (by rw [hlv]; rfl)] at hv
      rw [validateEntries]
      refine (if_neg (not_not.mpr hk)).trans ((if_neg hp).trans ?_)
      simp only [hlv]
      exact (ok_bind (decodeValue_valid hd)).trans ((if_neg ho).trans hv)
    | succ level =>
      have hlv' : ¬ info.level = 0 := by omega
      rw [entryCount, if_neg hlv'] at hc
      obtain ⟨page, hd, hc⟩ := bind_ok hc
      obtain ⟨hz, hc⟩ := guard_ok hc
      cases hc
      have hat : recordAt bytes info off = .ok (⟨key, .branch page _⟩, _) :=
        (ok_bind he).trans ((if_neg hlv').trans (ok_bind hd))
      refine ⟨⟨key, .branch page (unle (v.drop pageRefBytes))⟩ :: rs,
        (ok_bind hat).trans (ok_bind hr), congrArg (· + 1) hn, ?_⟩
      rw [← hl (.branch page _) (by rw [hlv]; rfl)] at hv
      rw [validateEntries]
      refine (if_neg (not_not.mpr hk)).trans ((if_neg hp).trans ?_)
      simp only [hlv]
      obtain ⟨_, hva, hd⟩ := bind_ok hd
      cases hd
      exact (ok_bind hva).trans ((if_neg hz).trans ((if_neg ho).trans hv))

/-- An image that passes validation spells a page that passes it, with the same result. -/
theorem image_validates_page {check : PageCheck}
    (h : validateCheckedPage pageDigest bytes root reference check = .ok info) :
    ∃ rs, recordsFrom bytes (header bytes 0) (header bytes 0).count headerBytes = .ok rs ∧
      DirectoryPages.validateCheckedPage (fun _ => pageDigest bytes) (pageOf bytes rs) root
        reference check = .ok info := by
  obtain ⟨_, hre, h⟩ := bind_ok h
  obtain ⟨hl, h⟩ := guard_ok h
  obtain ⟨hh, h⟩ := guard_ok h
  obtain ⟨hb, h⟩ := guard_ok h
  obtain ⟨⟨off, es, last⟩, hs, h⟩ := bind_ok h
  obtain ⟨ht, h⟩ := guard_ok h
  cases h
  obtain ⟨rs, hr, hn, hv⟩ := scanEntries_page hs
  refine ⟨rs, hr, ?_⟩
  refine (ok_bind hre).trans ((if_neg fun hd => hl (.inr hd)).trans
    ((if_neg fun hg => hh (.inr (.inr (.inl hg)))).trans ((if_neg fun hd => hb ?_).trans
      ((if_neg (not_not.mpr hn)).trans ((ok_bind hv).trans (if_neg ht))))))
  rcases hd with hd | hd | hd | hd | hd | hd
  exacts [.inl hd, .inr (.inl hd), .inr (.inr (.inl hd)), .inr (.inr (.inr (.inl hd))),
    .inr (.inr (.inr (.inr (.inl hd)))), .inr (.inr (.inr (.inr (.inr (.inl hd)))))]

/-- Of the root a validation reads the group and the greatest generation only. -/
structure Validated (pageDigest : List Byte → Digest) (bytes : List Byte) (last : ℕ) : Prop where
  positive : last ≠ 0
  again : ∀ root : DirectoryRoot Digest, unle (slice 20 36 bytes) = root.groupId →
    (header bytes last).generation ≤ root.generation → ∀ reference,
      validateCheckedPage pageDigest bytes root reference .digest =
        reference.validate.map fun _ => header bytes last

theorem validated_of_ok (h : validateCheckedPage pageDigest bytes root reference .digest = .ok info)
    : Validated pageDigest bytes info.last := by
  replace h := then_ok h
  obtain ⟨hl, h⟩ := guard_ok h
  obtain ⟨hh, h⟩ := guard_ok h
  obtain ⟨hb, h⟩ := guard_ok h
  obtain ⟨⟨off, es, last⟩, hs, h⟩ := bind_ok h
  obtain ⟨ht, h⟩ := guard_ok h
  cases h
  simp only [not_or, not_not, not_lt] at hh hb
  obtain ⟨hm, hv, _, hz, hpa⟩ := hh
  obtain ⟨hp, _, hle, hco, hu⟩ := hb
  constructor
  · have hf := (scanEntries_last hs).resolve_left fun hn => hco hn.1
    exact Nat.ne_of_gt (lt_of_lt_of_le (by decide) hf)
  intro other hgr hg reference
  unfold validateCheckedPage
  cases reference.validate with
  | error e => rfl
  | ok _ =>
    rw [ok_bind rfl, if_neg fun hd => hl (hd.imp_right fun hc => nomatch hc.1), if_neg (by
        simp only [not_or, not_not]
        exact ⟨hm, hv, hgr, hz, hpa⟩),
      if_neg (by
        simp only [not_or, not_not, not_lt]
        exact ⟨hp, hg, hle, hco, hu⟩),
      ok_bind hs]
    exact if_neg ht

theorem resident_step (root : DirectoryRoot Digest) (reference : DirectoryPageRef Digest)
    (h : ∀ last ∈ validated, Validated pageDigest bytes last) :
    (validateResidentPage pageDigest bytes root reference .digest validated).1 =
        validateCheckedPage pageDigest bytes root reference .digest ∧
      ∀ last ∈ (validateResidentPage pageDigest bytes root reference .digest validated).2,
        Validated pageDigest bytes last := by
  unfold validateResidentPage
  split
  · next last hl =>
    obtain ⟨hl, hr⟩ := Option.filter_eq_some_iff.mp hl
    simp only [decide_eq_true_eq] at hr
    exact ⟨((h last hl).again root hr.2.2.1 hr.2.2.2 reference).symm, h⟩
  cases hf : validateCheckedPage pageDigest bytes root reference .digest with
  | error e => exact ⟨rfl, h⟩
  | ok info =>
    have hv := validated_of_ok hf
    simp only [if_neg hv.positive]
    exact ⟨trivial, fun last hl => Option.mem_some.mp hl ▸ hv⟩

theorem validations_full (h : ∀ last ∈ validated, Validated pageDigest bytes last) :
    validations pageDigest bytes validated calls = calls.map fun call =>
      validateCheckedPage pageDigest bytes call.1 call.2 .digest := by
  induction calls generalizing validated with
  | nil => rfl
  | cons call calls ih =>
    obtain ⟨hr, hv⟩ := resident_step call.1 call.2 h
    simp only [validations, List.map_cons, hr, ih hv]

/-- Whatever validations came before, a retained page is validated as its bytes would be. -/
theorem resident_validations_are_full (pageDigest : List Byte → Digest) (bytes : List Byte)
    (calls : List (DirectoryRoot Digest × DirectoryPageRef Digest)) :
    validations pageDigest bytes none calls = calls.map fun call =>
      validateCheckedPage pageDigest bytes call.1 call.2 .digest :=
  validations_full (by simp)

end DirectoryImages
