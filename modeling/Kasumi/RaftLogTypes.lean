import Kasumi.FallibleSteps
import Kasumi.TenantTypes

/-! Entries of the Raft log and the records that describe them: the control header of an
entry, the seed retained with a retirement and the rows a store keeps for one index. -/
namespace RaftLogTypes

open FallibleSteps TenantTypes

abbrev Bytes := List UInt8

structure LogId where
  term : ℕ
  node : ℕ
  index : ℕ
  deriving DecidableEq

/-- Positions are ordered by their leader before their index. -/
def LogId.lt (a b : LogId) : Bool :=
  a.term < b.term || (a.term == b.term &&
    (a.node < b.node || (a.node == b.node && a.index < b.index)))

def LogId.Word (id : LogId) : Prop :=
  id.term < wordSize ∧ id.node < wordSize ∧ id.index < wordSize

def positionLt : Option LogId → Option LogId → Bool
  | _, none => false
  | none, some _ => true
  | some a, some b => a.lt b

inductive RaftCommand
  | application (bytes : Bytes)
  | retirement (application seed : Bytes)
  | custody (bytes : Bytes)
  deriving DecidableEq

def RaftCommand.bytes : RaftCommand → Bytes
  | .application bytes => bytes
  | .retirement body _ => body
  | .custody bytes => bytes

inductive EntryPayload (M : Type)
  | blank
  | membership (membership : M)
  | normal (command : RaftCommand)
  deriving DecidableEq

def EntryPayload.isNormal {M : Type} : EntryPayload M → Bool
  | .normal _ => true
  | _ => false

structure Entry (M : Type) where
  logId : LogId
  payload : EntryPayload M
  initialization : Option Bytes
  deriving DecidableEq

def Entry.index {M : Type} (entry : Entry M) : ℕ := entry.logId.index

inductive HeaderPayload (M : Type)
  | blank
  | membership (membership : M)
  | application (commandSha256 : String)
  | custody (commandSha256 : String)
  | retirement (commandSha256 seedSha256 : String)

structure LogHeader (M : Type) where
  logId : LogId
  entrySha256 : String
  payload : HeaderPayload M
  initialization : Option Bytes

def HeaderPayload.closed {M : Type} : HeaderPayload M → Bool
  | .custody _ => true
  | _ => false

structure RetainedSeed (M : Type) where
  header : LogHeader M
  seed : Bytes
  bootstrapSha256 : String
  storageBindingSha256 : String

/-- The encodings that the log store uses, and what it asks of the rest of a command. -/
structure Formats (M : Type) where
  postcard : Entry M → Bytes
  fromPostcard : Bytes → Except String (Entry M)
  sha256 : Bytes → String
  headerJson : LogHeader M → Bytes
  seedJson : RetainedSeed M → Bytes
  logIdJson : LogId → Bytes
  committedJson : Option LogId → Bytes
  decodeCustody : Bytes → Except String Unit
  /-- The canonical seed of a retirement, checked against its command. -/
  decodeSeed : (application seed : Bytes) → Except String Bytes
  decodeInitialization : Bytes → Except String Unit
  fromPostcard_postcard : ∀ entry, fromPostcard (postcard entry) = .ok entry
  sha256_valid : ∀ bytes, validDigest (sha256 bytes) = true
  logIdJson_small : ∀ id : LogId, id.Word → (logIdJson id).length ≤ 256
  committedJson_small : ∀ id : Option LogId, (∀ i ∈ id, LogId.Word i) →
    (committedJson id).length ≤ 256

variable {M : Type} (F : Formats M)

def logFormat : Bytes := [107, 97, 115, 117, 109, 105, 45, 108, 111, 103, 1]

def encodeEntry (entry : Entry M) : Bytes := logFormat ++ F.postcard entry

def decodeEntry (bytes : Bytes) : Except String (Entry M) :=
  if logFormat.isPrefixOf bytes then F.fromPostcard (bytes.drop logFormat.length)
  else .error "unknown raft log record format"

theorem decodeEntry_encodeEntry (entry : Entry M) :
    decodeEntry F (encodeEntry F entry) = .ok entry := by
  unfold decodeEntry encodeEntry
  have hp : logFormat.isPrefixOf (logFormat ++ F.postcard entry) = true :=
    List.isPrefixOf_iff_prefix.mpr (List.prefix_append _ _)
  rw [if_pos hp, List.drop_left]
  exact F.fromPostcard_postcard entry

def custodyCommand : RaftCommand → Except String Bool
  | .custody bytes => do
    F.decodeCustody bytes
    pure true
  | _ => pure false

def seedBytes : RaftCommand → Except String (Option Bytes)
  | .retirement application seed => do
    let bytes ← F.decodeSeed application seed
    pure (some bytes)
  | _ => pure none

/-- What a header says of a command that is not closed custody, and the seed kept with it. -/
def openPayload (command : RaftCommand) : Except String (HeaderPayload M × Option Bytes) := do
  match ← seedBytes F command with
  | some bytes => pure (.retirement (F.sha256 command.bytes) (F.sha256 bytes), some bytes)
  | none => pure (.application (F.sha256 command.bytes), none)

def payloadHeader : EntryPayload M → Except String (HeaderPayload M × Option Bytes)
  | .blank => pure (.blank, none)
  | .membership membership => pure (.membership membership, none)
  | .normal command => do
    if ← custodyCommand F command then pure (.custody (F.sha256 command.bytes), none)
    else openPayload F command

def LogHeader.build (entry : Entry M) (encoded : Bytes) :
    Except String (LogHeader M × Option Bytes) := do
  let (payload, seed) ← payloadHeader F entry.payload
  pure (⟨entry.logId, F.sha256 encoded, payload, entry.initialization⟩, seed)

def validateSha256 (value : String) : Except String Unit :=
  check (validDigest value) "invalid SHA-256 digest"

def validateInitialization (header : LogHeader M) : Except String Unit :=
  match header.initialization with
  | none => pure ()
  | some bytes => do
    check (match header.payload with | .membership _ => header.logId == ⟨0, 0, 0⟩ | _ => false)
      "initialization cause must be attached to the first membership entry"
    F.decodeInitialization bytes

def validatePayload : HeaderPayload M → Except String Unit
  | .application commandSha256 => validateSha256 commandSha256
  | .custody commandSha256 => validateSha256 commandSha256
  | .retirement commandSha256 seedSha256 => do
    validateSha256 commandSha256
    validateSha256 seedSha256
  | _ => pure ()

def LogHeader.validate (header : LogHeader M) : Except String Unit := do
  validateSha256 header.entrySha256
  validateInitialization F header
  validatePayload header.payload

def LogHeader.checkEntry (header : LogHeader M) (entry : Entry M) (encoded : Bytes) :
    Except String Unit := do
  let (expected, _) ← LogHeader.build F entry encoded
  check (F.headerJson expected == F.headerJson header) "raft body/control header differs"

section Headers

variable {F} {header : LogHeader M}

theorem build_ok (h : LogHeader.build F entry encoded = .ok (header, seed)) :
    payloadHeader F entry.payload = .ok (header.payload, seed) ∧ header.logId = entry.logId ∧
      header.entrySha256 = F.sha256 encoded ∧ header.initialization = entry.initialization := by
  obtain ⟨⟨payload, s⟩, hp, h⟩ := bind_ok h
  cases h
  exact ⟨hp, rfl, rfl, rfl⟩

theorem checkEntry_built (h : LogHeader.build F entry encoded = .ok (header, seed)) :
    header.checkEntry F entry encoded = .ok () := by
  unfold LogHeader.checkEntry
  rw [ok_bind h]
  exact check_true (beq_self_eq_true _)

theorem validate_initialization (h : header.validate F = .ok ())
    (hpa : ∀ m, header.payload ≠ .membership m) : header.initialization = none := by
  replace h := then_ok h
  obtain ⟨_, hin, _⟩ := bind_ok h
  unfold validateInitialization at hin
  cases hi : header.initialization with
  | none => rfl
  | some bs =>
    rw [hi] at hin
    obtain ⟨_, hc, _⟩ := bind_ok hin
    have := check_ok hc
    cases hp : header.payload with
    | membership m => exact absurd hp (hpa m)
    | _ => simp [hp] at this

theorem payloadHeader_blank (h : payloadHeader F e = .ok (.blank, s)) : e = .blank := by
  cases e with
  | blank => rfl
  | membership m => cases h
  | normal cmd =>
    obtain ⟨custody, _, h⟩ := bind_ok h
    cases custody with
    | true => cases h
    | false =>
      obtain ⟨o, _, h⟩ := bind_ok h
      cases o <;> cases h

theorem payloadHeader_membership (h : payloadHeader F e = .ok (.membership m, s)) :
    e = .membership m := by
  cases e with
  | blank => cases h
  | membership m' =>
    cases h
    rfl
  | normal cmd =>
    obtain ⟨custody, _, h⟩ := bind_ok h
    cases custody with
    | true => cases h
    | false =>
      obtain ⟨o, _, h⟩ := bind_ok h
      cases o <;> cases h

end Headers

end RaftLogTypes
