import Kasumi.PermanentRows
import Kasumi.Retirement

/-! The independent serving authority: its immutable installation, the leases its nodes ask for,
its administrative commands and the permanent receipts they leave. Values that other components
interpret (target completions, signed control facts, signer material) are of the type `P`. -/
namespace AuthorityTypes

open TenantTypes TenantAccess PermanentRows

structure TrustVerifierIdentity where
  installationId : Uuid
  nodeId : ℕ
  deriving DecidableEq

structure NodeIdentity where
  nodeId : ℕ
  verifier : TrustVerifierIdentity
  principal : String
  certificateSha256 : String
  deriving DecidableEq

/-! Installation -/

structure AuthorityPartition where
  group : String
  publicKey : String

structure AuthorityManifest where
  authorityId : Uuid
  lifecycleControls : OrdMap Uuid String
  partitions : OrdMap ℕ AuthorityPartition
  maxLeaseMs : ℕ
  clockRateErrorPpm : ℕ

def validateControls : List (Uuid × String) → Except Failure Unit
  | [] => pure ()
  | (incarnation, key) :: rest => do
    ensure (incarnation ≠ 0) "nil installed control identity"
    lift (validateSha256 key)
    validateControls rest

def validatePartitions (count : ℕ) (groups : List String) :
    List (ℕ × AuthorityPartition) → Except Failure Unit
  | [] => pure ()
  | (index, part) :: rest => do
    ensure (index < count) "noncontiguous partitions"
    lift (validateName part.group)
    ensure (!groups.contains part.group) "duplicate partition group"
    lift (validateSha256 part.publicKey)
    validatePartitions count (part.group :: groups) rest

def AuthorityManifest.validate (manifest : AuthorityManifest) : Except Failure Unit := do
  ensure (manifest.authorityId ≠ 0) "nil authority identity"
  ensure (manifest.lifecycleControls.size ≤ 1024) "too many installed lifecycle control roots"
  validateControls manifest.lifecycleControls.entries
  ensure (manifest.clockRateErrorPpm ≤ 10000) "clock rate error exceeds supported 1% bound"
  ensure (100 ≤ manifest.maxLeaseMs && manifest.maxLeaseMs ≤ 60000)
    "lease lifetime outside hard bounds"
  ensure (manifest.partitions.size.isPowerOfTwo && manifest.partitions.size ≤ 1024)
    "invalid partition count"
  validatePartitions manifest.partitions.size [] manifest.partitions.entries

def divCeil (a b : ℕ) : ℕ := (a + b - 1) / b

/-- Slowest allowed client versus fastest allowed issuer, rounded upward. -/
def AuthorityManifest.drainMs (manifest : AuthorityManifest) : Except Failure ℕ := do
  manifest.validate
  let numerator := manifest.maxLeaseMs * (1000000 + manifest.clockRateErrorPpm)
  pure (divCeil numerator (1000000 - manifest.clockRateErrorPpm))

/-! Leases -/

inductive LeasePurpose where
  | serving
  | restorePreparation
  deriving DecidableEq

structure ServingIdentity where
  tenant : String
  incarnation : Uuid
  authorityEpoch : ℕ
  node : NodeIdentity
  deriving DecidableEq

structure LeaseRequest where
  manifestDigest : String
  identity : ServingIdentity
  bootId : Uuid
  attemptId : Uuid
  purpose : LeasePurpose
  deriving DecidableEq

structure LeaseClaims where
  request : LeaseRequest
  authorityId : Uuid
  part : ℕ
  authorityTerm : ℕ
  authorityRevision : ℕ
  lifetimeMs : ℕ
  credentialLifetimeMs : ℕ
  activationDigest : String
  recoveryCheckpoint : Option FullBackupCheckpoint
  deriving DecidableEq

/-! Administrative commands -/

inductive LifecycleAuthorityIdentity where
  | intent (id : Uuid)
  | epochStop
  deriving DecidableEq

structure LifecycleAuthorityReference where
  controlIncarnation : Uuid
  controlPolicyEpoch : ℕ
  identity : LifecycleAuthorityIdentity
  deriving DecidableEq

structure RecoveryTarget where
  incarnation : Uuid
  nodes : List NodeIdentity
  checkpoint : FullBackupCheckpoint
  deriving DecidableEq

structure CommittedActivation (P : Type) where
  completion : P
  reference : LifecycleAuthorityReference
  intentSha256 : String
  deriving DecidableEq

structure CommandIdentity where
  tenant : String
  commandId : Uuid
  expectedPolicyEpoch : ℕ
  notAfterMs : ℕ
  deriving DecidableEq

inductive AuthorityAction (P : Type) where
  | enroll (incarnation : Uuid) (nodes : List NodeIdentity)
  | fence (incarnation : Uuid) (authorityEpoch : ℕ)
  | prepareTarget (sourceIncarnation : Uuid) (sourceEpoch : ℕ) (target : RecoveryTarget)
  | activate (fenceId : Uuid) (fenceDigest : String) (target : RecoveryTarget)
  | activateCommitted (fenceId : Uuid) (fenceDigest : String) (target : RecoveryTarget)
      (control : CommittedActivation P)
  | stopActivation (identity : CommandIdentity) (action : AuthorityAction P)
  | stopTarget (sourceIncarnation : Uuid) (sourceEpoch : ℕ) (target : RecoveryTarget)
  | replaceAdministrators (administrators : OrdSet String)
  deriving DecidableEq

structure AuthorityCommand (P : Type) extends CommandIdentity where
  action : AuthorityAction P
  deriving DecidableEq

structure ReceiptOrigin (P : Type) where
  authorityId : Uuid
  manifestDigest : String
  part : ℕ
  command : AuthorityCommand P
  commandDigest : String
  principal : String
  term : ℕ
  revision : ℕ
  admittedAtMs : ℕ
  deriving DecidableEq

inductive AuthorityOutcome (P : Type) where
  | enrolled (incarnation : Uuid) (authorityEpoch : ℕ)
  | fenced (incarnation : Uuid) (authorityEpoch : ℕ)
  | targetPrepared (target : RecoveryTarget) (authorityEpoch : ℕ)
  | activated (target : RecoveryTarget) (authorityEpoch : ℕ)
  | targetStopped (sourceIncarnation : Uuid) (sourceEpoch : ℕ) (target : RecoveryTarget)
  | targetAlreadyActivated (origin : ReceiptOrigin P) (outcome : AuthorityOutcome P)
  | activationStopped (originalDigest : String)
  | administratorsReplaced (policyEpoch : ℕ)
  | rejected (code : ErrorCode) (message : String)
  | activationResolved (origin : ReceiptOrigin P) (outcome : AuthorityOutcome P)
  deriving DecidableEq

structure AuthorityReceipt (P : Type) extends ReceiptOrigin P where
  outcome : AuthorityOutcome P
  deriving DecidableEq

structure TenantRecord (P : Type) where
  tenant : String
  incarnation : Uuid
  authorityEpoch : ℕ
  nodes : List NodeIdentity
  activationDigest : String
  recoveryCheckpoint : Option FullBackupCheckpoint
  fence : Option (AuthorityReceipt P)

structure PreparationRecord (P : Type) where
  tenant : String
  sourceIncarnation : Uuid
  sourceEpoch : ℕ
  target : RecoveryTarget
  receipt : AuthorityReceipt P

/-! What the service reads of the replicated state -/

structure AuthorityView (P : Type) where
  tenants : String → Option (TenantRecord P)
  receipts : String → Uuid → Option (AuthorityReceipt P)
  targetStops : String → Uuid → Option (AuthorityReceipt P)
  preparations : String → Uuid → Option (PreparationRecord P)
  policyEpoch : ℕ
  revision : ℕ

structure LeaseMaterial where
  activationDigest : String
  recoveryCheckpoint : Option FullBackupCheckpoint

section Views

variable {P : Type} (receiptDigest : AuthorityReceipt P → String) (view : AuthorityView P)

def leaseView (request : LeaseRequest) : Except Failure (LeaseMaterial × ℕ) := do
  let identity := request.identity
  let record ← context "tenant is not enrolled" (view.tenants identity.tenant)
  ensure (view.targetStops identity.tenant identity.incarnation).isNone
    "target incarnation is permanently stopped"
  match request.purpose with
  | .serving =>
    ensure (record.fence.isNone && record.incarnation = identity.incarnation &&
      record.authorityEpoch = identity.authorityEpoch && record.nodes.contains identity.node)
      "serving incarnation, epoch or node is not active"
    pure (⟨record.activationDigest, record.recoveryCheckpoint⟩, view.revision)
  | .restorePreparation =>
    let prepared ← context "target preparation is not installed"
      (view.preparations identity.tenant identity.incarnation)
    ensure (record.incarnation = prepared.sourceIncarnation &&
      record.authorityEpoch = prepared.sourceEpoch &&
      identity.authorityEpoch = prepared.sourceEpoch + 1 &&
      prepared.target.nodes.contains identity.node)
      "preparation source epoch or target credential differs"
    pure (⟨receiptDigest prepared.receipt, some prepared.target.checkpoint⟩, view.revision)

end Views

end AuthorityTypes
