import Kasumi.AuthorityTypes
import Kasumi.RatedClocks

/-! Leases and the drain that a replacement waits for. A node anchors a lease on its own elapsed
clock before it asks for it. The service admits an activation only after it has itself observed
the exact fence for a full drain interval on its elapsed clock. Durations are milliseconds in an
ordered field, common time is measured in the same unit. -/
namespace FenceDrain

open TenantTypes TenantAccess PermanentRows AuthorityTypes

/-- SHA-256 digests of canonical encodings, the routing hash of a tenant name and the text of
an identifier. -/
structure AuthorityDigests (P : Type) where
  receiptDigest : AuthorityReceipt P → String
  isStatusDigest : String → Bool
  commandDigest : AuthorityCommand P → String
  manifestDigest : AuthorityManifest → String
  tenantHash : String → ℕ
  uuidText : Uuid → String
  receiptDigest_valid : ∀ r, validDigest (receiptDigest r) = true

/-- No two of the receipts share a digest, and none shares one with a maintenance status, which
is encoded under a domain of its own. -/
structure AuthorityDigests.CollisionFree {P : Type} (D : AuthorityDigests P)
    (relevant : AuthorityReceipt P → Prop) : Prop where
  receipts : ∀ r r', relevant r → relevant r' → D.receiptDigest r = D.receiptDigest r' → r = r'
  statuses : ∀ r, relevant r → D.isStatusDigest (D.receiptDigest r) = false

section Witness

variable {K : Type} [Field K] [LinearOrder K]

structure Drain (K : Type) where
  term : ℕ
  started : K
  last : K

def completed (now required : K) (drain : Drain K) : Bool :=
  drain.started ≤ now && required ≤ now - drain.started

/-- Observations of another term are dropped. A clock that went back restarts the others. -/
def observed (term : ℕ) (now : K) (drains : OrdMap String (Drain K)) :
    OrdMap String (Drain K) :=
  drains.filterMap fun _ drain =>
    if drain.term = term then
      some { drain with
        started := if now < drain.last then now else drain.started
        last := now }
    else none

def makeRoom (drains : OrdMap String (Drain K)) (digest : String) (now required : K)
    (capacity : ℕ) : Option (OrdMap String (Drain K)) :=
  if !drains.contains digest && drains.size ≥ capacity then
    (drains.entries.find? fun e => completed now required e.2).map fun e => drains.remove e.1
  else some drains

def requireDrainWitness (drains : OrdMap String (Drain K)) (digest : String) (term : ℕ)
    (now required : K) (capacity : ℕ) : OrdMap String (Drain K) × Except Error Unit :=
  let drains := observed term now drains
  match makeRoom drains digest now required capacity with
  | none =>
    (drains, .error ⟨.resourceExhausted, "active authority drain witness limit reached"⟩)
  | some drains =>
    let drain := (drains.get digest).getD ⟨term, now, now⟩
    (drains.insert digest drain,
      require (completed now required drain) .unavailable
        "exact fence drain has not completed; retry the same identity")

end Witness

/-! The service of one replica -/

section Service

variable {K P : Type} [Field K] [LinearOrder K]

/-- Another durable stop whose drain the service observes, under a key of its own. -/
inductive Witness where
  | target (digest : String)
  | control (digest : String)
  | maintenance (digest : String)

def Witness.key : Witness → String
  | .target digest => "target/" ++ digest
  | .control digest => "control/" ++ digest
  | .maintenance digest => digest

/-- An administrative command between its two drain checks, under the proposal lock, with the
policy epoch that its caller was authorized under. -/
structure Proposal (P : Type) where
  command : AuthorityCommand P
  term : ℕ
  epoch : ℕ
  drainedFence : Option String
  deriving DecidableEq

/-- What a replica's service reads of the replicated state, and what it keeps in memory. -/
structure Replica (K P : Type) where
  view : AuthorityView P
  term : ℕ
  drains : OrdMap String (Drain K)
  proposal : Option (Proposal P)

variable (D : AuthorityDigests P) (required : K)

def requireDrain (replica : Replica K P) (digest : String) (term : ℕ) (now : K) :
    Replica K P × Except Error Unit :=
  let result := requireDrainWitness replica.drains digest term now required 10000
  ({ replica with drains := result.1 }, do
    result.2
    require (replica.term = term) .unavailable "drain authority term changed")

def drainedFence (replica : Replica K P) (command : AuthorityCommand P) :
    Except Error (Option String) :=
  let exactFence (fenceId : Uuid) (fenceDigest : String) : Except Error (Option String) := do
    let record ← orError .conflict "source is not enrolled" (replica.view.tenants command.tenant)
    let fence ← orError .conflict "source lacks an authoritative fence" record.fence
    require (!(fence.command.commandId ≠ fenceId || D.receiptDigest fence ≠ fenceDigest))
      .conflict "exact source fence differs"
    pure (some fenceDigest)
  match command.action with
  | .activate fenceId fenceDigest _ => exactFence fenceId fenceDigest
  | .activateCommitted fenceId fenceDigest _ _ => exactFence fenceId fenceDigest
  | _ => pure none

/-- `execute_owned` up to its first drain check. A retained receipt ends it: the command is
answered from history and nothing is proposed. -/
def startProposal (replica : Replica K P) (command : AuthorityCommand P) (term : ℕ) (now : K) :
    Replica K P × Except Error Unit :=
  let epoch := replica.view.policyEpoch
  match replica.view.receipts command.tenant command.commandId with
  | some retained =>
    (replica, require (retained.commandDigest = D.commandDigest command) .conflict
      "permanent command identity differs")
  | none =>
    match drainedFence D replica command with
    | .error e => (replica, .error e)
    | .ok none => ({ replica with proposal := some ⟨command, term, epoch, none⟩ }, .ok ())
    | .ok (some digest) =>
      let result := requireDrain required replica digest term now
      match result.2 with
      | .error e => (result.1, .error e)
      | .ok _ => ({ result.1 with proposal := some ⟨command, term, epoch, some digest⟩ }, .ok ())

def recheck (replica : Replica K P) (proposal : Proposal P) (now : K) :
    Replica K P × Except Error Unit :=
  match proposal.drainedFence with
  | none => (replica, .ok ())
  | some digest => requireDrain required replica digest proposal.term now

def admitProposal (replica : Replica K P) (admittedAtMs : ℕ) (credential : Except Error Unit)
    (now : K) : Replica K P × Option (Proposal P) :=
  match replica.proposal with
  | none => (replica, none)
  | some proposal =>
    let replica := { replica with proposal := none }
    let checks : Except Error Unit := do
      credential
      require (!(admittedAtMs > proposal.command.notAfterMs ||
        proposal.epoch ≠ proposal.command.expectedPolicyEpoch)) .conflict
        "authority command expired or policy changed"
    match checks with
    | .error _ => (replica, none)
    | .ok _ =>
      let result := recheck required replica proposal now
      match result.2 with
      | .error _ => (result.1, none)
      | .ok _ => (result.1, some proposal)

variable (manifest : AuthorityManifest) (part : ℕ)

/-- The claims of a lease whose caller has been authenticated, for the rest of the credential
or the maximum. -/
def acquire (replica : Replica K P) (request : LeaseRequest) (term remaining : ℕ)
    (caller : Except Error Unit) : Except Error LeaseClaims := do
  caller
  match leaseView D.receiptDigest replica.view request with
  | .error _ => fail .forbidden "incarnation or node is fenced"
  | .ok (material, revision) => do
    require (remaining > 0) .unauthorized "lease credential expired"
    pure
      { request := request, authorityId := manifest.authorityId, part := part,
        authorityTerm := term, authorityRevision := revision,
        lifetimeMs := manifest.maxLeaseMs,
        credentialLifetimeMs := min manifest.maxLeaseMs remaining,
        activationDigest := material.activationDigest,
        recoveryCheckpoint := material.recoveryCheckpoint }

end Service

/-! The node -/

section Node

variable {K P B : Type} [Field K] [LinearOrder K]

structure ServingBoot (K : Type) where
  id : Uuid
  identity : ServingIdentity
  lastSeen : Option K
  purpose : LeasePurpose

def ServingBoot.observe (boot : ServingBoot K) (now : K) : ServingBoot K × Except Failure K :=
  match boot.lastSeen with
  | none => (boot, .error
      (.message "serving elapsed clock regressed; restart requires fresh authority"))
  | some previous =>
    if now < previous then ({ boot with lastSeen := none }, .error
      (.message "serving elapsed clock regressed; restart requires fresh authority"))
    else ({ boot with lastSeen := some now }, .ok now)

structure LeaseAttempt (K B : Type) where
  boot : B
  start : K
  request : LeaseRequest
  deriving DecidableEq

structure VerifiedLease (K B : Type) where
  boot : B
  start : K
  deadline : K
  claims : LeaseClaims
  deriving DecidableEq

/-- The lease is live: its signer generation is, and the boot clock is before the deadline. -/
def VerifiedLease.check (lease : VerifiedLease K B) (signer : Except Failure Unit)
    (boot : ServingBoot K) (now : K) : ServingBoot K × Except Failure Unit :=
  match signer with
  | .error e => (boot, .error e)
  | .ok _ =>
    let result := boot.observe now
    (result.1, do
      let now ← result.2
      ensure (now < lease.deadline) "serving grant expired")

variable (D : AuthorityDigests P) (manifest : AuthorityManifest)

def AuthorityManifest.part (tenant : String) : Except Failure ℕ := do
  manifest.validate
  lift (validateName tenant)
  pure (D.tenantHash tenant &&& (manifest.partitions.size - 1))

def checkClaims (attempt : LeaseAttempt K B) (claims : LeaseClaims) : Except Failure Unit := do
  let part ← AuthorityManifest.part D manifest attempt.request.identity.tenant
  ensure (claims.request = attempt.request && claims.authorityId = manifest.authorityId &&
    claims.part = part && claims.lifetimeMs = manifest.maxLeaseMs &&
    claims.credentialLifetimeMs > 0 && claims.credentialLifetimeMs ≤ claims.lifetimeMs &&
    claims.authorityRevision > 0) "lease receiver, attempt, installation or lifetime differs"
  lift (validateSha256 claims.activationDigest)
  match claims.recoveryCheckpoint with
  | none => pure ()
  | some checkpoint => do
    lift (Retirement.FullBackupCheckpoint.validate checkpoint)
    ensure (checkpoint.tenant = claims.request.identity.tenant &&
      checkpoint.sourceIncarnation ≠ D.uuidText claims.request.identity.incarnation)
      "lease recovery checkpoint differs"
  ensure (decide (claims.request.identity.authorityEpoch = 1) =
    claims.recoveryCheckpoint.isNone) "lease activation origin absent or unexpected"

def LeaseAttempt.verify (attempt : LeaseAttempt K B) (claims : LeaseClaims)
    (signer : Except Failure Unit) (boot : ServingBoot K) (now : K) :
    ServingBoot K × Except Failure (VerifiedLease K B) :=
  match checkClaims D manifest attempt claims with
  | .error e => (boot, .error e)
  | .ok _ =>
    let lease : VerifiedLease K B :=
      ⟨attempt.boot, attempt.start, attempt.start + (claims.credentialLifetimeMs : K), claims⟩
    let result := lease.check signer boot now
    (result.1, do
      result.2
      pure lease)

end Node

end FenceDrain
