import Kasumi.Staging

/-! Ordered control commitments. Once an installation is recorded, its policy changes only by
a change that is begun, during which nothing is issued, and then completed with the stop
proofs of every installed authority partition. Every accepted command is permanent. -/
namespace LifecycleControl

open TenantTypes TenantAccess Staging

def conflict {α : Type} (message : String) : Except Error α := fail .conflict message

def maxControlPartitions : ℕ := 1024

def maxLifecycleStateBytes : ℕ := 8 * mib

def maxLifecycleIntents : ℕ := 10000

def maxControlChanges : ℕ := 1024

def invalid (condition : Bool) (message : String) : Except Error Unit :=
  require condition .invalidArgument message

def ControlSigningRoot.validate (root : ControlSigningRoot) : Except Error Unit := do
  invalid (root.controlIncarnation ≠ 0) "nil control incarnation"
  validateSha256 root.publicKey

def ControlAuthorityPartition.validate (partition : ControlAuthorityPartition) :
    Except Error Unit := do
  invalid (partition.authorityId ≠ 0 && partition.part < 1024)
    "invalid control authority partition"
  validateSha256 partition.manifestSha256
  validateSha256 partition.signingPublicKey
  invalid (100 ≤ partition.maximumLifetimeMs && partition.maximumLifetimeMs ≤ 60000 &&
    partition.drainMs ≥ partition.maximumLifetimeMs && partition.drainMs ≤ 61213)
    "invalid immutable authority drain bound"

def validateControlGrants : List Grant → Except Error Unit
  | [] => .ok ()
  | grant :: grants => do
    validateName grant.principal
    match grant.collection with
    | some collection => validateName collection
    | none => pure ()
    invalid (!grant.actions.isEmpty) "empty control policy grant"
    validateControlGrants grants

def BeginControlPolicyChange.validate (request : BeginControlPolicyChange) :
    Except Error Unit := do
  invalid (request.commandId ≠ 0) "nil control change identity"
  validateSha256 request.installationSha256
  let grants := request.candidate.policy.grants
  invalid (grants.length ≤ 4096 && grants.any fun g => g.collection.isNone &&
    g.actions.contains .admin) "control policy needs a bounded administrator set"
  validateControlGrants grants

def isControlled : Operation → Bool
  | .lifecycleControl _ => true
  | .mutate _ => true
  | .beginStaged _ => true
  | .appendStaged _ => true
  | .finalizeStaged _ => true
  | .stopStaged _ => true
  | .audit _ => true
  | .auditBatch _ => true
  | .maintenanceAudit _ => true
  | _ => false

/-- The operations admitted during a policy change and after the control retired. -/
def isObservation : Operation → Bool
  | .lifecycleControl _ => true
  | .audit _ => true
  | .auditBatch _ => true
  | .maintenanceAudit _ => true
  | _ => false

def guard (state : TenantState) (operation : Operation) : Except Error Unit :=
  match state.lifecycleControl with
  | none => .ok ()
  | some control => do
    require (isControlled operation) .forbidden ("closed lifecycle control requires its policy " ++
      "transition; generic authority/schema invalidation is disabled")
    require (!(control.pendingChange.isSome && !isObservation operation)) .conflict
      "control policy transition freezes topology and command publication"
    require (!(control.retired && !isObservation operation)) .sealed
      "lifecycle control incarnation is retired"

variable {Idx Acc : Type} (X : Externals Idx Acc)

def partitionKey (partition : ControlAuthorityPartition) : String :=
  X.uuidText partition.authorityId ++ "/" ++ toString partition.part

def validatePartitions : List (String × ControlAuthorityPartition) → Except Error Unit
  | [] => .ok ()
  | (key, partition) :: rest => do
    ControlAuthorityPartition.validate partition
    invalid (key = partitionKey X partition) "noncanonical control partition key"
    validatePartitions rest

def LifecycleInstallation.validate (installation : LifecycleInstallation) : Except Error Unit := do
  ControlSigningRoot.validate installation.root
  invalid (0 < installation.generation && 0 < installation.partitions.size &&
    installation.partitions.size ≤ maxControlPartitions)
    "invalid lifecycle installation generation or partition count"
  validatePartitions X installation.partitions.entries
  invalid (1 ≤ installation.maxIntents && installation.maxIntents ≤ maxLifecycleIntents &&
    1 ≤ installation.maxChanges && installation.maxChanges ≤ maxControlChanges &&
    8192 ≤ installation.maxStateBytes && installation.maxStateBytes ≤ maxLifecycleStateBytes)
    "lifecycle quota exceeds hard bounds"

def exactControl (state : TenantState) (context : RequestContext) : Except Error Unit := do
  require (!(state.tenant ≠ controlTenant || context.tenant ≠ state.tenant)) .forbidden
    "lifecycle control requires the installed control namespace"
  match context.authorization with
  | .serviceIdentity => pure ()
  | .credential _ resource => requireControl X resource state.incarnation
  authorizeState X state context none .admin

structure History where
  epoch : ℕ
  policy : Policy
  previous : ℕ
  pending : Option Uuid
  retired : Bool
  ids : OrdSet Uuid

def openHistory (control : LifecycleControlState) : History :=
  { epoch := control.installationPolicyEpoch
    policy := control.installationPolicy
    previous := control.installationRevision
    pending := none
    retired := false
    ids := OrdSet.add OrdMap.empty control.installationCommandId }

/-- The end of a change: completed at a later revision with verified stop proofs, or pending. -/
def closeChange (state : TenantState) (history : History) (id : Uuid)
    (change : ControlPolicyChange) : Except Error History :=
  match change.completedRevision with
  | some revision =>
    if revision > change.acceptedRevision ∧ revision ≤ state.revision then do
      let stops ← orError .conflict "completed control stop proofs absent" change.completionStops
      require (X.verifyStops change stops) .conflict "retained control stop proofs invalid"
      let epoch ← nextPolicyEpoch history.epoch
      pure { history with
        epoch := epoch
        policy := change.request.candidate.policy
        retired := change.request.candidate.retireControl
        previous := revision }
    else conflict "control completion revision differs"
  | none => do
    require change.completionStops.isNone .conflict
      "pending control change contains completion proofs"
    pure { history with
      pending := some id
      previous := change.acceptedRevision }

def checkChange (state : TenantState) (control : LifecycleControlState) (history : History)
    (id : Uuid) (change : ControlPolicyChange) : Except Error History := do
  BeginControlPolicyChange.validate change.request
  validatePolicy change.request.candidate.policy state.limits
  validateName change.originalPrincipal
  require (!history.ids.contains id && id = change.request.commandId &&
    change.requestSha256 = X.sha (.changeRequest change.request) &&
    change.request.installationSha256 = X.sha (.installation control.installation) &&
    change.installation = control.installation &&
    change.controlIncarnation = control.installation.root.controlIncarnation &&
    change.request.expectedPolicyEpoch = history.epoch &&
    change.acceptedRevision > history.previous && change.acceptedRevision ≤ state.revision &&
    history.pending.isNone && !history.retired) .conflict
    "control policy history is discontinuous or substituted"
  closeChange X state { history with ids := history.ids.add id } id change

def checkChanges (state : TenantState) (control : LifecycleControlState) :
    History → List (Uuid × ControlPolicyChange) → Except Error History
  | history, [] => .ok history
  | history, (id, change) :: rest => do
    let history ← checkChange X state control history id change
    checkChanges state control history rest

def acceptedChanges (control : LifecycleControlState) : List (Uuid × ControlPolicyChange) :=
  control.changes.entries.mergeSort fun a b => a.2.acceptedRevision ≤ b.2.acceptedRevision

def originRetained (control : LifecycleControlState) (request : CommitLifecycleIntent)
    (origin : TargetOrigin) (missing : String) : Except Error Bool := do
  let original := origin.materialization.asRetained
  if control.intents.get original.request.commandId = some original then do
    let partition ← orError .conflict missing
      (control.installation.partitions.get request.authorityPartition)
    pure (origin.authorityManifestSha256 = partition.manifestSha256)
  else pure false

def originPrecedes (control : LifecycleControlState) (intent : LifecycleIntent)
    (origin : TargetOrigin) : Except Error Bool := do
  let original := origin.materialization.asRetained
  if control.intents.get original.request.commandId = some original ∧
      original.revision < intent.revision then do
    let partition ← orError .conflict "retained resumption issuer missing"
      (control.installation.partitions.get intent.request.authorityPartition)
    pure (origin.authorityManifestSha256 = partition.manifestSha256)
  else pure false

/-- An intent was issued outside every change and never with an epoch a completed one retired. -/
def checkIssued (intent : LifecycleIntent) : List ControlPolicyChange → Except Error Unit
  | [] => .ok ()
  | change :: rest => do
    require (!(intent.revision > change.acceptedRevision &&
      change.completedRevision.all fun r => intent.revision < r)) .conflict
      "lifecycle intent was accepted during frozen policy transition"
    require (!(change.completedRevision.any (fun r => intent.revision > r) &&
      intent.request.expectedPolicyEpoch ≤ change.request.expectedPolicyEpoch)) .conflict
      "lifecycle intent uses retired control epoch"
    checkIssued intent rest

def checkIntent (state : TenantState) (control : LifecycleControlState) (epoch : ℕ)
    (ids : OrdSet Uuid) (id : Uuid) (intent : LifecycleIntent) : Except Error (OrdSet Uuid) := do
  X.validateIntent intent.request
  match intent.request.resumeOrigin with
  | none => pure ()
  | some origin => do
    let retained ← originPrecedes control intent origin
    require retained .conflict "retained resumption lost its original Control commitment"
  validateName intent.originalPrincipal
  require (!ids.contains id && id = intent.request.commandId &&
    intent.requestSha256 = X.sha (.intentRequest intent.request) &&
    intent.controlIncarnation = control.installation.root.controlIncarnation &&
    intent.installationGeneration = control.installation.generation &&
    intent.request.installationSha256 = X.sha (.installation control.installation) &&
    control.installation.partitions.contains intent.request.authorityPartition &&
    intent.revision > control.installationRevision && intent.revision ≤ state.revision &&
    intent.acceptedAtMs < intent.originalCredentialExpiresAtMs &&
    control.installationPolicyEpoch ≤ intent.request.expectedPolicyEpoch &&
    intent.request.expectedPolicyEpoch ≤ epoch) .conflict
    "retained lifecycle intent identity differs"
  checkIssued intent control.changes.values
  pure (ids.add id)

def checkIntents (state : TenantState) (control : LifecycleControlState) (epoch : ℕ) :
    OrdSet Uuid → List (Uuid × LifecycleIntent) → Except Error Unit
  | _, [] => .ok ()
  | ids, (id, intent) :: rest => do
    let ids ← checkIntent X state control epoch ids id intent
    checkIntents state control epoch ids rest

def validateControl (state : TenantState) (control : LifecycleControlState) :
    Except Error Unit := do
  LifecycleInstallation.validate X control.installation
  require (!(state.tenant ≠ controlTenant ||
    X.uuidText control.installation.root.controlIncarnation ≠ state.incarnation ||
    control.installationCommandId = 0 || control.installationRevision = 0 ||
    control.installationRevision > state.revision || state.retired ||
    state.pendingRestore.isSome ||
    control.intents.size > control.installation.maxIntents ||
    control.changes.size > control.installation.maxChanges ||
    X.len (.controlState control) > control.installation.maxStateBytes)) .conflict
    "invalid bounded lifecycle control state"
  validatePolicy control.installationPolicy state.limits
  let history ← checkChanges X state control (openHistory control) (acceptedChanges control)
  require (control.pendingChange = history.pending && control.retired = history.retired &&
    state.policyEpoch = history.epoch &&
    X.sha (.policy state.policy) = X.sha (.policy history.policy)) .conflict
    "current control policy is outside the closed transition history"
  checkIntents X state control history.epoch history.ids control.intents.entries

def validate (state : TenantState) : Except Error Unit :=
  match state.lifecycleControl with
  | none => .ok ()
  | some control => validateControl X state control

def receipt (revision : ℕ) : Applied := (.ok (emptyReceipt revision), false)

def withControl (state : TenantState) (control : LifecycleControlState) : TenantState :=
  { state with lifecycleControl := some control }

/-- What a control command does: an earlier acceptance is read back, or a new state is
proposed, which is validated before it is installed. -/
inductive Decision where
  | retained (revision : ℕ)
  | proposed (state : TenantState)

def installed (state : TenantState) : Except Error LifecycleControlState :=
  orError .conflict "lifecycle control is not installed" state.lifecycleControl

def newControl (state : TenantState) (commandId : Uuid) (installation : LifecycleInstallation)
    (revision : ℕ) : LifecycleControlState :=
  { installation := installation
    installationCommandId := commandId
    installationRevision := revision
    installationPolicyEpoch := state.policyEpoch
    installationPolicy := state.policy
    retired := false
    pendingChange := none
    intents := OrdMap.empty
    changes := OrdMap.empty }

def install (state : TenantState) (commandId : Uuid) (installation : LifecycleInstallation)
    (revision : ℕ) : Except Error Decision := do
  LifecycleInstallation.validate X installation
  require (!(commandId = 0 ||
    X.uuidText installation.root.controlIncarnation ≠ state.incarnation)) .conflict
    "control installation incarnation differs"
  match state.lifecycleControl with
  | some existing =>
    if existing.installationCommandId = commandId ∧ existing.installation = installation then
      pure (.retained existing.installationRevision)
    else conflict "control installation is immutable"
  | none => pure (.proposed (withControl state (newControl state commandId installation revision)))

def newIntent (control : LifecycleControlState) (command : Command)
    (request : CommitLifecycleIntent) (expiry revision : ℕ) : LifecycleIntent :=
  { request := request
    requestSha256 := X.sha (.intentRequest request)
    controlIncarnation := control.installation.root.controlIncarnation
    installationGeneration := control.installation.generation
    originalPrincipal := command.context.principal
    originalCredentialExpiresAtMs := expiry
    acceptedAtMs := command.timestampMs
    revision := revision }

/-- The checks of a new intent against the control; returns the credential's expiry. -/
def admitIntent (state : TenantState) (control : LifecycleControlState) (command : Command)
    (request : CommitLifecycleIntent) : Except Error ℕ := do
  require (!(control.retired || control.pendingChange.isSome)) .conflict
    "lifecycle issuance is closed"
  match request.resumeOrigin with
  | none => pure ()
  | some origin => do
    let retained ← originRetained control request origin "resumption issuer partition missing"
    require retained .conflict "resumption origin is not the exact retained Control commitment"
  require (!(control.changes.contains request.commandId ||
    request.commandId = control.installationCommandId)) .conflict
    "lifecycle command identity already used"
  require (request.expectedPolicyEpoch = state.policyEpoch &&
    request.installationSha256 = X.sha (.installation control.installation) &&
    control.installation.partitions.contains request.authorityPartition) .conflict
    "lifecycle current epoch or installed partition differs"
  let expiry ← orError .unauthorized
    "lifecycle intent needs an original finite verified credential"
    (expiresAtMs command.context.authorization)
  require (!(command.timestampMs ≥ expiry)) .unauthorized "original control credential expired"
  require (!(control.intents.size ≥ control.installation.maxIntents)) .quotaExceeded
    "permanent lifecycle intent quota reached"
  pure expiry

def commitIntent (state : TenantState) (command : Command) (request : CommitLifecycleIntent)
    (revision : ℕ) : Except Error Decision := do
  X.validateIntent request
  let control ← installed state
  match control.intents.get request.commandId with
  | some retained => do
    require (retained.requestSha256 = X.sha (.intentRequest request)) .conflict
      "permanent lifecycle intent identity differs"
    pure (.retained retained.revision)
  | none => do
    let expiry ← admitIntent X state control command request
    pure (.proposed (withControl state
      { control with
        intents := control.intents.insert request.commandId
          (newIntent X control command request expiry revision) }))

def newChange (control : LifecycleControlState) (command : Command)
    (request : BeginControlPolicyChange) (revision : ℕ) : ControlPolicyChange :=
  { request := request
    requestSha256 := X.sha (.changeRequest request)
    controlIncarnation := control.installation.root.controlIncarnation
    installation := control.installation
    originalPrincipal := command.context.principal
    acceptedAtMs := command.timestampMs
    acceptedRevision := revision
    completedRevision := none
    completionStops := none }

def admitChange (state : TenantState) (control : LifecycleControlState)
    (request : BeginControlPolicyChange) : Except Error Unit := do
  require (!(control.retired || control.pendingChange.isSome)) .conflict
    "control policy transition is already closed or pending"
  require (!(control.intents.contains request.commandId ||
    request.commandId = control.installationCommandId)) .conflict
    "lifecycle command identity already used"
  require (request.expectedPolicyEpoch = state.policyEpoch &&
    request.installationSha256 = X.sha (.installation control.installation)) .conflict
    "control change current epoch or installation differs"
  require (!(control.changes.size ≥ control.installation.maxChanges ||
    state.policyEpoch = wordSize - 1)) .quotaExceeded "control policy history or epoch exhausted"

def beginPolicyChange (state : TenantState) (command : Command)
    (request : BeginControlPolicyChange) (revision : ℕ) : Except Error Decision := do
  BeginControlPolicyChange.validate request
  validatePolicy request.candidate.policy state.limits
  let control ← installed state
  match control.changes.get request.commandId with
  | some retained => do
    require (retained.requestSha256 = X.sha (.changeRequest request)) .conflict
      "permanent control change identity differs"
    pure (.retained retained.acceptedRevision)
  | none => do
    admitChange X state control request
    pure (.proposed (withControl state
      { control with
        changes := control.changes.insert request.commandId
          (newChange X control command request revision)
        pendingChange := some request.commandId }))

def completed (change : ControlPolicyChange) (stops : ControlStops) (revision : ℕ) :
    ControlPolicyChange :=
  { change with
    completedRevision := some revision
    completionStops := some stops }

def withCompletion (state : TenantState) (control : LifecycleControlState)
    (change : ControlPolicyChange) (request : CompleteControlPolicyChange)
    (epoch revision : ℕ) : TenantState :=
  withControl
    { state with
      policy := change.request.candidate.policy
      policyEpoch := epoch }
    { control with
      retired := change.request.candidate.retireControl
      pendingChange := none
      changes := control.changes.insert request.commandId
        (completed change request.stops revision) }

def completePolicyChange (state : TenantState) (request : CompleteControlPolicyChange)
    (revision : ℕ) : Except Error Decision := do
  let control ← installed state
  let change ← orError .conflict "control change is absent"
    (control.changes.get request.commandId)
  require (change.requestSha256 = request.changeSha256) .conflict
    "exact control change identity differs"
  match change.completedRevision with
  | some completed => do
    require (change.completionStops = some request.stops) .conflict
      "permanent control completion input differs"
    pure (.retained completed)
  | none => do
    require (control.pendingChange = some request.commandId &&
      state.policyEpoch = change.request.expectedPolicyEpoch) .conflict
      "control change is not the current pending transition"
    require (X.verifyStops change request.stops) .conflict
      "complete exact installed authority stop proofs are required"
    let epoch ← nextPolicyEpoch state.policyEpoch
    pure (.proposed (withCompletion state control change request epoch revision))

def applyCandidate (state : TenantState) (command : Command) (request : LifecycleControlCommand)
    (revision : ℕ) : Except Error Decision :=
  match request with
  | .install commandId installation => install X state commandId installation revision
  | .commitIntent request => commitIntent X state command request revision
  | .beginPolicyChange request => beginPolicyChange X state command request revision
  | .completePolicyChange request => completePolicyChange X state request revision

def apply (state : TenantState) (command : Command) (request : LifecycleControlCommand)
    (revision : ℕ) : Except Error (TenantState × Applied) := do
  exactControl X state command.context
  match ← applyCandidate X state command request revision with
  | .retained original => pure (state, receipt original)
  | .proposed candidate => do
    validate X candidate
    pure (candidate, receipt revision)

def maxRequestIdBytes : ℕ := 256

/-- A full-width administrative record, as the completion of a pending change would append. -/
def completionEvent (state : TenantState) : AuditEvent :=
  { eventId := state.incarnation ++ ":" ++ toString (wordSize - 1)
    principal := String.ofList (List.replicate 256 '"')
    action := "lifecycle_control"
    requestId := String.ofList (List.replicate maxRequestIdBytes (Char.ofNat 0))
    timestampMs := wordSize - 1
    dataRevision := some (wordSize - 1)
    outcome := "committed"
    collection := none }

def completionFits (state : TenantState) (accounting : Acc) : Except Error Bool :=
  match state.lifecycleControl.bind LifecycleControlState.pendingChange with
  | none => .ok true
  | some _ => do
    let epoch ← nextPolicyEpoch state.policyEpoch
    let completed ← appendAudit X { state with policyEpoch := epoch } (completionEvent state)
    if completed.auditRetention.hotBytes > completed.limits.auditRetention.hotBytes then pure false
    else X.fitsCompletion accounting state completed

end LifecycleControl
