import Kasumi.FenceDrain
import Kasumi.FallibleSteps
import Kasumi.TenantFrames

/-! Fencing excludes old leases. Replicas and nodes run on clocks of their own; replicas apply
entries, change terms, observe drains and admit commands in any order, nodes acquire and check
leases. Once a replica has admitted an activation, no lease from before it recorded the fence
passes its check again. -/
namespace FenceSafety

open TenantTypes PermanentRows AuthorityTypes FenceDrain RatedClocks FallibleSteps List
open TenantFrames (require_ok orError_ok ensure_ok)

variable {K P I B : Type} [LinearOrder K]

/-- Replicas, nodes and the history: which claims were issued when, when a replica first
recorded a fence, and which commands it admitted when. -/
structure World (K P I B : Type) where
  now : K
  replica : I → Replica K P
  boot : B → ServingBoot K
  attempts : List (LeaseAttempt K B)
  leases : List (VerifiedLease K B)
  issued : List (LeaseClaims × K)
  fenced : List (I × AuthorityReceipt P × K)
  admitted : List (I × Proposal P × K)

inductive Event (K P I B : Type) where
  | tick (time : K)
  | apply (p : I) (tenant : String) (view : AuthorityView P)
  | elect (p : I) (term : ℕ)
  | observe (p : I) (witness : Witness) (term : ℕ)
  | execute (p : I) (command : AuthorityCommand P) (term : ℕ)
  | accept (p : I) (admittedAtMs : ℕ) (credential : Except Error Unit)
  | abandon (p : I)
  | restart (p : I)
  | begin (b : B) (attemptId : Uuid)
  | acquire (p : I) (request : LeaseRequest) (part term remaining : ℕ)
      (caller : Except Error Unit)
  | verify (attempt : LeaseAttempt K B) (claims : LeaseClaims) (signer : Except Failure Unit)
  | check (lease : VerifiedLease K B) (signer : Except Failure Unit)

def Event.ofNode : Event K P I B → Prop
  | .begin _ _ | .acquire _ _ _ _ _ _ | .verify _ _ _ | .check _ _ => True
  | _ => False

section System

variable [Field K] [DecidableEq P] [DecidableEq I] [DecidableEq B]

variable (D : AuthorityDigests P) (manifest : AuthorityManifest) (required : K) (issuer : I → K → K)
  (node : B → K → K)

/-- Time does not go back, one record of a tenant is applied at a time, attempt identifiers are
fresh and only issued claims carry an authentic signature. -/
def Enabled (w : World K P I B) : Event K P I B → Prop
  | .tick time => w.now ≤ time
  | .apply p tenant view => ∀ t, t ≠ tenant → view.tenants t = (w.replica p).view.tenants t
  | .observe _ (.maintenance digest) _ => D.isStatusDigest digest = true
  | .begin _ attemptId => ∀ e ∈ w.issued, e.1.request.attemptId ≠ attemptId
  | .verify attempt claims _ => attempt ∈ w.attempts ∧ ∃ time, (claims, time) ∈ w.issued
  | .check lease _ => lease ∈ w.leases
  | _ => True

def World.setReplica (w : World K P I B) (p : I) (replica : Replica K P) : World K P I B :=
  { w with replica := Function.update w.replica p replica }

def World.setBoot (w : World K P I B) (b : B) (boot : ServingBoot K) : World K P I B :=
  { w with boot := Function.update w.boot b boot }

def noteFence (fenced : List (I × AuthorityReceipt P × K)) (p : I) (now : K) :
    Option (AuthorityReceipt P) → List (I × AuthorityReceipt P × K)
  | none => fenced
  | some fence =>
    if fenced.any fun e => e.1 = p && e.2.1 = fence then fenced else (p, fence, now) :: fenced

def next (w : World K P I B) : Event K P I B → World K P I B
  | .tick time => { w with now := time }
  | .apply p tenant view =>
    { w.setReplica p { w.replica p with view := view } with
      fenced := noteFence w.fenced p w.now ((view.tenants tenant).bind TenantRecord.fence) }
  | .elect p term => w.setReplica p { w.replica p with term := term }
  | .observe p witness term =>
    w.setReplica p (requireDrain required (w.replica p) witness.key term (issuer p w.now)).1
  | .execute p command term =>
    w.setReplica p (startProposal D required (w.replica p) command term (issuer p w.now)).1
  | .accept p admittedAtMs credential =>
    let result := admitProposal required (w.replica p) admittedAtMs credential (issuer p w.now)
    { w.setReplica p result.1 with
      admitted := (result.2.toList.map fun proposal => (p, proposal, w.now)) ++ w.admitted }
  | .abandon p => w.setReplica p { w.replica p with proposal := none }
  | .restart p => w.setReplica p { w.replica p with drains := OrdMap.empty, proposal := none }
  | .begin b attemptId =>
    let result := (w.boot b).observe (node b w.now)
    match result.2 with
    | .error _ => w.setBoot b result.1
    | .ok start =>
      { w.setBoot b result.1 with
        attempts := ⟨b, start, ⟨D.manifestDigest manifest, (w.boot b).identity, (w.boot b).id,
          attemptId, (w.boot b).purpose⟩⟩ :: w.attempts }
  | .acquire p request part term remaining caller =>
    match acquire D manifest part (w.replica p) request term remaining caller with
    | .error _ => w
    | .ok claims => { w with issued := (claims, w.now) :: w.issued }
  | .verify attempt claims signer =>
    let result := attempt.verify D manifest claims signer (w.boot attempt.boot)
      (node attempt.boot w.now)
    match result.2 with
    | .error _ => w.setBoot attempt.boot result.1
    | .ok lease => { w.setBoot attempt.boot result.1 with leases := lease :: w.leases }
  | .check lease signer =>
    w.setBoot lease.boot
      (lease.check signer (w.boot lease.boot) (node lease.boot w.now)).1

structure Initial (w : World K P I B) : Prop where
  attempts : w.attempts = []
  leases : w.leases = []
  issued : w.issued = []
  fenced : w.fenced = []
  admitted : w.admitted = []
  unfenced : ∀ p tenant r, (w.replica p).view.tenants tenant = some r → r.fence = none
  drains : ∀ p, (w.replica p).drains = OrdMap.empty
  proposals : ∀ p, (w.replica p).proposal = none

inductive Reachable : World K P I B → Prop where
  | initial {w} : Initial w → Reachable w
  | step {w} (e : Event K P I B) : Reachable w → Enabled D w e →
      Reachable (next D manifest required issuer node w e)

def Permitted (w : World K P I B) : List (Event K P I B) → Prop
  | [] => True
  | e :: rest => Enabled D w e ∧ Permitted (next D manifest required issuer node w e) rest

variable {D manifest required issuer node}

theorem Reachable.run (h : Reachable D manifest required issuer node w)
    (he : Permitted D manifest required issuer node w evs) :
    Reachable D manifest required issuer node
      (evs.foldl (next D manifest required issuer node) w) := by
  induction evs generalizing w with
  | nil => exact h
  | cons e rest ih => exact ih (.step e h he.1) he.2

end System

def namedFence (command : AuthorityCommand P) : Option String :=
  match command.action with
  | .activate _ fenceDigest _ => some fenceDigest
  | .activateCommitted _ fenceDigest _ _ => some fenceDigest
  | _ => none

/-! What one replica has observed -/

section Observations

-- the fences of the whole execution, among which digests tell receipts apart
variable (D : AuthorityDigests P) (relevant : AuthorityReceipt P → Prop) (clock : K → K)
  (required : K) (recorded : AuthorityReceipt P → K → Prop)

/-- Every observation started at a time of the replica's own clock, a fence's not before the
replica recorded it. -/
def Sound (now : K) (drains : OrdMap String (Drain K)) : Prop :=
  ∀ key drain, drains.get key = some drain → ∃ s ≤ now, drain.started = clock s ∧
    ∀ fence, relevant fence → key = D.receiptDigest fence → ∃ f ≤ s, recorded fence f

def Known (now : K) (key : String) : Prop :=
  ∀ fence, relevant fence → key = D.receiptDigest fence → ∃ f ≤ now, recorded fence f

def Waited [Field K] (now : K) (key : String) : Prop :=
  ∃ s ≤ now, required ≤ clock now - clock s ∧
    ∀ fence, relevant fence → key = D.receiptDigest fence → ∃ f ≤ s, recorded fence f

variable {D relevant clock recorded} {now : K} {drains : OrdMap String (Drain K)}

theorem Sound.reread (h : Sound D relevant clock recorded now drains) (term : ℕ) :
    Sound D relevant clock recorded now (observed term (clock now) drains) := by
  intro key drain hg
  rw [observed, OrdMap.get_filterMap, Option.bind_eq_some_iff] at hg
  obtain ⟨old, hold, hg⟩ := hg
  by_cases ht : old.term = term
  · rw [if_pos ht] at hg
    cases hg
    obtain ⟨s, hs, hst, hfe⟩ := h key old hold
    by_cases hb : clock now < old.last
    · -- the clock went back: the observation starts over, later than before
      refine ⟨now, le_refl now, if_pos hb, fun fence hr hk => ?_⟩
      obtain ⟨f, hf, hre⟩ := hfe fence hr hk
      exact ⟨f, le_trans hf hs, hre⟩
    · exact ⟨s, hs, (if_neg hb).trans hst, hfe⟩
  · rw [if_neg ht] at hg
    cases hg

theorem Sound.remove (h : Sound D relevant clock recorded now drains) (evicted : String) :
    Sound D relevant clock recorded now (drains.remove evicted) := by
  intro key drain hg
  rw [OrdMap.get_remove] at hg
  by_cases hk : key = evicted
  · rw [if_pos hk] at hg
    cases hg
  · rw [if_neg hk] at hg
    exact h key drain hg

variable [Field K] {digest : String}

theorem Sound.room {required : K} {room : OrdMap String (Drain K)}
    (h : Sound D relevant clock recorded now drains)
    (hr : makeRoom drains digest instant required capacity = some room) :
    Sound D relevant clock recorded now room := by
  unfold makeRoom at hr
  split at hr
  · obtain ⟨e, _, rfl⟩ := Option.map_eq_some_iff.mp hr
    exact h.remove e.1
  · cases hr
    exact h

/-- A call for a known key keeps the observations sound, and succeeds only after the wait. -/
theorem Sound.witness (required : K) (h : Sound D relevant clock recorded now drains)
    (hk : Known D relevant recorded now digest) (term capacity : ℕ) :
    Sound D relevant clock recorded now
        (requireDrainWitness drains digest term (clock now) required capacity).1 ∧
      ((requireDrainWitness drains digest term (clock now) required capacity).2 = .ok () →
        Waited D relevant clock required recorded now digest) := by
  have ho := h.reread term
  unfold requireDrainWitness
  dsimp only
  cases hr : makeRoom (observed term (clock now) drains) digest (clock now) required
    capacity with
  | none => exact ⟨ho, (nomatch ·)⟩
  | some room =>
    have hso := ho.room hr
    have how : ∃ s ≤ now, ((room.get digest).getD ⟨term, clock now, clock now⟩).started = clock s ∧
        ∀ fence, relevant fence → digest = D.receiptDigest fence → ∃ f ≤ s, recorded fence f := by
      cases hg : room.get digest with
      | none => exact ⟨now, le_refl now, rfl, hk⟩
      | some drain => exact hso digest drain hg
    constructor
    · intro key drain hg
      rw [OrdMap.get_insert] at hg
      by_cases hke : key = digest
      · rw [if_pos hke] at hg
        cases hg
        rw [hke]
        exact how
      · rw [if_neg hke] at hg
        exact hso key drain hg
    intro hok
    obtain ⟨s, hs, hst, hf⟩ := how
    have hc := require_ok hok
    rw [completed, Bool.and_eq_true, decide_eq_true_iff, decide_eq_true_iff, hst]
      at hc
    exact ⟨s, hs, hc.2, hf⟩

end Observations

/-! The steps of one replica -/

section Replica

variable {D : AuthorityDigests P} {replica : Replica K P}

omit [LinearOrder K] in
theorem drainedFence_ok
    (h : drainedFence D replica cmd = .ok fence) : fence = namedFence cmd ∧ ∀ digest,
    fence = some digest → ∃ record rcpt, replica.view.tenants cmd.tenant = some record ∧
    record.fence = some rcpt ∧ D.receiptDigest rcpt = digest := by
  have he : ∀ (fenceId : Uuid) (fenceDigest : String), (do
      let record ← orError .conflict "source is not enrolled" (replica.view.tenants cmd.tenant)
      let fence ← orError .conflict "source lacks an authoritative fence" record.fence
      require (!(fence.command.commandId ≠ fenceId || D.receiptDigest fence ≠ fenceDigest))
        .conflict "exact source fence differs"
      pure (some fenceDigest)) = Except.ok fence → fence = some fenceDigest ∧
        ∀ digest, fence = some digest →
          ∃ record rcpt, replica.view.tenants cmd.tenant = some record ∧
            record.fence = some rcpt ∧ D.receiptDigest rcpt = digest := by
    intro fenceId fenceDigest h
    obtain ⟨record, hre, h⟩ := bind_ok h
    obtain ⟨rcpt, hr, h⟩ := bind_ok h
    obtain ⟨_, hm, h⟩ := bind_ok h
    cases h
    have hc := require_ok hm
    simp only [ne_eq, Bool.not_eq_true', Bool.or_eq_false_iff, decide_eq_false_iff_not,
      not_not] at hc
    refine ⟨rfl, fun digest hd => ?_⟩
    cases hd
    exact ⟨record, rcpt, orError_ok hre, orError_ok hr, hc.2⟩
  unfold drainedFence namedFence at *
  cases ha : cmd.action <;> rw [ha] at h
  case activate fenceId fenceDigest target => exact he fenceId fenceDigest h
  case activateCommitted fenceId fenceDigest target control => exact he fenceId fenceDigest h
  all_goals
    cases h
    exact ⟨rfl, fun _ hn => (nomatch hn)⟩

variable [Field K] {relevant : AuthorityReceipt P → Prop} {recorded : AuthorityReceipt P → K → Prop}
  {now : K} (required : K)

theorem requireDrain_sound (replica : Replica K P) (h : Sound D relevant clock recorded now replica.drains)
    (hk : Known D relevant recorded now digest) (term : ℕ) :
    Sound D relevant clock recorded now (requireDrain required replica digest term (clock now)).1.drains ∧
      ((requireDrain required replica digest term (clock now)).2 = .ok () →
        Waited D relevant clock required recorded now digest) := by
  obtain ⟨hs, hwa⟩ := h.witness required hk term 10000
  refine ⟨hs, fun ho => hwa ?_⟩
  obtain ⟨_, hw, _⟩ := bind_ok ho
  exact hw

def Proposed (D : AuthorityDigests P) (relevant : AuthorityReceipt P → Prop)
    (recorded : AuthorityReceipt P → K → Prop) (now : K)
    (replica : Replica K P) : Prop :=
  ∀ proposal, replica.proposal = some proposal →
    proposal.drainedFence = namedFence proposal.command ∧
    ∀ key, proposal.drainedFence = some key → Known D relevant recorded now key

theorem startProposal_sound (cmd : AuthorityCommand P) (term : ℕ) (hc : D.CollisionFree relevant)
    (h : Sound D relevant clock recorded now replica.drains)
    (hp : Proposed D relevant recorded now replica) (hr : ∀ rcpt f, recorded rcpt f → relevant rcpt)
    (hre : ∀ tenant record rcpt, replica.view.tenants tenant = some record →
      record.fence = some rcpt → ∃ f ≤ now, recorded rcpt f) :
    let replica' := (startProposal D required replica cmd term (clock now)).1
    Sound D relevant clock recorded now replica'.drains ∧ Proposed D relevant recorded now replica' ∧
      replica'.view = replica.view := by
  unfold startProposal
  cases replica.view.receipts cmd.tenant cmd.commandId with
  | some retained => exact ⟨h, hp, rfl⟩
  | none =>
    cases hfe : drainedFence D replica cmd with
    | error e => exact ⟨h, hp, rfl⟩
    | ok fence =>
      obtain ⟨hn, he⟩ := drainedFence_ok hfe
      cases fence with
      | none =>
        refine ⟨h, fun proposal hpr => ?_, rfl⟩
        cases hpr
        exact ⟨hn, fun _ hnon => (nomatch hnon)⟩
      | some digest =>
        have hk : Known D relevant recorded now digest := by
          intro fence hfe hd
          obtain ⟨record, rcpt, ht, hrec, heq⟩ := he digest rfl
          obtain ⟨f, hf, hno⟩ := hre _ record rcpt ht hrec
          obtain rfl := hc.receipts _ _ (hr rcpt f hno) hfe
            (heq.trans hd)
          exact ⟨f, hf, hno⟩
        have hs := (requireDrain_sound required replica h hk term).1
        dsimp only
        cases (requireDrain required replica digest term (clock now)).2 with
        | error e => exact ⟨hs, hp, rfl⟩
        | ok _ =>
          refine ⟨hs, fun proposal hpr => ?_, rfl⟩
          cases hpr
          refine ⟨hn, fun key hke => ?_⟩
          cases hke
          exact hk

theorem admitProposal_sound (ms : ℕ) (credential : Except Error Unit)
    (h : Sound D relevant clock recorded now replica.drains)
    (hpr : Proposed D relevant recorded now replica) :
    let result := admitProposal required replica ms credential (clock now)
    Sound D relevant clock recorded now result.1.drains ∧ result.1.view = replica.view ∧
      result.1.proposal = none ∧ ∀ proposal, result.2 = some proposal →
        ∀ key, namedFence proposal.command = some key →
          Waited D relevant clock required recorded now key := by
  unfold admitProposal
  cases hp : replica.proposal with
  | none => exact ⟨h, rfl, hp, fun _ hno => (nomatch hno)⟩
  | some proposal =>
    obtain ⟨hn, hk⟩ := hpr proposal hp
    dsimp only
    split
    · exact ⟨h, rfl, rfl, fun _ hno => (nomatch hno)⟩
    unfold recheck
    cases hf : proposal.drainedFence with
    | none =>
      refine ⟨h, rfl, rfl, fun proposal' hs key hke => ?_⟩
      cases hs
      rw [← hn, hf] at hke
      cases hke
    | some digest =>
      have hd := requireDrain_sound required { replica with proposal := none } h
        (hk digest hf) proposal.term
      cases hr : (requireDrain required { replica with proposal := none } digest
        proposal.term (clock now)).2 with
      | error e => exact ⟨hd.1, rfl, rfl, fun _ hno => (nomatch hno)⟩
      | ok u =>
        refine ⟨hd.1, rfl, rfl, fun proposal' hs key hke => ?_⟩
        cases hs
        rw [← hn, hf] at hke
        cases hke
        exact hd.2 hr

end Replica

/-! The replicas together -/

section Replicas

variable [Field K] (D : AuthorityDigests P) (relevant : AuthorityReceipt P → Prop) (required : K)
  (issuer : I → K → K)

def recordedAt (fenced : List (I × AuthorityReceipt P × K)) (p : I) (fence : AuthorityReceipt P)
    (f : K) : Prop :=
  (p, fence, f) ∈ fenced

/-- The first recording of a fence is noted once, every observation and proposal is sound, and
every admitted command has waited. -/
structure IssuerSafe (now : K) (replica : I → Replica K P)
    (fenced : List (I × AuthorityReceipt P × K)) (admitted : List (I × Proposal P × K)) :
    Prop where
  once : ∀ p fence f f', (p, fence, f) ∈ fenced → (p, fence, f') ∈ fenced → f = f'
  past : ∀ p fence f, (p, fence, f) ∈ fenced → f ≤ now
  recorded : ∀ p tenant record receipt, (replica p).view.tenants tenant = some record →
    record.fence = some receipt → ∃ f ≤ now, recordedAt fenced p receipt f
  sound : ∀ p, Sound D relevant (issuer p) (recordedAt fenced p) now (replica p).drains
  proposed : ∀ p, Proposed D relevant (recordedAt fenced p) now (replica p)
  admitted : ∀ p proposal d, (p, proposal, d) ∈ admitted → d ≤ now ∧
    ∀ key, namedFence proposal.command = some key →
      Waited D relevant (issuer p) required (recordedAt fenced p) d key

variable {D relevant required issuer} {now : K} {replica : I → Replica K P}
  {fenced : List (I × AuthorityReceipt P × K)} {admitted : List (I × Proposal P × K)}

theorem IssuerSafe.later
    (h : IssuerSafe D relevant required issuer now replica fenced admitted) (hl : now ≤ now')
    (hm : ∀ e ∈ fenced, e ∈ fenced') (ho : ∀ p fence f f', (p, fence, f) ∈ fenced' →
    (p, fence, f') ∈ fenced' → f = f') (hpa : ∀ p fence f, (p, fence, f) ∈ fenced' → f ≤ now') :
    IssuerSafe D relevant required issuer now' replica fenced' admitted := by
  constructor
  · exact ho
  · exact hpa
  · intro p tenant record rcpt ht hfe
    obtain ⟨f, hf, hr⟩ := h.recorded p tenant record rcpt ht hfe
    exact ⟨f, le_trans hf hl, hm _ hr⟩
  · intro p key drain hg
    obtain ⟨s, hs, hst, hfe⟩ := h.sound p key drain hg
    refine ⟨s, le_trans hs hl, hst, fun fence hre hke => ?_⟩
    obtain ⟨f, hf, hr⟩ := hfe fence hre hke
    exact ⟨f, hf, hm _ hr⟩
  · intro p proposal hp
    obtain ⟨hn, hk⟩ := h.proposed p proposal hp
    refine ⟨hn, fun key hke fence hre hfe => ?_⟩
    obtain ⟨f, hf, hr⟩ := hk key hke fence hre hfe
    exact ⟨f, le_trans hf hl, hm _ hr⟩
  intro p proposal d hme
  obtain ⟨hd, hw⟩ := h.admitted p proposal d hme
  refine ⟨le_trans hd hl, fun key hke => ?_⟩
  obtain ⟨s, hs, hreq, hfe⟩ := hw key hke
  refine ⟨s, hs, hreq, fun fence hre hdi => ?_⟩
  obtain ⟨f, hf, hr⟩ := hfe fence hre hdi
  exact ⟨f, hf, hm _ hr⟩

variable [DecidableEq I] {p : I}

theorem IssuerSafe.move (h : IssuerSafe D relevant required issuer now replica fenced admitted)
    (hr : ∀ tenant record rcpt, moved.view.tenants tenant = some record →
      record.fence = some rcpt → ∃ f ≤ now, recordedAt fenced p rcpt f)
    (hs : Sound D relevant (issuer p) (recordedAt fenced p) now moved.drains)
    (hp : Proposed D relevant (recordedAt fenced p) now moved) :
    IssuerSafe D relevant required issuer now (Function.update replica p moved) fenced admitted := by
  constructor
  · exact h.once
  · exact h.past
  · exact (Function.forall_update_iff replica fun q r => ∀ tenant record rcpt,
      r.view.tenants tenant = some record → record.fence = some rcpt →
        ∃ f ≤ now, recordedAt fenced q rcpt f).mpr ⟨hr, fun q _ => h.recorded q⟩
  · exact (Function.forall_update_iff replica fun q r =>
      Sound D relevant (issuer q) (recordedAt fenced q) now r.drains).mpr
        ⟨hs, fun q _ => h.sound q⟩
  · exact (Function.forall_update_iff replica fun q =>
      Proposed D relevant (recordedAt fenced q) now).mpr ⟨hp, fun q _ => h.proposed q⟩
  · exact h.admitted

variable [DecidableEq P]

omit [LinearOrder K] [Field K] in
theorem mem_noteFence
    (hm : (q, rcpt, f) ∈ noteFence fenced p now fence) : (q, rcpt, f) ∈ fenced ∨ q = p ∧
    fence = some rcpt ∧ f = now ∧ ∀ f', (q, rcpt, f') ∉ fenced := by
  cases fence with
  | none => exact .inl hm
  | some new =>
    rw [noteFence] at hm
    split at hm
    · exact .inl hm
    next hn =>
    rcases mem_cons.mp hm with he | hm
    · cases he
      refine .inr ⟨rfl, rfl, rfl, fun f' hf' => hn ?_⟩
      rw [any_eq_true]
      exact ⟨_, hf', by simp⟩
    · exact .inl hm

omit [LinearOrder K] [Field K] in
theorem noteFence_grows (fenced : List (I × AuthorityReceipt P × K)) (p : I) (now : K) (fence : Option (AuthorityReceipt P)) :
    ∀ e ∈ fenced, e ∈ noteFence fenced p now fence := by
  intro e he
  cases fence with
  | none => exact he
  | some new =>
    rw [noteFence]
    split
    · exact he
    · exact mem_cons_of_mem _ he

omit [LinearOrder K] [Field K] in
theorem noteFence_self (fenced : List (I × AuthorityReceipt P × K)) (p : I) (now : K) (rcpt : AuthorityReceipt P) :
    ∃ f, (p, rcpt, f) ∈ noteFence fenced p now (some rcpt) := by
  rw [noteFence]
  split
  · next ha =>
    obtain ⟨e, he, heq⟩ := any_eq_true.mp ha
    simp only [Bool.and_eq_true, decide_eq_true_eq] at heq
    obtain ⟨q, r, f⟩ := e
    obtain ⟨rfl, rfl⟩ := heq
    exact ⟨f, he⟩
  · exact ⟨now, mem_cons_self⟩

theorem IssuerSafe.apply (h : IssuerSafe D relevant required issuer now replica fenced admitted)
    (ho : ∀ t, t ≠ tenant → view.tenants t = (replica p).view.tenants t) :
    IssuerSafe D relevant required issuer now (Function.update replica p { replica p with view := view })
      (noteFence fenced p now ((view.tenants tenant).bind TenantRecord.fence)) admitted := by
  have hg := noteFence_grows fenced p now
    ((view.tenants tenant).bind TenantRecord.fence)
  have hp : ∀ q rcpt f, (q, rcpt, f) ∈ noteFence fenced p now
      ((view.tenants tenant).bind TenantRecord.fence) → f ≤ now := by
    intro q rcpt f hm
    rcases mem_noteFence hm with hold | ⟨_, _, hf, _⟩
    · exact h.past q rcpt f hold
    · exact le_of_eq hf
  have hl := h.later (le_refl now) hg (fun q rcpt f f' hf hf' => by
    rcases mem_noteFence hf with hold | ⟨_, _, rfl, hn⟩
    · rcases mem_noteFence hf' with hold' | ⟨_, _, _, hn⟩
      · exact h.once q rcpt f f' hold hold'
      · exact absurd hold (hn f)
    rcases mem_noteFence hf' with hold' | ⟨_, _, rfl, _⟩
    · exact absurd hold' (hn f')
    · rfl) hp
  refine hl.move (fun t record rcpt hte hfe => ?_) (hl.sound p)
    (hl.proposed p)
  by_cases ht : t = tenant
  · subst ht
    rw [hte, Option.bind_some, hfe] at hp ⊢
    obtain ⟨f, hm⟩ := noteFence_self fenced p now rcpt
    exact ⟨f, hp p rcpt f hm, hm⟩
  · exact hl.recorded p t record rcpt ((ho t ht).symm.trans hte) hfe

end Replicas

/-! The nodes -/

section Nodes

variable [Field K] (manifest : AuthorityManifest) (node : B → K → K)

def Anchored (now : K) (issued : List (LeaseClaims × K)) (b : B) (start : K)
    (own : LeaseClaims → Prop) : Prop :=
  ∃ a ≤ now, start = node b a ∧ ∀ claims v, (claims, v) ∈ issued → own claims → a ≤ v

structure NodeSafe (now : K) (attempts : List (LeaseAttempt K B))
    (leases : List (VerifiedLease K B)) (issued : List (LeaseClaims × K)) : Prop where
  attempts : ∀ attempt ∈ attempts, Anchored node now issued attempt.boot attempt.start
    fun claims => claims.request.attemptId = attempt.request.attemptId
  leases : ∀ lease ∈ leases,
    Anchored node now issued lease.boot lease.start (fun claims => claims = lease.claims) ∧
    lease.deadline = lease.start + (lease.claims.credentialLifetimeMs : K) ∧
    lease.claims.credentialLifetimeMs ≤ manifest.maxLeaseMs

variable {manifest node} {now start : K} {attempts : List (LeaseAttempt K B)}
  {leases : List (VerifiedLease K B)} {b : B} {attempt : LeaseAttempt K B} {claims : LeaseClaims}
  {lease : VerifiedLease K B}

omit [Field K] in
theorem Anchored.later (h : Anchored node now issued b start own) (hl : now ≤ now') :
    Anchored node now' issued b start own := by
  obtain ⟨a, ha, hs, ho⟩ := h
  exact ⟨a, le_trans ha hl, hs, ho⟩

omit [Field K] in
theorem Anchored.issue (h : Anchored node now issued b start own) (claims : LeaseClaims) :
    Anchored node now ((claims, now) :: issued) b start own := by
  obtain ⟨a, ha, hs, ho⟩ := h
  refine ⟨a, ha, hs, fun claims' v hm hc => ?_⟩
  rcases mem_cons.mp hm with he | hm
  · cases he
    exact ha
  · exact ho claims' v hm hc

theorem verify_ok (h : (attempt.verify D manifest claims signer boot instant).2 = .ok lease) :
    lease = ⟨attempt.boot, attempt.start, attempt.start + (claims.credentialLifetimeMs : K),
      claims⟩ ∧ claims.request = attempt.request ∧
      claims.credentialLifetimeMs ≤ manifest.maxLeaseMs := by
  unfold LeaseAttempt.verify at h
  cases hc : checkClaims D manifest attempt claims with
  | error e =>
    rw [hc] at h
    cases h
  | ok u =>
    rw [hc] at h
    replace h := then_ok h
    cases h
    obtain ⟨_, _, hc⟩ := bind_ok hc
    obtain ⟨_, hb, _⟩ := bind_ok hc
    have hco := ensure_ok hb
    simp only [Bool.and_eq_true, decide_eq_true_eq] at hco
    obtain ⟨⟨⟨⟨⟨⟨hr, _⟩, _⟩, hl⟩, _⟩, hcr⟩, _⟩ := hco
    exact ⟨rfl, hr, hl ▸ hcr⟩

theorem NodeSafe.verify (h : NodeSafe manifest node now attempts leases issued)
    (hat : attempt ∈ attempts) (hr : claims.request = attempt.request)
    (hl : claims.credentialLifetimeMs ≤ manifest.maxLeaseMs)
    (hle : lease = ⟨attempt.boot, attempt.start,
      attempt.start + (claims.credentialLifetimeMs : K), claims⟩) :
    NodeSafe manifest node now attempts (lease :: leases) issued := by
  constructor
  · exact h.attempts
  intro lease' hm
  rcases mem_cons.mp hm with rfl | hm
  · subst hle
    obtain ⟨a, ha, hs, ho⟩ := h.attempts attempt hat
    refine ⟨⟨a, ha, hs, fun claims' v hi hc => ho claims' v hi ?_⟩, rfl, hl⟩
    have hc : claims' = claims := hc
    dsimp only
    rw [hc, hr]
  · exact h.leases lease' hm

end Nodes

/-! The whole system -/

section Safety

variable {D : AuthorityDigests P} {relevant : AuthorityReceipt P → Prop}
  {manifest : AuthorityManifest} {required : K} {issuer : I → K → K} {node : B → K → K}
  {w : World K P I B}

theorem witness_known {now : K} (hc : D.CollisionFree relevant)
    (he : Enabled D w (.observe p witness term)) : Known D relevant recorded now witness.key := by
  intro fence hr hk
  have hv := D.receiptDigest_valid fence
  rw [← hk] at hv
  cases witness with
  | target digest =>
    rw [Witness.key, validDigest, String.toList_append, Bool.and_eq_true] at hv
    exact absurd hv.2 (by simp [isHexDigit])
  | control digest =>
    rw [Witness.key, validDigest, String.toList_append, Bool.and_eq_true] at hv
    exact absurd hv.2 (by simp [isHexDigit])
  | maintenance digest =>
    have hs : D.isStatusDigest digest = true := he
    have hk : digest = D.receiptDigest fence := hk
    rw [hk, hc.statuses fence hr] at hs
    cases hs

variable [Field K]

structure Safe (D : AuthorityDigests P) (relevant : AuthorityReceipt P → Prop)
    (manifest : AuthorityManifest) (required : K)
    (issuer : I → K → K) (node : B → K → K) (w : World K P I B) : Prop where
  issuer : IssuerSafe D relevant required issuer w.now w.replica w.fenced w.admitted
  node : NodeSafe manifest node w.now w.attempts w.leases w.issued

theorem safe_initial (h : Initial w) : Safe D relevant manifest required issuer node w := by
  constructor
  · constructor
    · simp [h.fenced]
    · simp [h.fenced]
    · intro p tenant record rcpt ht hf
      rw [h.unfenced p tenant record ht] at hf
      cases hf
    · intro p key drain hg
      rw [h.drains p] at hg
      cases hg
    · intro p proposal hp
      rw [h.proposals p] at hp
      cases hp
    · simp [h.admitted]
  constructor
  · simp [h.attempts]
  · simp [h.leases]

variable [DecidableEq P] [DecidableEq I] [DecidableEq B] {e : Event K P I B}

theorem safe_step (hc : D.CollisionFree relevant)
    (hr : ∀ p rcpt f, (p, rcpt, f) ∈ w.fenced → relevant rcpt)
    (h : Safe D relevant manifest required issuer node w) (hen : Enabled D w e) :
    Safe D relevant manifest required issuer node (next D manifest required issuer node w e) := by
  obtain ⟨hi, hn⟩ := h
  cases e with
  | tick time =>
    refine ⟨hi.later hen (fun _ he => he) hi.once fun p fence f hf =>
      le_trans (hi.past p fence f hf) hen, ?_⟩
    constructor
    · intro attempt hme
      exact (hn.attempts attempt hme).later hen
    intro lease hme
    obtain ⟨ha, hd⟩ := hn.leases lease hme
    exact ⟨ha.later hen, hd⟩
  | apply p tenant view => exact ⟨hi.apply hen, hn⟩
  | elect p term =>
    exact ⟨hi.move (hi.recorded p) (hi.sound p) (hi.proposed p), hn⟩
  | observe p witness term =>
    have hdr := requireDrain_sound required (w.replica p) (hi.sound p)
      (witness_known hc hen) term
    exact ⟨hi.move (hi.recorded p) hdr.1 (hi.proposed p), hn⟩
  | execute p cmd term =>
    obtain ⟨hs, hpr, hvi⟩ := startProposal_sound required cmd term hc
      (hi.sound p) (hi.proposed p) (hr p) (hi.recorded p)
    exact ⟨hi.move (hvi ▸ hi.recorded p) hs hpr, hn⟩
  | accept p ms credential =>
    obtain ⟨hs, hvi, hno, hw⟩ := admitProposal_sound required ms credential
      (hi.sound p) (hi.proposed p)
    have hm := hi.move (hvi ▸ hi.recorded p) hs fun proposal hp => by
      rw [hno] at hp
      cases hp
    refine ⟨{ hm with admitted := ?_ }, hn⟩
    intro q proposal d hme
    rcases mem_append.mp hme with hne | hold
    · obtain ⟨accepted, hac, heq⟩ := mem_map.mp hne
      cases heq
      exact ⟨le_refl _, hw _ (Option.mem_toList.mp hac)⟩
    · exact hi.admitted q proposal d hold
  | abandon p =>
    exact ⟨hi.move (hi.recorded p) (hi.sound p) fun _ hno => (nomatch hno), hn⟩
  | restart p =>
    exact ⟨hi.move (hi.recorded p) (fun _ _ hg => (nomatch hg)) fun _ hno => (nomatch hno), hn⟩
  | begin b attemptId =>
    unfold next
    dsimp only
    cases hrea : ((w.boot b).observe (node b w.now)).2 with
    | error f => exact ⟨hi, hn⟩
    | ok start =>
      have hst : start = node b w.now := by
        unfold ServingBoot.observe at hrea
        cases hse : (w.boot b).lastSeen with
        | none =>
          rw [hse] at hrea
          cases hrea
        | some prev =>
          rw [hse] at hrea
          dsimp only at hrea
          split at hrea
          · cases hrea
          · cases hrea
            rfl
      refine ⟨hi, ?_, hn.leases⟩
      intro attempt hme
      rcases mem_cons.mp hme with rfl | hme
      · exact ⟨w.now, le_refl _, hst, fun claims v his ho => absurd ho (hen (claims, v) his)⟩
      · exact hn.attempts attempt hme
  | acquire p req part term remaining caller =>
    unfold next
    dsimp only
    split
    · exact ⟨hi, hn⟩
    next claims _ =>
    refine ⟨hi, ?_, ?_⟩
    · intro attempt hme
      exact (hn.attempts attempt hme).issue claims
    intro lease hme
    obtain ⟨ha, hd⟩ := hn.leases lease hme
    exact ⟨ha.issue claims, hd⟩
  | verify attempt claims signer =>
    unfold next
    dsimp only
    cases hv : (attempt.verify D manifest claims signer (w.boot attempt.boot)
      (node attempt.boot w.now)).2 with
    | error f => exact ⟨hi, hn⟩
    | ok lease =>
      obtain ⟨hle, hre, hl⟩ := verify_ok hv
      exact ⟨hi, hn.verify hen.1 hre hl hle⟩
  | check lease signer => exact ⟨hi, hn⟩

theorem next_node (w : World K P I B) (h : e.ofNode) :
    (next D manifest required issuer node w e).replica = w.replica ∧
      (next D manifest required issuer node w e).fenced = w.fenced := by
  cases e with
  | begin | acquire | verify =>
    unfold next
    dsimp only
    split <;> exact ⟨rfl, rfl⟩
  | check lease signer => exact ⟨rfl, rfl⟩
  | _ => cases h

theorem run_nodes (w : World K P I B) {evs : List (Event K P I B)} (h : ∀ e ∈ evs, e.ofNode) :
    (evs.foldl (next D manifest required issuer node) w).replica = w.replica := by
  induction evs generalizing w with
  | nil => rfl
  | cons e rest ih =>
    obtain ⟨he, hr⟩ := forall_mem_cons.mp h
    exact (ih _ hr).trans (next_node w he).1

theorem next_fenced (w : World K P I B) (e : Event K P I B) :
    ∀ n ∈ w.fenced, n ∈ (next D manifest required issuer node w e).fenced := by
  intro n hn
  by_cases hno : e.ofNode
  · rw [(next_node w hno).2]
    exact hn
  cases e with
  | apply p tenant view => exact noteFence_grows w.fenced p w.now _ n hn
  | begin | acquire | verify => exact absurd trivial hno
  | _ => exact hn

theorem safe_reachable (hc : D.CollisionFree relevant)
    (h : Reachable D manifest required issuer node w) (hr : ∀ p rcpt f, (p, rcpt, f) ∈ w.fenced →
    relevant rcpt) : Safe D relevant manifest required issuer node w := by
  induction h with
  | initial h => exact safe_initial h
  | step e _ he ih =>
    have hb := fun p rcpt f hm => hr p rcpt f (next_fenced _ e _ hm)
    exact safe_step hc hb (ih hb) he

end Safety

/-! The drain interval -/

theorem le_divCeil_mul (h : 0 < b) : a ≤ divCeil a b * b := by
  have hm := Nat.div_add_mod (a + b - 1) b
  have hl := Nat.mod_lt (a + b - 1) h
  rw [divCeil, Nat.mul_comm]
  omega

theorem drainMs_ok {manifest : AuthorityManifest} (h : manifest.drainMs = .ok drain) :
    manifest.clockRateErrorPpm ≤ 10000 ∧
      manifest.maxLeaseMs * (1000000 + manifest.clockRateErrorPpm) ≤
        drain * (1000000 - manifest.clockRateErrorPpm) := by
  obtain ⟨_, hv, h⟩ := bind_ok h
  cases h
  replace hv := then_ok hv
  replace hv := then_ok hv
  replace hv := then_ok hv
  obtain ⟨_, hr, _⟩ := bind_ok hv
  have hr := ensure_ok hr
  rw [decide_eq_true_iff] at hr
  exact ⟨hr, le_divCeil_mul (by omega)⟩

section Theorem

variable [Field K] [IsStrictOrderedRing K] [DecidableEq P] [DecidableEq I] [DecidableEq B]
  {D : AuthorityDigests P} {manifest : AuthorityManifest} {issuer : I → K → K} {node : B → K → K}

def rateError (K : Type) [Field K] (manifest : AuthorityManifest) : K :=
  (manifest.clockRateErrorPpm : K) / 1000000

theorem rateError_bounds {drain : ℕ} (h : manifest.drainMs = .ok drain) :
    0 ≤ rateError K manifest ∧ rateError K manifest < 1 ∧
      (manifest.maxLeaseMs : K) * (1 + rateError K manifest) ≤
        drain * (1 - rateError K manifest) := by
  obtain ⟨hra, hd⟩ := drainMs_ok h
  have hp : (manifest.clockRateErrorPpm : K) ≤ 10000 := by exact_mod_cast hra
  have hn : (0 : K) ≤ manifest.clockRateErrorPpm := Nat.cast_nonneg _
  have hc : (manifest.maxLeaseMs : K) * (1000000 + manifest.clockRateErrorPpm) ≤
      drain * (1000000 - manifest.clockRateErrorPpm) := by
    have hs : ((1000000 - manifest.clockRateErrorPpm : ℕ) : K) =
        1000000 - manifest.clockRateErrorPpm := by
      rw [Nat.cast_sub (by omega)]
      norm_num
    rw [← hs]
    exact_mod_cast hd
  unfold rateError
  refine ⟨by positivity, ?_, ?_⟩
  · rw [div_lt_one (by norm_num)]
    linarith
  have hl : (manifest.maxLeaseMs : K) * (1 + manifest.clockRateErrorPpm / 1000000) =
      manifest.maxLeaseMs * (1000000 + manifest.clockRateErrorPpm) / 1000000 := by
    field_simp
  have hr : (drain : K) * (1 - manifest.clockRateErrorPpm / 1000000) =
      drain * (1000000 - manifest.clockRateErrorPpm) / 1000000 := by
    field_simp
  rw [hl, hr]
  exact div_le_div_of_nonneg_right hc (by norm_num)

/-- From the admission of an activation on, no lease issued before its replica recorded the
fence passes its check. Issuer clocks may also go back. -/
theorem fenced_leases_fail {w : World K P I B} {drain : ℕ} {p : I} {fence : AuthorityReceipt P}
    {proposal : Proposal P} {lease : VerifiedLease K B} {f d v t : K}
    (hcollision : D.CollisionFree fun receipt => ∃ q f', (q, receipt, f') ∈ w.fenced)
    (hdrain : manifest.drainMs = .ok drain) (hnodes : ∀ b, Rated (rateError K manifest) (node b))
    (hissuers : ∀ p, AtMost (1 + rateError K manifest) (issuer p))
    (hreach : Reachable D manifest (drain : K) issuer node w) (hfenced : (p, fence, f) ∈ w.fenced)
    (hadmitted : (p, proposal, d) ∈ w.admitted)
    (hnamed : namedFence proposal.command = some (D.receiptDigest fence))
    (hlease : lease ∈ w.leases) (hissued : (lease.claims, v) ∈ w.issued) (hbefore : v < f)
    (hlater : w.now ≤ t) (signer : Except Failure Unit) : ∃ failure,
    (lease.check signer (w.boot lease.boot) (node lease.boot t)).2 = .error failure := by
  obtain ⟨hi, hno⟩ := safe_reachable hcollision hreach fun q _ f' hm => ⟨q, f', hm⟩
  obtain ⟨hnow, hw⟩ := hi.admitted p proposal d hadmitted
  obtain ⟨s, hs, hr, hre⟩ := hw _ hnamed
  obtain ⟨f', hf', hf⟩ := hre fence ⟨p, f, hfenced⟩ rfl
  obtain rfl := hi.once p fence f f' hfenced hf
  obtain ⟨⟨a, _, hsta, ha⟩, hd, hl⟩ := hno.leases lease hlease
  have hav := ha lease.claims v hissued rfl
  obtain ⟨hn, hsm, hst⟩ := rateError_bounds (K := K) hdrain
  have hel := wait_outlasts hn hsm hst (hnodes lease.boot).slowest (hissuers p)
    (le_trans hav (le_trans (le_of_lt hbefore) hf')) hs (le_trans hnow hlater) hr
  have he : lease.deadline ≤ node lease.boot t := by
    have hc : (lease.claims.credentialLifetimeMs : K) ≤ manifest.maxLeaseMs :=
      Nat.cast_le.mpr hl
    rw [hd, hsta]
    linarith
  unfold VerifiedLease.check
  cases signer with
  | error e => exact ⟨e, rfl⟩
  | ok _ =>
    unfold ServingBoot.observe
    cases (w.boot lease.boot).lastSeen with
    | none => exact ⟨_, rfl⟩
    | some previous =>
      dsimp only
      split
      · exact ⟨_, rfl⟩
      refine ⟨.message "serving grant expired", ?_⟩
      have hnot : decide (node lease.boot t < lease.deadline) = false :=
        decide_eq_false (not_lt.mpr he)
      exact (ok_bind rfl).trans (by rw [ensure, hnot]; rfl)

end Theorem

def flatDigests : AuthorityDigests Unit where
  receiptDigest := fun receipt => digestText receipt.revision
  isStatusDigest := fun _ => false
  commandDigest := fun command => digestText command.commandId
  manifestDigest := fun manifest => digestText manifest.maxLeaseMs
  tenantHash := fun _ => 0
  uuidText := toString
  receiptDigest_valid := fun _ => digestText_valid _

def flatManifest : AuthorityManifest :=
  ⟨1, OrdMap.empty, OrdMap.empty.insert 0 ⟨"group", digestText 1⟩, 100, 10000⟩

def flatNode : NodeIdentity := ⟨1, ⟨1, 1⟩, "node", digestText 3⟩

def flatFence : AuthorityReceipt Unit where
  authorityId := 1
  manifestDigest := digestText 100
  part := 0
  command := ⟨⟨"acme", 5, 1, 1000⟩, .fence 1 1⟩
  commandDigest := digestText 5
  principal := "root"
  term := 1
  revision := 2
  admittedAtMs := 10
  outcome := .fenced 1 1

def flatRecord (fence : Option (AuthorityReceipt Unit)) : TenantRecord Unit :=
  ⟨"acme", 1, 1, [flatNode], digestText 4, none, fence⟩

def flatView (fence : Option (AuthorityReceipt Unit)) : AuthorityView Unit where
  tenants := fun tenant => if tenant = "acme" then some (flatRecord fence) else none
  receipts := fun _ _ => none
  targetStops := fun _ _ => none
  preparations := fun _ _ => none
  policyEpoch := 1
  revision := 1

def flatWorld : World ℚ Unit Unit Unit where
  now := 9
  replica := fun _ => ⟨flatView none, 1, OrdMap.empty, none⟩
  boot := fun _ => ⟨1, ⟨"acme", 1, 1, flatNode⟩, some 0, .serving⟩
  attempts := []
  leases := []
  issued := []
  fenced := []
  admitted := []

def flatRequest : LeaseRequest :=
  ⟨digestText 100, ⟨"acme", 1, 1, flatNode⟩, 1, 7, .serving⟩

def flatClaims : LeaseClaims :=
  ⟨flatRequest, 1, 0, 1, 1, 100, 100, digestText 4, none⟩

def flatLease : VerifiedLease ℚ Unit := ⟨(), 891 / 100, 10891 / 100, flatClaims⟩

def replacement : AuthorityCommand Unit :=
  ⟨⟨"acme", 6, 1, 1000⟩, .activate 5 (digestText 2) ⟨2, [flatNode],
    ⟨"acme", "1", 1, digestText 6, 1, digestText 7, digestText 8⟩⟩⟩

/-- One percent fast. -/
def fastClock (t : ℚ) : ℚ := 101 / 100 * t

/-- One percent slow. -/
def slowClock (t : ℚ) : ℚ := 99 / 100 * t

abbrev flatNext : World ℚ Unit Unit Unit → Event ℚ Unit Unit Unit → World ℚ Unit Unit Unit :=
  next flatDigests flatManifest ((103 : ℕ) : ℚ) (fun _ => fastClock) (fun _ => slowClock)

/-- A slow node gets a lease at time 9. The fence is recorded at 10 and waited for until 112 on
a fast issuer; on that clock the lease itself would be over at 109. -/
def flatEvents : List (Event ℚ Unit Unit Unit) :=
  [.begin () 7, .acquire () flatRequest 0 1 1000 (.ok ()),
    .verify ⟨(), 891 / 100, flatRequest⟩ flatClaims (.ok ()), .tick 10,
    .apply () "acme" (flatView (some flatFence)), .execute () replacement 1, .tick 112,
    .execute () replacement 1, .accept () 20 (.ok ())]

def flatEnd : World ℚ Unit Unit Unit := flatEvents.foldl flatNext flatWorld

theorem flatEnd_reachable :
    Reachable flatDigests flatManifest ((103 : ℕ) : ℚ) (fun _ => fastClock) (fun _ => slowClock)
      flatEnd := by
  have hi : Initial flatWorld :=
    { attempts := rfl, leases := rfl, issued := rfl, fenced := rfl, admitted := rfl,
      unfenced := by
        intro p tenant r hr
        have hr : (if tenant = "acme" then some (flatRecord none) else none) = some r := hr
        split at hr
        · cases hr
          rfl
        · cases hr
      drains := fun _ => rfl, proposals := fun _ => rfl }
  refine (Reachable.initial hi).run ⟨fun e he => (nomatch he), trivial, ⟨?_, 9, ?_⟩, ?_, ?_,
    trivial, ?_, trivial, trivial, trivial⟩
  · decide +kernel
  · decide +kernel
  · have hno : (9 : ℚ) ≤ 10 := by norm_num
    refine le_trans (le_of_eq ?_) hno
    decide +kernel
  · intro t ht
    have hn : ∀ e ∈ flatEvents.take 3, e.ofNode := by simp [flatEvents, Event.ofNode]
    have hre : ((flatEvents.take 3).foldl flatNext flatWorld).replica = flatWorld.replica :=
      run_nodes flatWorld hn
    refine Eq.trans ?_ (congrArg (fun r => (r ()).view.tenants t) hre).symm
    exact (if_neg ht).trans (if_neg ht).symm
  have hno : (10 : ℚ) ≤ 112 := by norm_num
  refine le_trans (le_of_eq ?_) hno
  decide +kernel

theorem fastClock_fast : AtMost (1 + 1 / 100) fastClock := by
  intro s t h
  unfold fastClock
  linarith

theorem slowClock_rated : Rated (1 / 100) slowClock := by
  constructor
  · intro s t h
    unfold slowClock
    linarith
  · intro s t h
    unfold slowClock
    linarith
  · intro s t h
    unfold slowClock
    linarith

theorem flat_lease_fails :
    ∃ failure, (flatLease.check (.ok ()) (flatEnd.boot ()) (slowClock 112)).2 = .error failure := by
  have hd : flatManifest.drainMs = .ok 103 := by decide +kernel
  have hz : rateError ℚ flatManifest = 1 / 100 := by
    unfold rateError
    norm_num [flatManifest]
  have he : flatEnd.fenced = [((), flatFence, 10)] ∧
      flatEnd.admitted = [((), ⟨replacement, 1, 1, some (digestText 2)⟩, 112)] ∧
      flatEnd.leases = [flatLease] ∧ flatEnd.issued = [(flatClaims, 9)] ∧ flatEnd.now = 112 := by
    decide +kernel
  obtain ⟨hf, ha, hl, hi, hn⟩ := he
  have hc : flatDigests.CollisionFree fun receipt =>
      ∃ q f', (q, receipt, f') ∈ flatEnd.fenced := by
    rw [hf]
    constructor
    · rintro r r' ⟨_, _, hr⟩ ⟨_, _, hr'⟩ _
      cases mem_singleton.mp hr
      cases mem_singleton.mp hr'
      rfl
    · exact fun _ _ => rfl
  have hfe : ((), flatFence, 10) ∈ flatEnd.fenced := hf ▸ mem_singleton_self _
  have had := ha ▸ mem_singleton_self
    (((), ⟨replacement, 1, 1, some (digestText 2)⟩, 112) : Unit × Proposal Unit × ℚ)
  have hle : flatLease ∈ flatEnd.leases := hl ▸ mem_singleton_self _
  have his : (flatLease.claims, 9) ∈ flatEnd.issued := hi ▸ mem_singleton_self _
  exact fenced_leases_fail hc hd (fun _ => hz ▸ slowClock_rated) (fun _ => hz ▸ fastClock_fast)
    flatEnd_reachable hfe had rfl hle his (by norm_num) (le_of_eq hn) (.ok ())

end FenceSafety
