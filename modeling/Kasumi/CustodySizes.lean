import Kasumi.CustodyTables
import Kasumi.TenantFrames

/-! Encoded lengths of custody records. Names and digests are short and numbers have at most
twenty digits, so receipts, events and heads stay below the bounds of their rows. The length
of a state is that of its policy with an empty history plus the bytes of its history. -/
namespace CustodySizes

open TenantTypes TenantAccess Retirement JsonText CustodyReducer CustodyTables TenantFrames List
open FallibleSteps

def keyBytes (keys : List String) : ℕ := (keys.map fun k => (quote k).length + 1).sum

theorem size_obj_keys (members : List (String × Json)) : size (.obj members) = 2 + keyBytes
    (members.map Prod.fst) + (members.map fun m => size m.2).sum + (members.length - 1) := by
  have hs : (members.map memberSize).sum =
      keyBytes (members.map Prod.fst) + (members.map fun m => size m.2).sum := by
    induction members with
    | nil => rfl
    | cons m rest ih =>
      simp only [map_cons, sum_cons, ih, memberSize, keyBytes]
      omega
  rw [size_obj, hs]
  omega

variable {s : String}

theorem plain_of_not_control (h : s.toList.any isControl = false) :
    ∀ c ∈ s.toList, 32 ≤ c.toNat := by
  intro c hc
  have hn := any_eq_false.mp h c hc
  simp only [isControl, Bool.or_eq_true, decide_eq_true_eq, not_or, not_lt] at hn
  exact hn.1

theorem name_size (h : validateName s = .ok ()) : size (.str s) ≤ 514 := by
  have hc := require_ok h
  simp only [Bool.not_eq_true', Bool.or_eq_false_iff, decide_eq_false_iff_not, not_lt] at hc
  have hq := quote_length_le (plain_of_not_control hc.2)
  have hl : s.utf8ByteSize ≤ 256 := hc.1.2
  rw [size, encode]
  omega

theorem hex_digit_plain (h : isHexDigit c = true) : 32 ≤ c.toNat ∧ c.utf8Size = 1 := by
  simp only [isHexDigit, Bool.or_eq_true, Bool.and_eq_true, decide_eq_true_eq, Char.le_def,
    UInt32.le_iff_toNat_le] at h
  have hr : 48 ≤ c.val.toNat ∧ c.val.toNat ≤ 102 := by
    rcases h with ⟨hl, hh⟩ | ⟨hl, hh⟩
    · exact ⟨hl, le_trans hh (by decide)⟩
    · exact ⟨le_trans (by decide) hl, hh⟩
  constructor
  · exact le_trans (by decide) hr.1
  · rw [Char.utf8Size, if_pos]
    exact UInt32.le_iff_toNat_le.mpr (le_trans hr.2 (by decide))

theorem digest_size (h : validDigest d = true) : size (.str d) ≤ 130 := by
  simp only [validDigest, Bool.and_eq_true, decide_eq_true_eq] at h
  have hh := all_eq_true.mp h.2
  have hq := quote_length_le fun c hc => (hex_digit_plain (hh c hc)).1
  have hb : d.utf8ByteSize = 64 := by
    rw [utf8ByteSize_eq_sum, map_congr_left fun c hc => (hex_digit_plain (hh c hc)).2,
      map_const', sum_replicate_nat, h.1]
  rw [hb] at hq
  rw [size, encode]
  omega

theorem word_size (h : n < wordSize) : size (.num n) ≤ 20 := by
  apply size_num_le (by decide)
  exact lt_of_lt_of_le h (by decide)

theorem uuid_size {Acc : Type} (X : CustodyExternals Idx Acc) (u : Uuid) :
    size (.str (X.uuidText u)) ≤ 74 := by
  have hq := quote_length_le (plain_of_not_control (X.uuidText_plain u))
  rw [X.uuidText_size u] at hq
  rw [size, encode]
  omega

structure ReceiptShape (r : CustodyReceipt) : Prop where
  valid : r.validate = .ok ()
  revision : r.revision < wordSize
  admitted : r.admittedAtMs < wordSize
  previousEpoch : r.previousPolicyEpoch < wordSize
  epoch : r.policyEpoch < wordSize
  outcome : r.outcome = .ok () ∨
    r.outcome = .error ⟨.conflict, "custody action deadline expired"⟩ ∨
    r.outcome = .error ⟨.conflict, "custody policy changed"⟩

variable {r : CustodyReceipt}

theorem ReceiptShape.names (h : ReceiptShape r) : validateName r.commandId = .ok () ∧ validateName
    r.principal = .ok () ∧ validDigest r.requestDigest = true := by
  obtain ⟨_, hi, hr⟩ := bind_ok h.valid
  obtain ⟨_, hp, hr⟩ := bind_ok hr
  obtain ⟨_, hd, _⟩ := bind_ok hr
  exact ⟨hi, hp, require_ok hd⟩

theorem outcome_size (h : ReceiptShape r) : size (outcomeJson r.outcome) ≤ 100 := by
  rcases h.outcome with h | h | h <;> rw [h] <;> decide

theorem receipt_size (h : ReceiptShape r) : size (receiptJson r) ≤ 2048 := by
  obtain ⟨hi, hp, hd⟩ := h.names
  have hi := name_size hi
  have hp := name_size hp
  have hd := digest_size hd
  have hr := word_size h.revision
  have ha := word_size h.admitted
  have hpr := word_size h.previousEpoch
  have he := word_size h.epoch
  have ho := outcome_size h
  have hk : keyBytes ["command_id", "request_digest", "principal", "revision",
      "admitted_at_ms", "previous_policy_epoch", "policy_epoch", "outcome"] ≤ 200 := by
    decide +kernel
  simp [receiptJson, size_obj_keys]
  omega

structure EventShape (e : CustodyAudit) : Prop where
  principal : validateName e.principal = .ok ()
  requestId : validateName e.requestId = .ok ()
  commandId : validateName e.commandId = .ok ()
  digest : validDigest e.requestDigest = true
  revision : e.revision < wordSize
  admitted : e.admittedAtMs < wordSize
  epoch : e.policyEpoch < wordSize

theorem event_size (h : EventShape e) : size (eventJson e) ≤ 2048 := by
  have hp := name_size h.principal
  have hre := name_size h.requestId
  have hc := name_size h.commandId
  have hd := digest_size h.digest
  have hr := word_size h.revision
  have ha := word_size h.admitted
  have he := word_size h.epoch
  have hb : ∀ b, size (.bool b) ≤ 5 := by decide
  have hrep := hb e.replay
  have hac := hb e.accepted
  have hk : keyBytes ["principal", "request_id", "command_id", "request_digest", "revision",
      "admitted_at_ms", "policy_epoch", "replay", "accepted"] ≤ 200 := by
    decide +kernel
  simp [eventJson, size_obj_keys]
  omega

theorem validateEach_ok (h : validateEach names = .ok ()) :
    ∀ name ∈ names, validateName name = .ok () := by
  induction names with
  | nil => exact fun _ hm => (nomatch hm)
  | cons first rest ih =>
    obtain ⟨_, hf, hr⟩ := bind_ok h
    intro name hm
    rcases mem_cons.mp hm with rfl | hm
    · exact hf
    · exact ih hr name hm

theorem sum_le_length_mul {f : String → ℕ} {l : List String}
    (h : ∀ s ∈ l, f s ≤ bound) : (l.map f).sum ≤ l.length * bound := by
  induction l with
  | nil => exact Nat.zero_le _
  | cons first rest ih =>
    have hf := h first mem_cons_self
    have hr := ih fun s hs => h s (mem_cons_of_mem first hs)
    rw [map_cons, sum_cons, length_cons, Nat.succ_mul]
    omega

structure NameSet (names : OrdSet String) : Prop where
  count : names.size ≤ 1024
  valid : ∀ name ∈ names.keys, validateName name = .ok ()

theorem names_size {names : OrdSet String} (h : NameSet names) :
    size (namesJson names) ≤ 530000 := by
  have hsu := sum_le_length_mul fun s hs => name_size (h.valid s hs)
  have hl : names.keys.length = names.size := length_map ..
  have hc := h.count
  rw [namesJson, size_arr, map_map, length_map]
  have hm : (names.keys.map (size ∘ Json.str)).sum ≤ names.keys.length * 514 := hsu
  rw [hl] at hm ⊢
  omega

theorem administrators_names
    (h : validateCustodyAdministrators names = .ok ()) : NameSet names := by
  obtain ⟨_, hc, he⟩ := bind_ok h
  have hco := require_ok hc
  simp only [Bool.not_eq_true', Bool.or_eq_false_iff, decide_eq_false_iff_not, not_lt] at hco
  exact ⟨hco.2, validateEach_ok he⟩

section Origin

variable {Idx Acc : Type} (X : CustodyExternals Idx Acc)

structure OriginShape (origin : RetiredSnapshotState) : Prop where
  request : RetireSourceRequest.validate X.toExternals origin.request = .ok ()
  receipt : RetirementReceipt.validate X.toExternals origin.receipt = .ok ()
  administrators : NameSet origin.administrators
  base : origin.revisionBase < wordSize
  revision : origin.revision < wordSize
  epoch : origin.policyEpoch < wordSize
  deadline : origin.request.notAfterMs < wordSize
  requestCheckpoint : origin.request.checkpoint.revision < wordSize
  receiptRevision : origin.receipt.revision < wordSize
  receiptEpoch : origin.receipt.policyEpoch < wordSize
  receiptAdmitted : origin.receipt.admittedAtMs < wordSize
  receiptCheckpoint : origin.receipt.checkpoint.revision < wordSize

variable {X} {s : CustodyState}

theorem checkpoint_size {c : FullBackupCheckpoint} (h : FullBackupCheckpoint.validate c = .ok ())
    (hw : c.revision < wordSize) : size (checkpointJson X c) ≤ 2048 := by
  obtain ⟨_, ht, h⟩ := bind_ok h
  obtain ⟨_, hs, h⟩ := bind_ok h
  obtain ⟨_, hr, h⟩ := bind_ok h
  obtain ⟨_, hm, h⟩ := bind_ok h
  obtain ⟨_, hl, _⟩ := bind_ok h
  have ht := name_size ht
  have hs := name_size hs
  have hr := digest_size (require_ok hr)
  have hm := digest_size (require_ok hm)
  have hl := digest_size (require_ok hl)
  have hre := word_size hw
  have hb := uuid_size X c.backupId
  have hk : keyBytes ["tenant", "source_incarnation", "revision", "resident_sha256",
      "backup_id", "manifest_ciphertext_sha256", "key_lineage_digest"] ≤ 200 := by
    decide +kernel
  simp [checkpointJson, size_obj_keys]
  omega

theorem target_size {target : Uuid} {text : String}
    (h : canonicalTarget X.toExternals target text = true) : size (.str text) ≤ 74 := by
  simp only [canonicalTarget, Bool.and_eq_true, decide_eq_true_eq] at h
  rw [← h.2]
  exact uuid_size X target

theorem retire_size {r : RetireSourceRequest}
    (h : RetireSourceRequest.validate X.toExternals r = .ok ()) (hw : r.notAfterMs < wordSize)
    (hc : r.checkpoint.revision < wordSize) : size (retireJson X r) ≤ 5000 := by
  obtain ⟨_, hi, h⟩ := bind_ok h
  obtain ⟨_, hs, h⟩ := bind_ok h
  obtain ⟨_, hd, h⟩ := bind_ok h
  obtain ⟨_, hch, h⟩ := bind_ok h
  obtain ⟨target, _, h⟩ := bind_ok h
  have hco := require_ok h
  simp only [Bool.and_eq_true] at hco
  have ht := target_size hco.1.1.1
  have hi := name_size hi
  have hs := name_size hs
  have hd := name_size hd
  have hch := checkpoint_size (X := X) hch hc
  have hde := word_size hw
  have hk : keyBytes ["retirement_id", "expected_source_incarnation", "target_incarnation",
      "checkpoint", "destination", "not_after_ms"] ≤ 200 := by
    decide +kernel
  simp [retireJson, size_obj_keys]
  omega

theorem retirement_size {r : RetirementReceipt}
    (h : RetirementReceipt.validate X.toExternals r = .ok ()) (hr : r.revision < wordSize)
    (he : r.policyEpoch < wordSize) (ha : r.admittedAtMs < wordSize)
    (hc : r.checkpoint.revision < wordSize) : size (retirementJson X r) ≤ 6000 := by
  obtain ⟨_, ht, h⟩ := bind_ok h
  obtain ⟨_, hp, h⟩ := bind_ok h
  obtain ⟨_, hi, h⟩ := bind_ok h
  obtain ⟨_, hs, h⟩ := bind_ok h
  obtain ⟨_, hd, h⟩ := bind_ok h
  obtain ⟨_, hcl, h⟩ := bind_ok h
  obtain ⟨_, hch, h⟩ := bind_ok h
  obtain ⟨target, _, h⟩ := bind_ok h
  have hco := require_ok h
  simp only [Bool.and_eq_true] at hco
  have hta := target_size hco.1.1.1.1.1
  have ht := name_size ht
  have hp := name_size hp
  have hi := name_size hi
  have hs := name_size hs
  have hd := digest_size (require_ok hd)
  have hcl := digest_size (require_ok hcl)
  have hch := checkpoint_size (X := X) hch hc
  have hre := word_size hr
  have hep := word_size he
  have had := word_size ha
  have hk : keyBytes ["tenant", "principal", "retirement_id", "request_digest",
      "source_incarnation", "target_incarnation", "revision", "policy_epoch", "admitted_at_ms",
      "checkpoint", "closure_digest"] ≤ 250 := by
    decide +kernel
  simp [retirementJson, size_obj_keys]
  omega

theorem origin_size {origin : RetiredSnapshotState} (h : OriginShape X origin) :
    size (originJson X origin) ≤ 545000 := by
  have hb := word_size h.base
  have hr := word_size h.revision
  have he := word_size h.epoch
  have hn := names_size h.administrators
  have hre := retire_size h.request h.deadline h.requestCheckpoint
  have hrec := retirement_size h.receipt h.receiptRevision h.receiptEpoch h.receiptAdmitted
    h.receiptCheckpoint
  have hk : keyBytes ["revision_base", "revision", "policy_epoch", "administrators",
      "request", "receipt"] ≤ 200 := by
    decide +kernel
  simp [originJson, size_obj_keys]
  omega

def memberBytes (r : CustodyReceipt) : ℕ := memberSize (r.commandId, receiptJson r)

def commandsTotal (commands : OrdMap String CustodyReceipt) : ℕ :=
  commands.weight (fun _ r => memberBytes r) + (commands.size - 1)

def eventsTotal (audit : List CustodyAudit) : ℕ :=
  (audit.map fun e => size (eventJson e)).sum + (audit.length - 1)

def historyTotal (s : CustodyState) : ℕ := commandsTotal s.commands + eventsTotal s.audit

def Keyed (commands : OrdMap String CustodyReceipt) : Prop :=
  ∀ id r, commands.get id = some r → id = r.commandId

theorem commands_size (h : Keyed cmds) : size (commandsJson cmds) = 2 + commandsTotal cmds := by
  have hs : (cmds.entries.map (memberSize ∘ fun e => (e.1, receiptJson e.2))).sum =
      cmds.weight fun _ r => memberBytes r := by
    apply congrArg List.sum
    apply map_congr_left
    rintro ⟨id, r⟩ hm
    have hi := h id r (OrdMap.mem_entries.mp hm)
    simp only [Function.comp_apply, memberBytes, ← hi]
  rw [commandsJson, size_obj, map_map, length_map, hs, commandsTotal, OrdMap.size]
  omega

theorem events_size (audit : List CustodyAudit) :
    size (.arr (audit.map eventJson)) = 2 + eventsTotal audit := by
  rw [size_arr, map_map, length_map, eventsTotal]
  have : (audit.map (size ∘ eventJson)).sum = (audit.map fun e => size (eventJson e)).sum := rfl
  omega

theorem state_size (h : Keyed s.commands) :
    size (stateJson X s) = size (stateJson X (policy s)) + historyTotal s := by
  have hn : size (commandsJson (OrdMap.empty : OrdMap String CustodyReceipt)) = 2 := rfl
  have hem : size (.arr (([] : List CustodyAudit).map eventJson)) = 2 := rfl
  have hc := commands_size h
  have he := events_size s.audit
  rw [stateJson, stateJson, size_obj_keys, size_obj_keys, historyTotal]
  simp only [map_cons, map_nil, sum_cons, sum_nil, length_cons,
    length_nil, policy] at hn hem hc he ⊢
  omega

theorem policy_size (ho : OriginShape X s.origin) (ha : NameSet s.administrators)
    (hr : s.revision < wordSize) (he : s.policyEpoch < wordSize)
    (hl : s.limits.maxStateBytes < wordSize) : size (stateJson X (policy s)) ≤ 1080000 := by
  have hor := origin_size ho
  have hn := names_size ha
  have hre := word_size hr
  have hep := word_size he
  have hm := word_size hl
  have hli : size (limitsJson s.limits) ≤ 50 := by
    have hk : keyBytes ["max_state_bytes"] ≤ 20 := by decide +kernel
    simp [limitsJson, size_obj_keys]
    omega
  have hno : size (commandsJson (OrdMap.empty : OrdMap String CustodyReceipt)) = 2 := rfl
  have hem : size (.arr (([] : List CustodyAudit).map eventJson)) = 2 := rfl
  have hk : keyBytes ["origin", "revision", "policy_epoch", "administrators", "limits",
      "commands", "audit"] ≤ 100 := by
    decide +kernel
  rw [stateJson, size_obj_keys]
  simp only [map_cons, map_nil, sum_cons, sum_nil, length_cons, length_nil, policy] at hno hem ⊢
  omega

end Origin

end CustodySizes
