import Kasumi.CustodyRefinement

/-! Runs of custody commands through the point tables and through the reducer over the whole
history. Every command gives the same result in both, and afterwards the stored rows are those
of the full state. -/
namespace CustodyHistory

open TenantTypes JsonText CustodyReducer CustodyTables List
open FallibleSteps CustodySizes CustodyRefinement

variable {Idx Acc α β : Type} {X : CustodyExternals Idx Acc}

def selectedOf (s : CustodyState) : Option CustodyReceipt → CustodyState
  | none => policy s
  | some r => { policy s with commands := OrdMap.empty.insert r.commandId r }

section Selected

variable {s : CustodyState}

theorem select_ok (hs : Shaped X s) (req : CustodyRequest) : (headOf s).select req
    (s.commands.get req.commandId) = .ok (selectedOf s (s.commands.get req.commandId)) := by
  cases hp : s.commands.get req.commandId with
  | none => rfl
  | some r =>
    have hr := hs.receipts _ _ hp
    have hi := hs.keyed _ _ hp
    rw [CustodyHead.select, ok_bind hr.shape.valid, ok_bind]
    · rfl
    apply require_true
    have hb : r.revision ≤ (headOf s).policy.revision := hr.before
    have he : r.policyEpoch ≤ (headOf s).policy.policyEpoch := hr.epoch
    simp [← hi, hb, he]

theorem selected_get (hs : Shaped X s) (req : CustodyRequest) :
    (selectedOf s (s.commands.get req.commandId)).commands.get req.commandId =
      s.commands.get req.commandId := by
  cases hp : s.commands.get req.commandId with
  | none => rfl
  | some r =>
    rw [selectedOf, hs.keyed _ _ hp, OrdMap.get_insert, if_pos rfl]

theorem selected_entry {id : String}
    (hg : (selectedOf s prior).commands.get id = some r) : prior = some r ∧ id = r.commandId := by
  cases prior with
  | none => cases hg
  | some p =>
    rw [selectedOf, OrdMap.get_insert] at hg
    by_cases hi : id = p.commandId
    · rw [if_pos hi] at hg
      cases hg
      exact ⟨rfl, hi⟩
    · rw [if_neg hi] at hg
      cases hg

theorem selected_shaped (hs : Shaped X s) (req : CustodyRequest) :
    Shaped X (selectedOf s (s.commands.get req.commandId)) := by
  cases hpr : s.commands.get req.commandId with
  | none => exact hs.policy
  | some p =>
    have hp := hs.policy
    constructor
    · exact hp.origin
    · exact hp.limits
    · exact hp.administrators
    · exact hp.epoch
    · exact hp.epochWord
    · exact hp.revision
    · exact hp.revisionWord
    · intro id r hg
      exact (selected_entry hg).2
    · intro id r hg
      obtain ⟨hsa, _⟩ := selected_entry hg
      cases hsa
      exact (hs.receipts _ _ hpr).mono rfl (le_refl _) (le_refl _)
    · trivial
    · exact fun e he => (nomatch he)

theorem selected_policy (prior : Option CustodyReceipt) : policy (selectedOf s prior) = policy s := by
  cases prior <;> rfl

end Selected

theorem obj_size_pos (members : List (String × Json)) : 1 ≤ size (.obj members) := by
  rw [size_obj]
  omega

theorem length_le_eventsTotal (l : List CustodyAudit) : l.length ≤ eventsTotal l := by
  have hsu := length_le_sum_of_one_le (l.map fun e => size (eventJson e)) (by
    intro n hn
    obtain ⟨e, _, rfl⟩ := mem_map.mp hn
    exact obj_size_pos _)
  rw [length_map] at hsu
  exact le_trans hsu (Nat.le_add_right _ _)

theorem size_le_commandsTotal (cmds : OrdMap String CustodyReceipt) :
    cmds.size ≤ commandsTotal cmds := by
  have hsu := length_le_sum_of_one_le (cmds.entries.map fun e => memberBytes e.2) (by
    intro n hn
    obtain ⟨e, _, rfl⟩ := mem_map.mp hn
    exact memberBytes_pos e.2)
  rw [length_map] at hsu
  exact le_trans hsu (Nat.le_add_right _ _)

theorem size_insert {cmds : OrdMap String CustodyReceipt} {id : String}
    (h : cmds.get id = none) : (cmds.insert id r).size = cmds.size + 1 := by
  have hsi := OrdMap.size_set cmds id (some r)
  rw [h] at hsi
  exact hsi

section Apply

variable {s : CustodyState} {context : RequestContext} {req : CustodyRequest}
  {ms rev : ℕ} {step : Step}

section Moves

variable (hs : Shaped X s)
  (h : Moved (policy s) (s.commands.get req.commandId) context req ms rev
    step) (had : ms < wordSize) (hrv : rev < wordSize)
include h

theorem historyTotal_extend :
    historyTotal (extend s step) = historyTotal s + size (eventJson step.event) +
      comma s.audit.length + (if step.event.replay then 0
        else memberBytes step.receipt + comma s.commands.size) := by
  have he := eventsTotal_append s.audit step.event
  have ha : (extend s step).audit = s.audit ++ [step.event] := rfl
  rw [historyTotal, historyTotal, ha, he]
  rcases extend_cases h with ⟨_, hr, hm⟩ | ⟨hp, hr, hm⟩
  · rw [hm, hr, if_pos rfl]
    omega
  · rw [hm, hr, if_neg Bool.false_ne_true, commandsTotal_insert hp]
    omega

include hs in
theorem Moved.selected : Moved (policy (selectedOf s (s.commands.get req.commandId)))
      ((selectedOf s (s.commands.get req.commandId)).commands.get req.commandId) context
      req ms rev step := by
  rw [selected_policy, selected_get hs req]
  exact h

include hs had hrv in
theorem selected_size_le :
    size (stateJson X (extend (selectedOf s (s.commands.get req.commandId)) step)) ≤
      size (stateJson X (extend s step)) := by
  have hse := selected_shaped hs req
  have hm := Moved.selected hs h
  rw [state_size (hs.extend h had hrv).keyed, state_size (hse.extend hm had hrv).keyed]
  have hpo : policy (extend (selectedOf s (s.commands.get req.commandId)) step) =
      policy (extend s step) := rfl
  rw [hpo, historyTotal_extend h, historyTotal_extend hm]
  cases hp : s.commands.get req.commandId with
  | none =>
    have ht : historyTotal (policy s) = 0 := rfl
    have hc : comma (policy s).commands.size = 0 := rfl
    have ha : comma (policy s).audit.length = 0 := rfl
    rw [selectedOf, ht, hc, ha]
    split <;> omega
  | some prior =>
    have hr : step.event.replay = true := by rw [h.replay, hp]; rfl
    have hl := memberBytes_le_total hp
    have ht : historyTotal (selectedOf s (some prior)) = memberBytes prior := by
      have hn : (OrdMap.empty : OrdMap String CustodyReceipt).get prior.commandId = none := rfl
      have hi := commandsTotal_insert (r := prior) hn
      have hz : commandsTotal OrdMap.empty + memberBytes prior +
        comma (OrdMap.empty : OrdMap String CustodyReceipt).size = 0 + memberBytes prior + 0 := rfl
      have he : eventsTotal [] = 0 := rfl
      rw [historyTotal, selectedOf]
      dsimp only [policy]
      omega
    have ha : comma (selectedOf s (some prior)).audit.length = 0 := rfl
    rw [if_pos hr, ht, ha, historyTotal]
    omega

theorem Counted.extend (hc : Counted s) : Counted (extend s step) := by
  have ha : (CustodyRefinement.extend s step).audit = s.audit ++ [step.event] := rfl
  rw [Counted, ha, countP_append, hc, countP_singleton]
  rcases extend_cases h with ⟨_, hr, hm⟩ | ⟨hp, hr, hm⟩
  · rw [hm, hr]
    rfl
  · rw [hm, hr]
    exact (size_insert hp).symm

theorem extend_policy : policy (extend s step) = step.policy := h.bare

include hs had hrv in
theorem eventBytes_ok : encodedLen (eventJson step.event) = .ok (size (eventJson step.event)) :=
  encodedLen_ok (small_word (le_trans
    (event_size (refers_own hs h had hrv).shape) (by decide)))

theorem headOf_extend :
    headOf (extend s step) =
      { version := 1, policy := step.policy,
        commands := s.commands.size + if step.event.replay then 0 else 1,
        audit := s.audit.length + 1,
        historyBytes := historyTotal s + size (eventJson step.event) + comma s.audit.length +
          (if step.event.replay then 0 else memberBytes step.receipt + comma s.commands.size) } := by
  have hc : (extend s step).commands.size =
      s.commands.size + if step.event.replay then 0 else 1 := by
    rcases extend_cases h with ⟨_, hr, hm⟩ | ⟨hp, hr, hm⟩
    · rw [hm, hr]
      rfl
    · rw [hm, hr]
      exact size_insert hp
  have ha : (extend s step).audit.length = s.audit.length + 1 := by
    have : (extend s step).audit = s.audit ++ [step.event] := rfl
    rw [this, length_append, length_singleton]
  rw [headOf, extend_policy h, hc, ha, historyTotal_extend h]

end Moves

def Overflows (n : ℕ) (x : Except Error α) : Prop :=
  wordSize ≤ n ∧ ∃ m, x = .error ⟨.quotaExceeded, m⟩

theorem Overflows.mono {x : Except Error α} {y : Except Error β} (h : Overflows m x)
    (hl : m ≤ n) (hxy : ∀ e, x = .error e → y = .error e) : Overflows n y := by
  obtain ⟨hm, text, hx⟩ := h
  exact ⟨le_trans hm hl, text, hxy _ hx⟩

theorem add_cases (a b : ℕ) :
    orQuota (checkedAdd a b) = .ok (a + b) ∨ Overflows (a + b) (orQuota (checkedAdd a b)) := by
  by_cases h : a + b < wordSize
  · rw [checkedAdd_of_lt h]
    exact .inl rfl
  · rw [checkedAdd, if_neg h]
    exact .inr ⟨not_lt.mp h, _, rfl⟩

theorem add_comma_cases (a b c : ℕ) : orQuota ((checkedAdd a b).bind (checkedAdd · c)) = .ok (a + b
    + c) ∨ Overflows (a + b + c) (orQuota ((checkedAdd a b).bind (checkedAdd · c))) := by
  by_cases h : a + b < wordSize
  · rw [checkedAdd_of_lt h]
    exact add_cases (a + b) c
  · rw [checkedAdd, if_neg h]
    exact .inr ⟨by omega, _, rfl⟩

/-- What the head does once the transition is made: count, and check the new head. -/
def recount (X : CustodyExternals Idx Acc) (head : CustodyHead) (fresh : Bool) (step : Step) :
    Except Error (CustodyHead × CustodyReceipt × CustodyAudit) := do
  let eventBytes ← encodedLen (eventJson step.event)
  let bytes ← orQuota ((checkedAdd head.historyBytes eventBytes).bind
    (checkedAdd · (comma head.audit)))
  let bytes ← head.addReceipt fresh step.receipt bytes
  let commands ← orQuota (checkedAdd head.commands (if fresh then 1 else 0))
  let audit ← orQuota (checkedAdd head.audit 1)
  let next : CustodyHead :=
    { version := 1, policy := step.policy, commands := commands, audit := audit,
      historyBytes := bytes }
  next.validate X
  pure (next, step.receipt, step.event)

section Counts

variable (hs : Shaped X s)
  (h : Moved (policy s) (s.commands.get req.commandId) context req ms rev
    step) (had : ms < wordSize) (hrv : rev < wordSize)
include h

theorem addReceipt_cases (bs : ℕ) : let fresh := (s.commands.get req.commandId).isNone
    let total := bs + if step.event.replay then 0
      else memberBytes step.receipt + comma s.commands.size
    (headOf s).addReceipt fresh step.receipt bs = .ok total ∨
      Overflows total ((headOf s).addReceipt fresh step.receipt bs) := by
  rcases extend_cases h with ⟨hp, hr, _⟩ | ⟨hp, hr, _⟩
  · rw [hp, hr]
    exact .inl rfl
  have ha : (headOf s).addReceipt true step.receipt bs =
      orQuota ((checkedAdd bs (memberBytes step.receipt)).bind
        (checkedAdd · (comma (headOf s).commands))) :=
    ok_bind (commandBytes_ok (h.fresh hp).2.2.2.2.2)
  have hc := add_comma_cases bs (memberBytes step.receipt) (comma (headOf s).commands)
  rw [Nat.add_assoc] at hc
  rw [hp, hr, Option.isNone_none]
  dsimp only
  rw [ha]
  exact hc

include hs had hrv

theorem recount_cases :
    Overflows (historyTotal (extend s step))
        (recount X (headOf s) (s.commands.get req.commandId).isNone step) ∨
    recount X (headOf s) (s.commands.get req.commandId).isNone step = (do
      (headOf (extend s step)).validate X
      pure (headOf (extend s step), step.receipt, step.event)) := by
  have hh := historyTotal_extend h
  have hev := length_le_eventsTotal (extend s step).audit
  have hr := size_le_commandsTotal (extend s step).commands
  have ht : historyTotal (extend s step) =
    commandsTotal (extend s step).commands + eventsTotal (extend s step).audit := rfl
  have hhe := headOf_extend h
  have hc : (extend s step).commands.size =
    s.commands.size + if step.event.replay then 0 else 1 := congrArg CustodyHead.commands hhe
  have ha : (extend s step).audit.length = s.audit.length + 1 :=
    congrArg CustodyHead.audit hhe
  rw [hhe, recount, ok_bind (eventBytes_ok hs h had hrv)]
  rcases add_comma_cases (headOf s).historyBytes (size (eventJson step.event))
    (comma (headOf s).audit) with hb | ho
  swap
  · refine .inl (ho.mono ?_ fun e he => bind_of_error he)
    rw [hh]
    exact Nat.le_add_right _ _
  rw [ok_bind hb]
  rcases addReceipt_cases h ((headOf s).historyBytes + size (eventJson step.event) +
    comma (headOf s).audit) with hsu | ho
  swap
  · exact .inl (ho.mono (le_of_eq hh.symm) fun e he => bind_of_error he)
  rw [ok_bind hsu]
  have hf : (if (s.commands.get req.commandId).isNone = true then 1 else 0) =
      if step.event.replay then 0 else 1 := by
    rw [h.replay]
    cases s.commands.get req.commandId <;> rfl
  rw [hf]
  rcases add_cases (headOf s).commands (if step.event.replay then 0 else 1) with hn | ho
  swap
  · refine .inl (ho.mono ?_ fun e he => bind_of_error he)
    have : (headOf s).commands = s.commands.size := rfl
    omega
  rw [ok_bind hn]
  rcases add_cases (headOf s).audit 1 with hk | ho
  swap
  · refine .inl (ho.mono ?_ fun e he => bind_of_error he)
    have : (headOf s).audit = s.audit.length := rfl
    omega
  right
  rw [ok_bind hk]
  rfl

/-- Counting is exact: the new head is that of the extended history when it fits its budget,
and the command is refused for its bytes otherwise. -/
theorem recount_headOf (hc : Counted s) :
    (size (stateJson X (extend s step)) ≤ step.policy.limits.maxStateBytes →
      recount X (headOf s) (s.commands.get req.commandId).isNone step =
        .ok (headOf (extend s step), step.receipt, step.event)) ∧
    (¬ size (stateJson X (extend s step)) ≤ step.policy.limits.maxStateBytes →
      ∃ m, recount X (headOf s) (s.commands.get req.commandId).isNone step =
        .error ⟨.quotaExceeded, m⟩) := by
  have he := hs.extend h had hrv
  obtain ⟨hv, hr⟩ := headOf_validate he (Counted.extend h hc)
  have hsi := state_size (X := X) he.keyed
  have hma := he.maxWord
  rcases recount_cases hs h had hrv with ⟨hov, hm⟩ | ho
  · refine ⟨fun hf => ?_, fun _ => hm⟩
    exact absurd hma (by
      have : (extend s step).limits = step.policy.limits := rfl
      rw [this]
      omega)
  rw [ho]
  refine ⟨fun hf => ok_bind (hv hf), fun hf => ?_⟩
  obtain ⟨m, hm⟩ := hr hf
  exact ⟨m, bind_of_error hm⟩

end Counts

theorem head_apply_eq (hs : Shaped X s) (hv : (headOf s).validate X = .ok ()) :
    (headOf s).apply X (s.commands.get req.commandId) context req ms rev =
      (do
        let step ← transition X (policy s) (s.commands.get req.commandId) context req
          ms rev
        (extend (selectedOf s (s.commands.get req.commandId)) step).validate X
        recount X (headOf s) (s.commands.get req.commandId).isNone step) := by
  rw [CustodyHead.apply, ok_bind hv]
  rw [ok_bind (select_ok hs req), apply_eq, selected_policy, selected_get hs req]
  cases ht : transition X (policy s) (s.commands.get req.commandId) context req
    ms rev with
  | error e => rfl
  | ok step =>
    have hb : (selectedOf s (s.commands.get req.commandId)).audit = [] := by
      cases s.commands.get req.commandId <;> rfl
    have hl : (extend (selectedOf s (s.commands.get req.commandId)) step).audit.getLast? =
        some step.event := by
      have : (extend (selectedOf s (s.commands.get req.commandId)) step).audit =
        (selectedOf s (s.commands.get req.commandId)).audit ++ [step.event] := rfl
      rw [this, hb]
      rfl
    have hp : policy (extend (selectedOf s (s.commands.get req.commandId)) step) =
        step.policy := by
      replace ht := then_ok ht
      replace ht := then_ok ht
      replace ht := then_ok ht
      obtain ⟨_, _, ht⟩ := bind_ok ht
      replace ht := then_ok ht
      obtain ⟨_, _, ht⟩ := bind_ok ht
      replace ht := then_ok ht
      obtain ⟨_, _, ht⟩ := bind_ok ht
      cases ht
      rfl
    cases hse : (extend (selectedOf s (s.commands.get req.commandId)) step).validate X with
    | error e => simp only [bind, Except.bind, hse]
    | ok _ =>
      simp only [bind, Except.bind, pure, Except.pure, hse, hl, orError, recount, hp]

theorem head_apply (hs : Shaped X s) (hc : Counted s)
    (hfi : size (stateJson X s) ≤ s.limits.maxStateBytes) (had : ms < wordSize)
    (hrv : rev < wordSize) :
    let point := (headOf s).apply X (s.commands.get req.commandId) context req
      ms rev
    let full := s.apply X context req ms rev
    (∃ e, point = .error e ∧ full = .error e) ∨
    (∃ m n, point = .error ⟨.quotaExceeded, m⟩ ∧ full = .error ⟨.quotaExceeded, n⟩) ∨
    ∃ step, Moved (policy s) (s.commands.get req.commandId) context req ms
        rev step ∧
      size (stateJson X (extend s step)) ≤ step.policy.limits.maxStateBytes ∧
      point = .ok (headOf (extend s step), step.receipt, step.event) ∧
      full = .ok (extend s step, step.receipt) := by
  have hv := (headOf_validate hs hc).1 hfi
  rw [head_apply_eq hs hv, apply_eq]
  cases ht : transition X (policy s) (s.commands.get req.commandId) context req
    ms rev with
  | error e => exact .inl ⟨e, rfl, rfl⟩
  | ok step =>
    right
    have hp := hs.policy
    have hmo := transition_ok hp.limits hp.administrators hp.epoch hp.epochWord had
      hrv ht
    have hex := hs.extend hmo had hrv
    have hsel := (selected_shaped hs req).extend (Moved.selected hs hmo) had hrv
    have hle := selected_size_le hs hmo had hrv
    obtain ⟨hr, hre⟩ := recount_headOf hs hmo had hrv hc
    have hl : (extend s step).limits = step.policy.limits := rfl
    have hselL : (extend (selectedOf s (s.commands.get req.commandId)) step).limits =
      step.policy.limits := rfl
    have hse := hsel.validate_eq
    have he := hex.validate_eq
    rw [hselL] at hse
    by_cases hf : size (stateJson X (extend s step)) ≤ step.policy.limits.maxStateBytes
    · right
      refine ⟨step, hmo, hf, ?_, ?_⟩
      · have ho := hse.trans (require_true (decide_eq_true (le_trans hle hf)) _ _)
        exact (ok_bind rfl).trans ((ok_bind ho).trans (hr hf))
      · have ho := he.trans (require_true (decide_eq_true hf) _ _)
        exact (ok_bind rfl).trans (ok_bind ho)
    left
    have her : (extend s step).validate X = .error ⟨.quotaExceeded, _⟩ :=
      he.trans (if_neg (by rwa [decide_eq_true_iff]))
    by_cases hsm : size (stateJson X (extend (selectedOf s (s.commands.get
        req.commandId)) step)) ≤ step.policy.limits.maxStateBytes
    · obtain ⟨m, hm⟩ := hre hf
      have ho := hse.trans (require_true (decide_eq_true hsm) _ _)
      exact ⟨m, _, (ok_bind rfl).trans ((ok_bind ho).trans hm),
        (ok_bind rfl).trans (bind_of_error her)⟩
    have hselE := hse.trans (if_neg (by rwa [decide_eq_true_iff]))
    exact ⟨_, _, (ok_bind rfl).trans (bind_of_error hselE),
      (ok_bind rfl).trans (bind_of_error her)⟩

end Apply

end CustodyHistory
