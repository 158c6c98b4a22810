import Kasumi.CustodyHistory

/-! Runs of custody commands. The ledger applies each command to the full state; the store
applies it to the point rows. Step by step both give the same result and the rows stay those
of the ledger. -/
namespace CustodyRun

open TenantTypes JsonText CustodyReducer CustodyTables TenantFrames List
open FallibleSteps CustodySizes PermanentRows CustodyRefinement CustodyHistory

variable {Idx Acc Control : Type} {X : CustodyExternals Idx Acc}

def auditRows (events : List CustodyAudit) : OrdMap ℕ CustodyAudit where
  entries := events.zipIdx.map fun e => (e.2, e.1)
  sorted := by
    unfold SortedAssoc.Sorted
    rw [List.pairwise_map]
    rw [List.pairwise_iff_getElem]
    intro i j hi hj hij
    rw [List.getElem_zipIdx, List.getElem_zipIdx]
    simpa using hij

theorem auditRows_get (evs : List CustodyAudit) (i : ℕ) : (auditRows evs).get i = evs[i]? := by
  apply Option.ext
  intro e
  have hm : (i, e) ∈ (auditRows evs).entries ↔ evs[i]? = some e := by
    dsimp only [auditRows]
    rw [mem_map]
    constructor
    · rintro ⟨⟨a, k⟩, ha, he⟩
      cases he
      exact mem_zipIdx_iff_getElem?.mp ha
    · intro hg
      exact ⟨(e, i), mem_zipIdx_iff_getElem?.mpr hg, rfl⟩
  exact OrdMap.mem_entries.symm.trans hm

theorem auditRows_append (evs : List CustodyAudit) (e : CustodyAudit) :
    (auditRows evs).insert evs.length e = auditRows (evs ++ [e]) := by
  apply OrdMap.ext_get
  intro i
  rw [OrdMap.get_insert, auditRows_get, auditRows_get]
  by_cases hi : i = evs.length
  · rw [if_pos hi, hi, getElem?_concat_length]
  rw [if_neg hi]
  by_cases hl : i < evs.length
  · rw [getElem?_append_left hl]
  rw [getElem?_eq_none (by omega), getElem?_eq_none]
  rw [length_append, length_singleton]
  omega

structure Ledger where
  state : CustodyState
  applied : Option AppliedCursor

variable (X) in
def applyLedger (ledger : Ledger) (position : AppliedEntryContext) (command : CustodyCommand) :
    Except Failure (Ledger × Except Error CustodyReceipt) := do
  checkCommand X position command
  checkPosition ledger.applied position
  let revision ← context "custody revision exhausted"
    (checkedAdd ledger.state.origin.revisionBase position.logId.index)
  match ledger.state.apply X command.context command.request command.admittedAtMs revision with
  | .ok (next, receipt) => pure (⟨next, some (.entry position.record)⟩, .ok receipt)
  | .error error => pure (⟨ledger.state, some (.entry position.record)⟩, .error error)

variable (X) in
/-- The rows of the store are those of the ledger, and the ledger is a history the reducer
can have produced. -/
structure Mirrors (validateRetiredBoundary : Control → RetiredBoundary → Except Failure Unit)
    (store : CustodyStore Control) (ledger : Ledger) : Prop where
  shaped : Shaped X ledger.state
  counted : Counted ledger.state
  fits : size (stateJson X ledger.state) ≤ ledger.state.limits.maxStateBytes
  boundary : ∃ b, store.boundary = some b ∧ validateRetiredBoundary store.control b = .ok () ∧
    ledger.state.origin.request = b.request ∧ ledger.state.origin.receipt = b.receipt
  head : store.head = some (headOf ledger.state)
  applied : store.applied = ledger.applied
  commands : store.commands = ledger.state.commands
  audit : store.audit = auditRows ledger.state.audit

def SameResult : Except Error CustodyReceipt → Except Error CustodyReceipt → Prop
  | .ok r, .ok r' => r = r'
  | .error e, .error e' => e.code = e'.code
  | _, _ => False

theorem headOf_size (hs : Shaped X s) (hc : Counted s)
    (hf : size (stateJson X s) ≤ s.limits.maxStateBytes) :
    size (headJson X (headOf s)) ≤ headBytes := by
  have hp := hs.policy_le
  have hsi := state_size (X := X) hs.keyed
  have hm := hs.maxWord
  have hl := (hc.counts hs).1
  have he := length_le_eventsTotal s.audit
  have ht : historyTotal s = commandsTotal s.commands + eventsTotal s.audit := rfl
  have hv : size (.num 1) ≤ 20 := word_size (by decide)
  have hco : size (.num s.commands.size) ≤ 20 := word_size (by omega)
  have ha : size (.num s.audit.length) ≤ 20 := word_size (by omega)
  have hh : size (.num (historyTotal s)) ≤ 20 := word_size (by omega)
  have hk : keyBytes ["version", "policy", "commands", "audit", "history_bytes"] ≤ 100 := by
    decide +kernel
  have hb : headBytes = 2097152 := rfl
  rw [headJson, size_obj_keys, hb]
  simp only [map_cons, map_nil, sum_cons, sum_nil, length_cons, length_nil, headOf]
  omega

section Step

variable {V : Control → RetiredBoundary → Except Failure Unit} {store : CustodyStore Control}
  {ledger : Ledger}

theorem bounded_ok {length : α → ℕ}
    (h : ∀ a, row = some a → length a ≤ limit) : bounded limit length row = .ok row := by
  cases row with
  | none => rfl
  | some a =>
    rw [bounded, ensure, decide_eq_true (h a rfl)]
    rfl

section

variable (h : Mirrors X V store ledger)

include h

theorem Mirrors.head_ok : custodyHead X V store = .ok (headOf ledger.state) := by
  obtain ⟨b, hb, hv, hre, hrec⟩ := h.boundary
  have hbo : retiredBoundary V store = .ok (some b) := by
    rw [retiredBoundary, hb]
    exact ok_bind hv
  have hl : load X store = .ok (headOf ledger.state) := by
    rw [load, ok_bind (bounded_ok fun head hh => ?_), h.head]
    · have ho := (headOf_validate h.shaped h.counted).1 h.fits
      have hli : lift ((headOf ledger.state).validate X) = .ok () := by
        rw [ho]
        rfl
      exact ok_bind hli
    rw [h.head] at hh
    cases hh
    exact headOf_size h.shaped h.counted h.fits
  rw [custodyHead, ok_bind hbo]
  have hs : context "source is not proven retired" (some b) = .ok b := rfl
  rw [ok_bind hs, ok_bind hl]
  have hbi : ensure ((headOf ledger.state).policy.origin.request = b.request &&
      (headOf ledger.state).policy.origin.receipt = b.receipt)
      "custody point table retirement binding differs" = .ok () := by
    have hr : (headOf ledger.state).policy.origin.request = b.request := hre
    have hr' : (headOf ledger.state).policy.origin.receipt = b.receipt := hrec
    rw [hr, hr', decide_eq_true rfl, decide_eq_true rfl]
    rfl
  rw [ok_bind hbi]
  rfl

theorem Mirrors.prior_ok (id : String) : bounded recordBytes (fun rcpt => size
    (receiptJson rcpt)) (store.commands.get id) = .ok (ledger.state.commands.get id) := by
  rw [h.commands]
  apply bounded_ok
  intro r hr
  exact le_trans (receipt_size (h.shaped.receipts id r hr).shape) (by decide)

theorem Mirrors.writes {context : RequestContext} (cursor : AppliedCursor)
    (hm : Moved (policy ledger.state) (ledger.state.commands.get req.commandId) context
      req ms rev step) (ha : ms < wordSize) (hr : rev < wordSize)
    (hfi : size (stateJson X (extend ledger.state step)) ≤ step.policy.limits.maxStateBytes) :
    ∃ store', transitionWrites X { store with applied := some cursor }
        (headOf (extend ledger.state step)) step.receipt step.event = .ok store' ∧
      Mirrors X V store' ⟨extend ledger.state step, some cursor⟩ := by
  set next := extend ledger.state step with hnext
  have hex := h.shaped.extend hm ha hr
  have hc := Counted.extend hm h.counted
  have hl : next.limits = step.policy.limits := rfl
  have hf : size (stateJson X next) ≤ next.limits.maxStateBytes := by
    rw [hl]
    exact hfi
  have hv := (headOf_validate hex hc).1 hf
  have href := refers_own h.shaped hm ha hr
  have hh := headOf_extend hm
  have hp : ensure ((headOf next).audit ≠ 0 && step.event.revision = (headOf next).policy.revision)
      "custody audit publication position differs" = .ok () := by
    rw [hh]
    have hrev : step.event.revision = step.policy.revision := by
      rw [hm.position, hm.reached]
    simp [ensure, hrev]
  have he : size (eventJson step.event) ≤ recordBytes :=
    le_trans (event_size href.shape) (by decide)
  have hrec : size (receiptJson step.receipt) ≤ recordBytes := by
    have hin := hex.receipts _ _ (extend_own hm)
    exact le_trans (receipt_size hin.shape) (by decide)
  have hs : ensure (size (eventJson step.event) ≤ recordBytes &&
      size (receiptJson step.receipt) ≤ recordBytes) "custody point record exceeds bound" =
      .ok () := by
    rw [decide_eq_true he, decide_eq_true hrec]
    rfl
  have hw : (headOf next).write X = .ok (headOf next) := by
    have hli : lift ((headOf next).validate X) = .ok () := by
      rw [hv]
      rfl
    rw [CustodyHead.write, ok_bind hli, ensure, decide_eq_true (headOf_size hex hc hf)]
    rfl
  rw [transitionWrites, ok_bind hp, ok_bind hs, ok_bind hw]
  refine ⟨_, rfl, ?_⟩
  obtain ⟨b, hb, hac, hreq, hre⟩ := h.boundary
  have ho : next.origin = ledger.state.origin := hm.origin
  constructor
  · exact hex
  · exact hc
  · exact hf
  · refine ⟨b, hb, hac, ?_, ?_⟩
    · rw [ho]
      exact hreq
    · rw [ho]
      exact hre
  · rfl
  · rfl
  · rw [h.commands]
    rfl
  have hi : (headOf next).audit - 1 = ledger.state.audit.length := by
    rw [hh]
    rfl
  rw [hi, h.audit]
  exact auditRows_append ledger.state.audit step.event

theorem Mirrors.refused (cursor : AppliedCursor) :
    Mirrors X V { store with applied := some cursor } ⟨ledger.state, some cursor⟩ :=
  { shaped := h.shaped, counted := h.counted, fits := h.fits, boundary := h.boundary,
    head := h.head, applied := rfl, commands := h.commands, audit := h.audit }

theorem Mirrors.step (pos : AppliedEntryContext) {cmd : CustodyCommand}
    (ha : cmd.admittedAtMs < wordSize) : (∃ f, applyCustody X V store pos cmd = .error f ∧
    applyLedger X ledger pos cmd = .error f) ∨ ∃ store' result ledger' result',
    applyCustody X V store pos cmd = .ok (store', result) ∧
    applyLedger X ledger pos cmd = .ok (ledger', result') ∧ SameResult result result' ∧
    Mirrors X V store' ledger' := by
  rw [applyCustody, applyLedger]
  cases hco : checkCommand X pos cmd with
  | error f => exact .inl ⟨f, rfl, rfl⟩
  | ok _ =>
  rw [ok_bind rfl, ok_bind rfl, ok_bind h.head_ok, h.applied]
  cases hpo : checkPosition ledger.applied pos with
  | error f => exact .inl ⟨f, rfl, rfl⟩
  | ok _ =>
  rw [ok_bind rfl, ok_bind rfl]
  have hb : (headOf ledger.state).policy.origin.revisionBase =
    ledger.state.origin.revisionBase := rfl
  rw [hb]
  cases hr : checkedAdd ledger.state.origin.revisionBase pos.logId.index with
  | none => exact .inl ⟨_, rfl, rfl⟩
  | some rev =>
  have hwo : rev < wordSize := by
    obtain ⟨rfl, hl⟩ := checkedAdd_some hr
    exact hl
  right
  have hc : context "custody revision exhausted" (some rev) = .ok rev := rfl
  rw [ok_bind hc, ok_bind hc, ok_bind (h.prior_ok cmd.request.commandId)]
  rcases head_apply h.shaped h.counted h.fits ha hwo with
    ⟨e, hp, hf⟩ | ⟨m, n, hp, hf⟩ | ⟨step, hmo, hfi, hp, hf⟩
  · rw [hp, hf]
    exact ⟨_, _, _, _, rfl, rfl, rfl, h.refused _⟩
  · rw [hp, hf]
    exact ⟨_, _, _, _, rfl, rfl, rfl, h.refused _⟩
  rw [hp, hf]
  obtain ⟨store', hw, hm⟩ :=
    h.writes (.entry pos.record) hmo ha hwo hfi
  exact ⟨store', _, _, _, ok_bind hw, rfl, rfl, hm⟩

end

end Step

theorem addCommands_ok (total : ℕ) (h : ∀ r ∈ l, ReceiptShape r)
    (hw : total + (l.map memberBytes).sum < wordSize) :
    addCommands total l = .ok (total + (l.map memberBytes).sum) := by
  induction l generalizing total with
  | nil => rfl
  | cons r rest ih =>
    rw [map_cons, sum_cons] at hw ⊢
    have ha : orQuota (checkedAdd total (memberBytes r)) = .ok (total + memberBytes r) := by
      rw [checkedAdd_of_lt (by omega)]
      rfl
    rw [addCommands, ok_bind (commandBytes_ok (h r mem_cons_self)), ok_bind ha,
      ih _ (fun r' hr => h r' (mem_cons_of_mem r hr)) (by omega)]
    congr 1
    omega

theorem addEvents_ok (total : ℕ) (h : ∀ e ∈ l, EventShape e)
    (hw : total + (l.map fun e => size (eventJson e)).sum < wordSize) :
    addEvents total l = .ok (total + (l.map fun e => size (eventJson e)).sum) := by
  induction l generalizing total with
  | nil => rfl
  | cons e rest ih =>
    rw [map_cons, sum_cons] at hw ⊢
    have hb : encodedLen (eventJson e) = .ok (size (eventJson e)) :=
      encodedLen_ok (small_word (le_trans (event_size (h e mem_cons_self)) (by decide)))
    have ha : orQuota (checkedAdd total (size (eventJson e))) =
        .ok (total + size (eventJson e)) := by
      rw [checkedAdd_of_lt (by omega)]
      rfl
    rw [addEvents, ok_bind hb, ok_bind ha,
      ih _ (fun e' he => h e' (mem_cons_of_mem e he)) (by omega)]
    congr 1
    omega

theorem fromState_ok (hs : Shaped X s) (hc : Counted s)
    (hf : size (stateJson X s) ≤ s.limits.maxStateBytes) :
    CustodyHead.fromState X s = .ok (headOf s) := by
  have hv : s.validate X = .ok () :=
    hs.validate_eq.trans (require_true (decide_eq_true hf) _ _)
  have hsi := state_size (X := X) hs.keyed
  have hm := hs.maxWord
  have hw : (s.commands.values.map memberBytes).sum =
      s.commands.weight fun _ r => memberBytes r := by
    rw [OrdMap.values, map_map]
    rfl
  have ht : historyTotal s = (s.commands.weight fun _ r => memberBytes r) +
    (s.commands.size - 1) + ((s.audit.map fun e => size (eventJson e)).sum +
      (s.audit.length - 1)) := rfl
  have hre : ∀ r ∈ s.commands.values, ReceiptShape r := by
    intro r hr
    obtain ⟨id, hg⟩ := OrdMap.mem_values.mp hr
    exact (hs.receipts id r hg).shape
  have hev : ∀ e ∈ s.audit, EventShape e := by
    intro e he
    obtain ⟨_, hr, _⟩ := hs.events e he
    exact hr.shape
  have hco := addCommands_ok 0 hre (by omega)
  rw [hw, Nat.zero_add] at hco
  have ha := addEvents_ok (s.commands.weight fun _ r => memberBytes r) hev (by omega)
  have hsu : orQuota ((checkedAdd ((s.commands.weight fun _ r => memberBytes r) +
      (s.audit.map fun e => size (eventJson e)).sum) (s.commands.size - 1)).bind
      (checkedAdd · (s.audit.length - 1))) = .ok (historyTotal s) := by
    rw [checkedAdd_of_lt (by omega), Option.bind_some, checkedAdd_of_lt (by omega), ht, orQuota,
      orError]
    congr 1
    omega
  rw [CustodyHead.fromState, ok_bind hv, ok_bind hco, ok_bind ha]
  rw [ok_bind hsu]
  exact ok_bind ((headOf_validate hs hc).1 hf)

/-! A ledger starts at the retirement and grows entry by entry. -/

structure Entry where
  position : AppliedEntryContext
  command : CustodyCommand

section Runs

variable (X) (V : Control → RetiredBoundary → Except Failure Unit)

def runCustody (store : CustodyStore Control) :
    List Entry → Except Failure (CustodyStore Control × List (Except Error CustodyReceipt))
  | [] => pure (store, [])
  | entry :: rest => do
    let (store, result) ← applyCustody X V store entry.position entry.command
    let (store, results) ← runCustody store rest
    pure (store, result :: results)

def runLedger (ledger : Ledger) :
    List Entry → Except Failure (Ledger × List (Except Error CustodyReceipt))
  | [] => pure (ledger, [])
  | entry :: rest => do
    let (ledger, result) ← applyLedger X ledger entry.position entry.command
    let (ledger, results) ← runLedger ledger rest
    pure (ledger, result :: results)

variable {X V}

theorem Mirrors.run {store : CustodyStore Control}
    (h : Mirrors X V store ledger) (ha : ∀ entry ∈ es, entry.command.admittedAtMs < wordSize) :
    (∃ f, runCustody X V store es = .error f ∧ runLedger X ledger es = .error f) ∨
    ∃ store' results ledger' results', runCustody X V store es = .ok (store', results) ∧
    runLedger X ledger es = .ok (ledger', results') ∧ List.Forall₂ SameResult results results' ∧
    Mirrors X V store' ledger' := by
  induction es generalizing store ledger with
  | nil => exact .inr ⟨store, [], ledger, [], rfl, rfl, .nil, h⟩
  | cons entry rest ih =>
    rw [runCustody, runLedger]
    rcases h.step entry.position (ha entry mem_cons_self) with
      ⟨f, hs, hl⟩ | ⟨store', result, ledger', result', hs, hl, hsa, h'⟩
    · exact .inl ⟨f, bind_of_error hs, bind_of_error hl⟩
    rw [ok_bind hs, ok_bind hl]
    dsimp only
    rcases ih h' fun e he => ha e (mem_cons_of_mem entry he) with
      ⟨f, hs, hl⟩ | ⟨store'', results, ledger'', results', hs, hl, hal, h''⟩
    · exact .inl ⟨f, bind_of_error hs, bind_of_error hl⟩
    · rw [ok_bind hs, ok_bind hl]
      exact .inr ⟨store'', _, ledger'', _, rfl, rfl, .cons hsa hal, h''⟩

end Runs

end CustodyRun
