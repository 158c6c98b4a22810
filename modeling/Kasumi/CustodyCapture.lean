import Kasumi.CustodyRun

/-! A snapshot of the point rows of a ledger is accepted: the rows enter the scratch tables,
their bytes add up to the total of the head, and every event refers to its receipt. -/
namespace CustodyCapture

open TenantTypes TenantAccess JsonText CustodyReducer CustodyTables TenantFrames List SortedAssoc
open FallibleSteps CustodySizes PermanentRows CustodyRefinement CustodyHistory CustodyRun

theorem ensure_true (h : c = true) (text : String) : ensure c text = .ok () := by
  rw [h]
  rfl

theorem lift_ok_of (h : x = .ok a) : lift x = .ok a := by
  rw [h]
  rfl

theorem context_some (h : o = some a) (text : String) : context text o = .ok a := by
  rw [h]
  rfl

theorem add_comma_word {b : ℕ} (h : a + b + c < wordSize) :
    (checkedAdd a b).bind (checkedAdd · c) = some (a + b + c) := by
  rw [checkedAdd_of_lt (by omega)]
  exact checkedAdd_of_lt h

section Steps

variable {α β : Type}

theorem ensure_bind {c : Bool} {text : String} (h : c = true) :
    (ensure c text >>= f) = f () := ok_bind (ensure_true h text)

theorem lift_bind {x : Except Error α} {a : α} (h : x = .ok a) :
    (lift x >>= f) = f a := ok_bind (lift_ok_of h)

theorem context_bind {o : Option α} {a : α} {f : α → Except Failure β}
    (h : o = some a) : (context text o >>= f) = f a := ok_bind (context_some h text)

end Steps

/-- A scratch table after `count` insertions: its visible rows, and an open batch that holds
the records since the last full one. -/
structure Filled {K V : Type} [LinearOrder K] (table : ScratchTable K V) (count width : ℕ)
    (rows : OrdMap K V) : Prop where
  rows : table.opened.rows = rows
  entries : table.opened.entries = count % maxBatchEntries
  bytes : table.opened.bytes ≤ count % maxBatchEntries * width

variable {K V : Type}

theorem filled_empty [LinearOrder K] (width : ℕ) :
    Filled (ScratchTable.empty : ScratchTable K V) 0 width OrdMap.empty :=
  ⟨rfl, rfl, Nat.zero_le _⟩

theorem Filled.insert [LinearOrder K] {tab : ScratchTable K V} {count : ℕ} {rows : OrdMap K V}
    (h : Filled tab count width rows) {key : K} (v : V)
    (hk : rows.get key = none) (hl : keyLength ≤ 4096) (hw : keyLength + valueLength ≤ width)
    (hb : width ≤ 262144) : ∃ t, tab.insert keyLength valueLength key v = .ok t ∧
    Filled (t.settle (count + 1)) (count + 1) width (rows.insert key v) := by
  have he := h.entries
  have hby := h.bytes
  have hm : count % maxBatchEntries < 16 := Nat.mod_lt _ (by decide)
  have hp : count % maxBatchEntries * width ≤ 15 * width := Nat.mul_le_mul_right _ (by omega)
  have hma : maxBatchBytes = 4194304 ∧ maxBatchEntries = 16 ∧ 32 * mib = 33554432 := by decide
  refine ⟨{ tab with batch := some ⟨tab.opened.rows.insert key v,
    tab.opened.bytes + keyLength + valueLength, tab.opened.entries + 1⟩ }, ?_, ?_⟩
  · rw [ScratchTable.insert, ensure_bind, context_bind (add_comma_word (small_word (by omega))),
      ensure_bind, ensure_bind]
    · rfl
    · rw [h.rows, OrdMap.contains, hk]
      rfl
    · simp only [Bool.and_eq_true, decide_eq_true_eq]
      omega
    · simp only [Bool.and_eq_true, decide_eq_true_eq]
      omega
  have hs : (count + 1) % maxBatchEntries =
      if count % maxBatchEntries + 1 = 16 then 0 else count % maxBatchEntries + 1 := by
    have : maxBatchEntries = 16 := rfl
    rw [this]
    split <;> omega
  rw [ScratchTable.settle]
  by_cases hf : (count + 1) % maxBatchEntries = 0
  · rw [if_pos hf]
    refine ⟨?_, ?_, Nat.zero_le _⟩
    · rw [← h.rows]
      rfl
    · rw [hf]
      rfl
  rw [if_neg hf]
  rw [hs] at hf
  have hn : (count + 1) % maxBatchEntries = count % maxBatchEntries + 1 := by
    rw [hs]
    split
    · next heq => exact absurd (if_pos heq) hf
    · rfl
  refine ⟨?_, ?_, ?_⟩
  · rw [← h.rows]
    rfl
  · rw [hn, ← he]
    rfl
  rw [hn, Nat.succ_mul]
  have : (ScratchTable.opened { tab with batch := some (⟨tab.opened.rows.insert key v,
    tab.opened.bytes + keyLength + valueLength, tab.opened.entries + 1⟩ :
      ScratchBatch K V) }).bytes = tab.opened.bytes + keyLength + valueLength := rfl
  omega

theorem Filled.commit [LinearOrder K] {tab : ScratchTable K V} {count : ℕ}
    {rows : OrdMap K V} (h : Filled tab count width rows) : tab.commit.rows = rows := h.rows

theorem name_length (h : validateName name = .ok ()) : name.utf8ByteSize ≤ 256 := by
  have hc := require_ok h
  simp only [Bool.not_eq_true', Bool.or_eq_false_iff, decide_eq_false_iff_not, not_lt] at hc
  exact hc.1.2

section Rows

variable {Idx Acc : Type}

def recordWidth : ℕ := 4096

structure Gathered (s : CustodyState) (done : List (String × CustodyReceipt)) (b : Builder) :
    Prop where
  head : b.head = headOf s
  commands : b.commands = done.length
  bytes : b.historyBytes = (done.map fun e => memberBytes e.2).sum + (done.length - 1)
  filled : ∃ rows, Filled b.commandRows done.length recordWidth rows ∧
    ∀ k, rows.get k = SortedAssoc.toMap done k
  audit : b.audit = 0
  auditRows : b.auditRows = .empty

theorem toMap_snoc [LinearOrder K] {e : K × V} {rows : OrdMap K V}
    (hl : ∀ a ∈ l, a.1 < e.1) (h : ∀ k, rows.get k = SortedAssoc.toMap l k) (k : K) :
    (rows.insert e.1 e.2).get k = SortedAssoc.toMap (l ++ [e]) k := by
  rw [OrdMap.get_insert, toMap_append, toMap_cons, h]
  by_cases hk : k = e.1
  · rw [if_pos hk, if_pos hk,
      toMap_eq_none fun a ha => hk ▸ ne_of_lt (hl a ha), Option.none_or]
  · rw [if_neg hk, if_neg hk]
    exact (Option.or_none).symm

theorem Gathered.command (hs : Shaped X s) (hfi : historyTotal s < wordSize)
    {done rest : List (String × CustodyReceipt)}
    (he : done ++ entry :: rest = s.commands.entries) (h : Gathered s done b) :
    ∃ b', b.command entry.2 = .ok b' ∧ Gathered s (done ++ [entry]) b' := by
  obtain ⟨id, r⟩ := entry
  have hg : s.commands.get id = some r := by
    apply OrdMap.mem_entries.mp
    rw [← he]
    exact mem_append_right _ mem_cons_self
  have hi : id = r.commandId := hs.keyed id r hg
  have hr := hs.receipts id r hg
  have hsi := receipt_size hr.shape
  have hb : ∀ a ∈ done, a.1 < id := by
    have hso := s.commands.sorted
    rw [← he] at hso
    intro a ha
    exact (sorted_append.mp hso).2.2 a ha (id, r) mem_cons_self
  have hw : (done.map fun e => memberBytes e.2).sum + memberBytes r ≤
      s.commands.weight fun _ r => memberBytes r := by
    rw [OrdMap.weight, ← he, map_append, sum_append, map_cons, sum_cons]
    dsimp only
    omega
  have hc : done.length + 1 ≤ s.commands.size := by
    rw [OrdMap.size, ← he, length_append, length_cons]
    omega
  have hto : historyTotal s = (s.commands.weight fun _ r => memberBytes r) +
    (s.commands.size - 1) + eventsTotal s.audit := rfl
  have hco : done.length - 1 + comma done.length = done.length := by
    unfold comma
    split <;> omega
  obtain ⟨rows, hf, hro⟩ := h.filled
  have hno : rows.get id = none := by
    rw [hro]
    exact toMap_eq_none fun a ha => ne_of_lt (hb a ha)
  have hk := name_length hr.shape.names.1
  obtain ⟨tab, ht, hne⟩ := hf.insert r hno (le_trans hk (by decide))
    (le_trans (Nat.add_le_add hk hsi) (by decide)) (by decide)
  rw [hi] at ht
  have hroo : b.commands < b.head.commands := by
    rw [h.commands, h.head]
    exact hc
  have hp : r.revision > b.head.policy.origin.revision ∧
      r.revision ≤ b.head.policy.revision ∧ r.policyEpoch ≤ b.head.policy.policyEpoch := by
    rw [h.head]
    exact ⟨hr.after, hr.before, hr.epoch⟩
  have hby : b.historyBytes + memberBytes r + comma b.commands ≤ historyTotal s := by
    rw [h.bytes, h.commands]
    omega
  have hbo : b.historyBytes + memberBytes r + comma b.commands ≤ b.head.historyBytes := by
    rw [h.head]
    exact hby
  have hn : b.commands + 1 < wordSize := by
    have := size_le_commandsTotal s.commands
    have : commandsTotal s.commands ≤ historyTotal s := Nat.le_add_right _ _
    rw [h.commands]
    omega
  rw [Builder.command, ensure_bind (decide_eq_true (le_trans hsi (by decide))),
    ensure_bind (decide_eq_true hroo), lift_bind hr.shape.valid]
  rw [ensure_bind (by simp [hp]), lift_bind (commandBytes_ok hr.shape),
    context_bind (add_comma_word (lt_of_le_of_lt hby hfi)),
    ensure_bind (decide_eq_true hbo), ok_bind ht,
    context_bind (checkedAdd_of_lt hn), h.commands]
  refine ⟨_, rfl, ?_⟩
  have hl : (done ++ [(id, r)]).length = done.length + 1 := by
    rw [length_append, length_singleton]
  constructor
  · exact h.head
  · exact hl.symm
  · rw [h.bytes, hl, map_append, sum_append, map_singleton, sum_singleton]
    dsimp only
    omega
  · refine ⟨rows.insert id r, ?_, ?_⟩
    · rw [hl]
      exact hne
    · exact toMap_snoc (e := (id, r)) hb hro
  · exact h.audit
  · exact h.auditRows

theorem captureCommands_ok (hs : Shaped X s) (hf : historyTotal s < wordSize)
    {done rest : List (String × CustodyReceipt)} (he : done ++ rest = s.commands.entries)
    (h : Gathered s done b) :
    ∃ b', captureCommands rest b = .ok b' ∧ Gathered s (done ++ rest) b' := by
  induction rest generalizing done b with
  | nil =>
    rw [append_nil]
    exact ⟨b, rfl, h⟩
  | cons entry rest ih =>
    obtain ⟨b', hc, h'⟩ := h.command hs hf he
    obtain ⟨id, r⟩ := entry
    have hg : s.commands.get id = some r := by
      apply OrdMap.mem_entries.mp
      rw [← he]
      exact mem_append_right _ mem_cons_self
    have hsi := receipt_size (hs.receipts id r hg).shape
    rw [append_cons] at he ⊢
    obtain ⟨b'', hr, h''⟩ := ih he h'
    refine ⟨b'', ?_, h''⟩
    rw [captureCommands, ensure_bind (decide_eq_true (le_trans hsi (by decide))),
      ensure_bind (decide_eq_true (hs.keyed id r hg)), ok_bind hc]
    exact hr

structure Listed (s : CustodyState) (done : List CustodyAudit) (b : Builder) : Prop where
  head : b.head = headOf s
  commands : b.commands = s.commands.size
  bytes : b.historyBytes = commandsTotal s.commands +
    ((done.map fun e => size (eventJson e)).sum + (done.length - 1))
  commandRows : b.commandRows.commit.rows = s.commands
  audit : b.audit = done.length
  filled : Filled b.auditRows done.length recordWidth (CustodyRun.auditRows done)

theorem Gathered.listed (h : Gathered s s.commands.entries b) : Listed s [] b := by
  obtain ⟨rows, hf, hr⟩ := h.filled
  constructor
  · exact h.head
  · exact h.commands
  · rw [h.bytes]
    rfl
  · rw [hf.commit]
    exact OrdMap.ext_get hr
  · exact h.audit
  · rw [h.auditRows]
    exact filled_empty recordWidth

theorem Listed.event (hs : Shaped X s) (hf : historyTotal s < wordSize) {e : CustodyAudit}
    (ha : done ++ e :: rest = s.audit) (h : Listed s done b) :
    ∃ b', b.event done.length e = .ok b' ∧ Listed s (done ++ [e]) b' := by
  obtain ⟨r, hr, _⟩ := hs.events e (by
    rw [← ha]
    exact mem_append_right _ mem_cons_self)
  have hsi := event_size hr.shape
  have hsu : (done.map fun e => size (eventJson e)).sum + size (eventJson e) ≤
      (s.audit.map fun e => size (eventJson e)).sum := by
    rw [← ha, map_append, sum_append, map_cons, sum_cons]
    omega
  have hc : done.length + 1 ≤ s.audit.length := by
    rw [← ha, length_append, length_cons]
    omega
  have hto : historyTotal s = commandsTotal s.commands +
    ((s.audit.map fun e => size (eventJson e)).sum + (s.audit.length - 1)) := rfl
  have hco : done.length - 1 + comma done.length = done.length := by
    unfold comma
    split <;> omega
  have hno : (CustodyRun.auditRows done).get done.length = none := by
    rw [auditRows_get]
    exact getElem?_eq_none (le_refl _)
  obtain ⟨tab, ht, hne⟩ := h.filled.insert e hno (by decide : 8 ≤ 4096)
    (le_trans (Nat.add_le_add_left hsi 8) (by decide)) (by decide)
  have hi : done.length < b.head.audit := by
    rw [h.head]
    exact hc
  have hb : b.historyBytes + size (eventJson e) + comma b.audit ≤ historyTotal s := by
    rw [h.bytes, h.audit]
    omega
  have hbo : b.historyBytes + size (eventJson e) + comma b.audit ≤ b.head.historyBytes := by
    rw [h.head]
    exact hb
  have hn : b.audit + 1 < wordSize := by
    have := length_le_eventsTotal s.audit
    have : eventsTotal s.audit ≤ historyTotal s := Nat.le_add_left _ _
    rw [h.audit]
    omega
  rw [Builder.event, ensure_bind (decide_eq_true (le_trans hsi (by decide))),
    ensure_bind (decide_eq_true (h.audit ▸ hi)), ensure_bind (decide_eq_true hi),
    context_bind (add_comma_word (lt_of_le_of_lt hb hf)),
    ensure_bind (decide_eq_true hbo), ok_bind ht,
    context_bind (checkedAdd_of_lt hn), h.audit]
  refine ⟨_, rfl, ?_⟩
  have hl : (done ++ [e]).length = done.length + 1 := by
    rw [length_append, length_singleton]
  constructor
  · exact h.head
  · exact h.commands
  · dsimp only
    rw [h.bytes, hl, map_append, sum_append, map_singleton, sum_singleton]
    omega
  · exact h.commandRows
  · exact hl.symm
  · rw [hl, ← auditRows_append]
    exact hne

theorem captureAudit_ok (hs : Shaped X s) (hf : historyTotal s < wordSize)
    (ha : done ++ rest = s.audit) (h : Listed s done b) :
    ∃ b', captureAudit ((rest.zipIdx done.length).map fun e => (e.2, e.1)) b = .ok b' ∧
      Listed s (done ++ rest) b' := by
  induction rest generalizing done b with
  | nil =>
    rw [append_nil]
    exact ⟨b, rfl, h⟩
  | cons e rest ih =>
    obtain ⟨b', he, h'⟩ := h.event hs hf ha
    obtain ⟨r, hr, _⟩ := hs.events e (by
      rw [← ha]
      exact mem_append_right _ mem_cons_self)
    have hsi := le_trans (event_size hr.shape) (by decide : _ ≤ recordBytes)
    rw [append_cons] at ha ⊢
    obtain ⟨b'', hre, h''⟩ := ih ha h'
    refine ⟨b'', ?_, h''⟩
    rw [zipIdx_cons, map_cons, captureAudit, ensure_bind (decide_eq_true hsi), ok_bind he]
    rw [length_append, length_singleton] at hre
    exact hre

theorem checkEvents_ok (hs : Shaped X s) (hw : s.audit.length < wordSize)
    (ha : done ++ rest = s.audit) (ho : Ordered old rest) (hor : originals ≤ done.length) :
    checkEvents (headOf s) s.commands (CustodyRun.auditRows s.audit)
        (List.range' done.length rest.length) old originals =
      .ok (originals + rest.countP fun e => !e.replay) := by
  induction rest generalizing done old originals with
  | nil => rfl
  | cons e rest ih =>
    obtain ⟨r, hr, hrevi, hep⟩ := hs.events e (by
      rw [← ha]
      exact mem_append_right _ mem_cons_self)
    have hf : (CustodyRun.auditRows s.audit).get done.length = some e := by
      rw [auditRows_get, ← ha, getElem?_append_right (le_refl _), Nat.sub_self]
      rfl
    have hb : e.revision ≤ (headOf s).policy.revision := hrevi
    have hbe : e.policyEpoch ≤ (headOf s).policy.policyEpoch := hep
    have hl : (done ++ [e]).length = done.length + 1 := by
      rw [length_append, length_singleton]
    have hd : done.length + 1 ≤ s.audit.length := by
      rw [← ha, length_append, length_cons]
      omega
    rw [append_cons] at ha
    rw [length_cons, range'_succ, checkEvents, context_bind hf,
      lift_bind hr.shape.principal, lift_bind hr.shape.requestId, context_bind hr.found,
      ensure_bind (by simp [ho.1, hb, hr.digest, hbe, hr.epoch, hr.accepted]),
      countP_cons]
    cases hre : e.replay with
    | true =>
      rw [if_pos rfl, ensure_bind (decide_eq_true (hr.replayed hre)), ← hl,
        ih ha ho.2 (by omega)]
      rfl
    | false =>
      obtain ⟨hrev, hp, had, he⟩ := hr.original hre
      rw [if_neg Bool.false_ne_true, ensure_bind (by simp [hrev, hp, had, he]),
        context_bind (checkedAdd_of_lt (by omega)), ← hl, ih ha ho.2 (by omega)]
      congr 1
      simp only [Bool.not_false, if_true]
      omega

end Rows

section Captured

variable {Idx Acc Control : Type} {V : Control → RetiredBoundary → Except Failure Unit}
  {store : CustodyStore Control}

theorem capture_ok (h : Mirrors X V store ledger) :
    capture X store = .ok ⟨headOf ledger.state, store.commands, store.audit⟩ := by
  have hs := h.shaped
  have hsi := state_size (X := X) hs.keyed
  have hma := limits_word hs.limits
  have hf := h.fits
  have hh : historyTotal ledger.state < wordSize := by omega
  have hev := length_le_eventsTotal ledger.state.audit
  have ht : eventsTotal ledger.state.audit ≤ historyTotal ledger.state :=
    Nat.le_add_left _ _
  have hhe : bounded headBytes (fun head => size (headJson X head)) store.head =
      .ok store.head := by
    apply bounded_ok
    intro head hso
    rw [h.head] at hso
    cases hso
    exact headOf_size hs h.counted hf
  have hv := (headOf_validate hs h.counted).1 hf
  have hm : checkedMul (headOf ledger.state).policy.limits.maxStateBytes 8 =
      some (ledger.state.limits.maxStateBytes * 8) := if_pos (by
    have : (headOf ledger.state).policy.limits = ledger.state.limits := rfl
    rw [this]
    omega)
  have hn : Builder.new X (headOf ledger.state) = .ok ⟨headOf ledger.state, .empty, .empty, 0, 0,
      0⟩ := by
    rw [Builder.new, lift_bind hv, hm, Option.bind_some,
      context_bind (checkedAdd_of_lt (by omega))]
    rfl
  have hst : Gathered ledger.state [] ⟨headOf ledger.state, .empty, .empty, 0, 0, 0⟩ :=
    ⟨rfl, rfl, rfl, ⟨OrdMap.empty, filled_empty recordWidth, fun _ => rfl⟩, rfl, rfl⟩
  obtain ⟨b, hco, hg⟩ := captureCommands_ok hs hh (nil_append _) hst
  obtain ⟨b', ha, hl⟩ := captureAudit_ok hs hh (nil_append _)
    (Gathered.listed hg)
  have he : store.audit.entries =
      (ledger.state.audit.zipIdx ([] : List CustodyAudit).length).map fun e => (e.2, e.1) := by
    rw [h.audit]
    rfl
  rw [nil_append] at hl
  rw [capture, ok_bind hhe, h.head]
  rw [context_bind rfl, ok_bind hn, h.commands, ok_bind hco, he,
    ok_bind ha, Builder.finish]
  have hcl : b'.commands = b'.head.commands ∧ b'.audit = b'.head.audit ∧
      b'.historyBytes = b'.head.historyBytes := by
    rw [hl.commands, hl.audit, hl.bytes, hl.head]
    exact ⟨rfl, rfl, rfl⟩
  have hc := checkEvents_ok hs (by omega) (nil_append _) hs.ordered (Nat.zero_le 0)
  have hcou : ledger.state.audit.countP (fun e => !e.replay) = ledger.state.commands.size :=
    h.counted
  rw [hcou, Nat.zero_add] at hc
  rw [ensure_bind (by simp [hcl]), hl.commandRows, hl.filled.commit, hl.head]
  rw [range_eq_range']
  have hr : checkEvents (headOf ledger.state) ledger.state.commands
      (CustodyRun.auditRows ledger.state.audit) (List.range' 0 (headOf ledger.state).audit)
      (headOf ledger.state).policy.origin.revision 0 = .ok ledger.state.commands.size := hc
  rw [ok_bind hr, h.audit]
  exact ensure_bind (decide_eq_true rfl)

end Captured

end CustodyCapture
