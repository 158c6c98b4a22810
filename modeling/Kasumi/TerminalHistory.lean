import Kasumi.StagedTotals

/-! The history of ended transactions over a run. The rows of every generation extend those of
the one before, no identity has both a row and a resident record, and the byte totals of the
state follow the records and the rows. -/
namespace TerminalHistory

open TenantTypes Staging PermanentRows FallibleSteps TenantFrames OperationEffects EffectFrames
  PublicationExits Publications TerminalMoves StagedSteps StagedTotals Engine List

variable {Idx Acc : Type} (X : Externals Idx Acc)

/-- A history selects `rows`, and the resident records of a state are apart from them. -/
structure History (s : TenantState) (view : TerminalView) (rows : List TerminalRow) : Prop where
  selected : ChainTable.Selected (terminalLayout X view.head.originIncarnation)
    (X.sha (.terminalRoot s.tenant view.head.originIncarnation)) view.table rows
  count : view.head.count = rows.length
  digest : view.head.sha256 = ChainTable.lastDigest (terminalLayout X view.head.originIncarnation)
    (X.sha (.terminalRoot s.tenant view.head.originIncarnation)) rows
  head : s.stagedTerminalHead = view.head
  ended : ∀ row ∈ rows, row.stage.isActive = false
  apart : ∀ row ∈ rows, s.stagedTransactions.get row.key = none
  active : AllActive s
  marked : Marked s

variable {X}
variable {s t : TenantState} {view : TerminalView} {rows : List TerminalRow}

section

variable (h : History X s view rows)

include h

theorem History.get_cases
    (hg : TerminalView.get X view key = .ok found) : (∃ row ∈ rows, row.key = key ∧ found = some
    row) ∨ (found = none ∧ ∀ row ∈ rows, row.key ≠ key) := by
  unfold TerminalView.get at hg
  rw [h.count] at hg
  exact h.selected.get_cases (chained_ok hg)

theorem History.inHistory_eq (key : String) (found : Option TerminalRow)
    (hg : TerminalView.get X view key = .ok found) : inHistory rows key = found.isSome := by
  rcases h.get_cases hg with ⟨row, hr, hk, rfl⟩ | ⟨rfl, hn⟩
  · exact inHistory_iff.mpr ⟨row, hr, hk⟩
  rw [Option.isSome_none, Bool.eq_false_iff]
  intro hi
  obtain ⟨row, hr, hk⟩ := inHistory_iff.mp hi
  exact hn row hr hk

theorem History.get_row (hro : row ∈ rows) : TerminalView.get X view row.key = .ok (some row) := by
  have hr := h.selected.get_mem hro (fun _ _ => rfl)
  rw [← h.count, ← h.digest] at hr
  unfold TerminalView.get
  have hk : (terminalLayout X view.head.originIncarnation).key row = row.key := rfl
  rw [hk] at hr
  rw [hr]
  rfl

end

theorem validate_row (h : TerminalRow.validate X row state
    = .ok ()) : validDigest row.key = true ∧ row.stage.scope.tenant = state.tenant := by
  obtain ⟨_, hk, h⟩ := bind_ok h
  replace h := then_ok h
  replace h := then_ok h
  obtain ⟨live, hl, h⟩ := bind_ok h
  have hk := ensure_ok hk
  simp only [Bool.and_eq_true] at hk
  have hl := lift_ok hl
  replace hl := then_ok hl
  obtain ⟨_, hs, hl⟩ := bind_ok hl
  replace hs := then_ok hs
  have hs := require_ok hs
  simp only [Bool.not_or, Bool.and_eq_true, Bool.not_eq_true', decide_eq_false_iff_not,
    not_not] at hs
  exact ⟨hk.1.2, hs.1⟩

section Advance

variable {head last : StagedTerminalHead} {new : List TerminalRow} {origin root : String}
  {tab table' : ChainTable.Table TerminalRow}

theorem advances_nil (h : Advances X head [] last) : last = head := by
  generalize hr : ([] : List TerminalRow) = rows at h
  cases h with
  | done => rfl
  | row => cases hr

theorem advanceTerminal_ok (h : advanceTerminal X head row = .ok last) :
    row.ordinal = head.count + 1 ∧ row.previousSha256 = head.sha256 ∧ last = { head with
        encodedBytes := head.encodedBytes + rowBytes X row
        count := row.ordinal
        sha256 := X.sha (.terminalRow row) } := by
  obtain ⟨next, hn, h⟩ := bind_ok h
  obtain ⟨_, hc, h⟩ := bind_ok h
  obtain ⟨bs, hb, h⟩ := bind_ok h
  obtain ⟨encoded, he, h⟩ := bind_ok h
  cases h
  have hn := (checkedAdd_some (context_ok hn)).1
  have he := (checkedAdd_some (context_ok he)).1
  have hc := ensure_ok hc
  simp only [Bool.and_eq_true, decide_eq_true_eq] at hc
  replace hb := then_ok hb
  have hb := (checkedAdd_some (context_ok hb)).1
  refine ⟨by rw [hc.1, hn], hc.2, ?_⟩
  rw [he, hb]
  rfl

theorem advances_selected (ha : Advances X head new last) : ∀ {rows : List TerminalRow}
    {tab : ChainTable.Table TerminalRow},
    ChainTable.Selected (terminalLayout X origin) root tab rows → head.count = rows.length →
    head.sha256 = ChainTable.lastDigest (terminalLayout X origin) root rows →
    (∀ row ∈ new, validDigest row.key = true ∧
    X.sha (.terminalRoot row.stage.scope.tenant origin) = root) →
    ChainTable.stageRows (terminalLayout X origin) tab new = .ok table' →
    ChainTable.Selected (terminalLayout X origin) root table' (rows ++ new) ∧
    last.count = (rows ++ new).length ∧
    last.sha256 = ChainTable.lastDigest (terminalLayout X origin) root (rows ++ new) ∧
    last.originIncarnation = head.originIncarnation := by
  induction ha with
  | done head =>
    intro rows tab hse hc hd _ hs
    cases hs
    rw [append_nil]
    exact ⟨hse, hc, hd, rfl⟩
  | @row head next last row new had _ ih =>
    intro rows tab hse hc hd hv hs
    obtain ⟨ho, hp, hne⟩ := advanceTerminal_ok had
    unfold ChainTable.stageRows at hs
    split at hs
    · next staged hrow =>
      obtain ⟨hk, hro⟩ := hv row mem_cons_self
      have hn : row.ordinal = rows.length + 1 := by rw [← hc]; exact ho
      have hon := hse.advance hn (by rw [← hd]; exact hp) hro
        ⟨hk, X.sha_valid _⟩ hrow
      have hl := ih hon (by rw [hne, length_append, ← hc]; exact ho)
        (by
          rw [hne]
          unfold ChainTable.lastDigest
          rw [getLast?_append_cons]
          rfl)
        (fun r hr => hv r (mem_cons_of_mem _ hr)) hs
      rw [append_assoc] at hl
      rw [hne] at hl
      exact hl
    · cases hs

end Advance

variable {next : TenantState} {g : Generation Idx Acc}

theorem stageTerminals_ok (h : stageTerminals X view pend = .ok view') :
    (pend.rows = [] ∧ view' = view) ∨ (view'.head = pend.head ∧
      ChainTable.stageRows (terminalLayout X view.head.originIncarnation) view.table
        pend.rows = .ok view'.table) := by
  unfold stageTerminals at h
  split at h
  · next hr =>
    cases h
    exact .inl ⟨hr, rfl⟩
  next first rest hr =>
  obtain ⟨tab, ht, h⟩ := bind_ok h
  replace h := then_ok h
  cases h
  exact .inr ⟨rfl, chained_ok ht⟩

theorem inHistory_nil (key : String) : inHistory [] key = false := rfl

theorem bytes_apart (h : ∀ row ∈ rows, s.stagedTransactions.get row.key = none) :
    usedBytes X rows s = usedBytes X [] s ∧ reservedBytes X rows s = reservedBytes X [] s := by
  have hn : ∀ key st, s.stagedTransactions.get key = some st →
      inHistory rows key = false := by
    intro key st hg
    rw [Bool.eq_false_iff]
    intro hi
    obtain ⟨row, hr, rfl⟩ := inHistory_iff.mp hi
    rw [h row hr] at hg
    cases hg
  constructor
  · apply OrdMap.weight_congr
    intro key
    cases hg : s.stagedTransactions.get key with
    | none => rfl
    | some st => simp [hn key st hg, inHistory_nil]
  apply OrdMap.weight_congr
  intro key
  cases hg : s.stagedTransactions.get key with
  | none => rfl
  | some st => simp [hn key st hg, inHistory_nil]

variable (X) in
structure Ready (rows : List TerminalRow) (s next : TenantState) : Prop where
  tenant : next.tenant = s.tenant
  ended : ∀ row ∈ rows, ∀ stage, next.stagedTransactions.get row.key = some stage →
    stage.isActive = false
  marked : Marked next
  balanced : Balanced X rows [] s next

theorem History.move (h : History X s view rows)
    (hre : Ready X rows s next) (hm : prepareTerminals X view s next applied = .ok (moved, pend))
    (hsta : stageTerminals X view pend = .ok view') (hf : stagedPart final = stagedPart moved)
    (ht : final.tenant = s.tenant) :
    History X final view' (rows ++ pend.rows) ∧ Balanced X [] pend.rows s final := by
  obtain ⟨_, _, hh, ha, hn, _⟩ := prepareTerminals_rows hm
  obtain ⟨hmar, hrec⟩ := prepareTerminals_records hm
  have hg : ∀ key, final.stagedTransactions.get key =
      (next.stagedTransactions.get key).filter StagedTransaction.isActive := by
    intro key
    have hsa := congrArg Prod.fst hf
    dsimp only [stagedPart] at hsa
    rw [hsa, hrec]
  have hgo : ∀ {key : String} {st : StagedTransaction},
      (next.stagedTransactions.get key = some st → st.isActive = false) →
      next.stagedTransactions.get key = some st → final.stagedTransactions.get key = none := by
    intro key st he hs
    rw [hg, hs, Option.filter_some, he hs]
    rfl
  have hap : ∀ row ∈ rows ++ pend.rows, final.stagedTransactions.get row.key = none := by
    intro row hrow
    rcases mem_append.mp hrow with hold | had
    · cases hs : next.stagedTransactions.get row.key with
      | none =>
        rw [hg, hs]
        rfl
      | some st => exact hgo (hre.ended row hold st) hs
    · obtain ⟨he, hrow⟩ := hn row had
      exact hgo (fun _ => he) hrow.ended
  have hv : ∀ row ∈ pend.rows, validDigest row.key = true ∧
      X.sha (.terminalRoot row.stage.scope.tenant view.head.originIncarnation) =
        X.sha (.terminalRoot s.tenant view.head.originIncarnation) := by
    intro row hrow
    obtain ⟨state, hstat, hok⟩ := (hn row hrow).2.valid
    obtain ⟨hk, hro⟩ := validate_row hok
    have hst := congrArg TenantState.tenant hstat
    dsimp only [forgetStaged] at hst
    exact ⟨hk, by rw [hro, hst, hre.tenant]⟩
  have hb : Balanced X rows pend.rows s final := by
    have hmo := prepareTerminals_balanced h.inHistory_eq hm
    have hal := (hre.balanced.trans hmo).trans (Balanced.of_part hf)
    rw [nil_append, append_nil] at hal
    exact hal
  have hfi : final.stagedTerminalHead = pend.head := by
    have hsa := congrArg (fun p => p.2.2.2.2) hf
    dsimp only [stagedPart] at hsa
    rw [hsa, hh]
  have hac : AllActive final := by
    intro key st hs
    rw [hg] at hs
    exact (Option.filter_eq_some_iff.mp hs).2
  have hma : Marked final := by
    intro key
    have hsa := congrArg (fun p => p.2.1) hf
    dsimp only [stagedPart] at hsa
    rw [hsa, hmar, hre.marked key, hg]
    cases next.stagedTransactions.get key with
    | none => rfl
    | some st =>
      cases hop : st.isActive <;> simp [Option.filter_some, hop]
  have he : ∀ row ∈ rows ++ pend.rows, row.stage.isActive = false := by
    intro row hrow
    rcases mem_append.mp hrow with hold | had
    · exact h.ended row hold
    · exact (hn row had).1
  -- The rows are charged to the history, so all resident records are charged to the state.
  have hp : Balanced X [] pend.rows s final := by
    obtain ⟨hu, hr⟩ := bytes_apart (X := X) h.apart
    obtain ⟨hu', hr'⟩ := bytes_apart (X := X)
      (fun row hrow => hap row (mem_append_left pend.rows hrow))
    exact ⟨by rw [← hu, ← hu']; exact hb.used, by rw [← hr, ← hr']; exact hb.reserved⟩
  refine ⟨?_, hp⟩
  rcases stageTerminals_ok hsta with ⟨hno, rfl⟩ | ⟨hl, hs⟩
  · rw [hno] at ha hap he ⊢
    rw [append_nil] at hap he ⊢
    exact ⟨by rw [ht]; exact h.selected, h.count, by rw [ht]; exact h.digest,
      hfi.trans (advances_nil ha), he, hap, hac, hma⟩
  obtain ⟨hse, hc, hd, ho⟩ :=
    advances_selected ha h.selected h.count h.digest hv hs
  rw [← hl] at hc hd ho
  refine ⟨?_, hc, ?_, hfi.trans hl.symm, he, hap, hac, hma⟩
  · rw [ho, ht]
    exact hse
  · rw [ho, ht]
    exact hd

theorem started_shown (h : History X g.state g.terminals rows) (hst : Started X site g cmd start) :
    Shown X rows cmd start ∧ Balanced X rows [] g.state start := by
  rcases started_cases hst with ⟨rfl, hh⟩ | ⟨key, row, how, hn, hf, _, rfl⟩
  · refine ⟨⟨h.marked.of_part rfl, ?_, ?_⟩, Balanced.of_part rfl⟩
    · intro row hro stage hg
      have ha := h.apart row hro
      change g.state.stagedTransactions.get row.key = some stage at hg
      rw [ha] at hg
      cases hg
    intro row hro how
    rcases hh row.key how with hr | hm
    · exact hr
    · rw [h.get_row hro] at hm
      cases hm
  rcases h.get_cases hf with ⟨found, hro, hke, heq⟩ | ⟨hm, _⟩
  · cases heq
    have he := h.ended row hro
    have hi : inHistory rows key = true := inHistory_iff.mpr ⟨row, hro, hke⟩
    have hg : ∀ k, (g.state.stagedTransactions.insert key row.stage).get k =
        if k = key then some row.stage else g.state.stagedTransactions.get k := by
      intro k
      rw [OrdMap.get_insert]
    refine ⟨⟨?_, ?_, ?_⟩, ?_, ?_⟩
    · intro k
      have hma := h.marked k
      rw [hg]
      change g.state.activeStagedTransactions.contains k = _
      rw [hma]
      by_cases hk : k = key
      · rw [if_pos hk, hk, hn, Option.any_none, Option.any_some, he]
      · rw [if_neg hk]
    · intro other ho stage hs
      rw [hg] at hs
      split at hs
      · cases hs
        exact he
      · rw [h.apart other ho] at hs
        cases hs
    · intro other _ ho
      rw [how] at ho
      rw [hg, if_pos (Option.some.inj ho).symm]
      rfl
    · have hw := OrdMap.weight_set
        (fun k st => if inHistory rows k then 0 else (charge X k st).1)
        g.state.stagedTransactions key (some row.stage)
      simp only [hi, if_true, hn, Option.map_none, Option.map_some, Option.getD_none,
        Option.getD_some, Nat.add_zero] at hw
      unfold usedBytes OrdMap.insert
      rw [hw]
      rfl
    have hw := OrdMap.weight_set
      (fun k st => if inHistory rows k then 0 else (charge X k st).2)
      g.state.stagedTransactions key (some row.stage)
    simp only [hi, if_true, hn, Option.map_none, Option.map_some, Option.getD_none,
      Option.getD_some, Nat.add_zero] at hw
    unfold reservedBytes OrdMap.insert
    rw [hw]
    rfl
  · cases hm

theorem History.same_ended (h : History X s view rows)
    (hs : t.stagedTransactions = s.stagedTransactions) : ∀ row ∈ rows, ∀ st,
    t.stagedTransactions.get row.key = some st → st.isActive = false := by
  intro row hr st hg
  rw [hs, h.apart row hr] at hg
  cases hg

theorem operated_ready (h : History X g.state g.terminals rows) (hr : Operated X site g cmd
    result operated) : Ready X rows g.state operated := by
  have ht := congrArg Fixed.tenant (operated_fixed hr)
  have ran : ∀ {start : TenantState} {result : Except ReadFailure Applied},
      Started X site g cmd start →
      Effect X cmd site.applied.revision g.indexes site.resolver start result
        operated → Ready X rows g.state operated := by
    intro start result hs he
    obtain ⟨hsh, hb⟩ := started_shown h hs
    obtain ⟨haf, hl⟩ := effect_balanced hsh he
    exact ⟨ht, hl.ended, hl.marked, hb.trans haf⟩
  cases hr with
  | stranger =>
    exact ⟨rfl, h.same_ended rfl, h.marked.of_part rfl, Balanced.of_part rfl⟩
  | refused hs he => exact ran hs he
  | answered hs ha => exact ran hs ha.2

theorem Ready.of_part (h : Ready X rows s next) (hs : stagedPart later =
    stagedPart next) (ht : later.tenant = next.tenant) : Ready X rows s later := by
  have hr := congrArg Prod.fst hs
  dsimp only [stagedPart] at hr
  refine ⟨ht.trans h.tenant, ?_, h.marked.of_part hs, ?_⟩
  · intro row hro st hg
    rw [hr] at hg
    exact h.ended row hro st hg
  · exact h.balanced.trans (Balanced.of_part hs)

theorem operated_records (hr : Operated X site g cmd result operated)
    (hh : ownKey X cmd = some key → g.state.stagedTransactions.contains key = true) :
    RecordChange X cmd site.applied.revision g.state key (operated.stagedTransactions.get key) := by
  have ran : ∀ {start : TenantState} {result : Except ReadFailure Applied},
      Started X site g cmd start →
      Effect X cmd site.applied.revision g.indexes site.resolver start result
        operated →
      RecordChange X cmd site.applied.revision g.state key
        (operated.stagedTransactions.get key) := by
    intro start result hs he
    have hf := reinsertTerminal_frame hs.shown
    have hl := congrArg TenantState.limits hf
    refine (effect_records he key).congr ?_ ?_ hl
    · rcases started_cases hs with ⟨rfl, _⟩ | ⟨own, row, ho, hn, _, _, rfl⟩
      · rfl
      rw [OrdMap.get_insert, if_neg]
      intro heq
      subst heq
      have hc := hh ho
      unfold OrdMap.contains at hc
      rw [hn] at hc
      cases hc
    rcases started_cases hs with ⟨rfl, _⟩ | ⟨own, row, _, _, _, _, rfl⟩
    · rfl
    · rfl
  cases hr with
  | stranger => exact RecordChange.kept
  | refused hs he => exact ran hs he
  | answered hs ha => exact ran hs ha.2

theorem any_some_of (h : o.any p = true) : ∃ a, o = some a ∧ p a = true := by
  cases o with
  | none => cases h
  | some a => exact ⟨a, rfl, h⟩

/-- A resource rejection fails the upload it was finalizing, and leaves the others. -/
theorem rejectFinalize_cases (h : History X g.state g.terminals rows)
    (hru : Operated X site g cmd result operated) (hn : stagedPart next = stagedPart operated)
    (hm : prepareTerminals X g.terminals g.state next site.applied = .ok (moved, pend))
    (hr : rejectFinalize X g start cmd pend e = .ok final) :
    final = start ∨ ∃ ref key st, cmd.operation = .finalizeStaged ref ∧
      ownKey X cmd = some key ∧ g.state.stagedTransactions.get key = some st ∧
      st.isActive = true ∧ replaceRecord X start key (terminal st (.error e)) = .ok final := by
  unfold rejectFinalize at hr
  split at hr
  · next ref hop =>
    dsimp only at hr
    split at hr
    · next hope =>
      obtain ⟨found, hf, hr⟩ := bind_ok hr
      have how : ownKey X cmd =
          some (X.sha (.identity cmd.context.principal ref.transactionId)) :=
        ownKey_some (by rw [hop]; rfl)
      obtain ⟨st, hs, ha⟩ := any_some_of hope
      obtain ⟨_, _, _, _, hne, _⟩ := prepareTerminals_rows hm
      have hrec := congrArg Prod.fst hn
      dsimp only [stagedPart] at hrec
      unfold TerminalPending.get at hf
      split at hf
      · next row hrow =>
        cases hf
        dsimp only at hr
        obtain ⟨he, hro⟩ := hne row (mem_of_find?_eq_some hrow)
        have hk : row.key = X.sha (.identity cmd.context.principal ref.transactionId) := by
          simpa using find?_some hrow
        rw [if_neg (by rw [he]; exact Bool.false_ne_true)] at hr
        -- The row is of the record this command ended, by its outcome or by its lease.
        have hh : g.state.stagedTransactions.contains row.key = true := by
          unfold OrdMap.contains
          rw [hk, hs]
          rfl
        have hc := operated_records hru (fun _ => hh)
        rw [← hrec, hro.ended, hk] at hc
        have hcl : { row.stage with outcome := .finished (.error e) } =
            terminal st (.error e) := by
          generalize hre : some row.stage = record at hc
          cases hc with
          | kept =>
            rw [hs] at hre
            cases hre
            rw [ha] at he
            cases he
          | expired _ hold _ =>
            rw [hs] at hold
            cases hold
            rw [Option.some.inj hre]
            rfl
          | begun ho => rw [hop] at ho; cases ho
          | uploaded ho => rw [hop] at ho; cases ho
          | stopped ho => rw [hop] at ho; cases ho
          | stoppedNew ho => rw [hop] at ho; cases ho
          | finished _ _ hold _ =>
            rw [hs] at hold
            cases hold
            rw [Option.some.inj hre]
            rfl
        rw [hcl] at hr
        exact .inr ⟨ref, _, st, hop, how, hs, ha, lift_ok hr⟩
      obtain ⟨row, hrow, hf⟩ := bind_ok hf
      cases hf
      rcases h.get_cases hrow with ⟨held, hh, hk, _⟩ | ⟨rfl, _⟩
      · have hap := h.apart held hh
        rw [hk, hs] at hap
        cases hap
      · cases hr
        exact .inl rfl
    · cases hr
      exact .inl rfl
  · cases hr
    exact .inl rfl

variable (X) in
/-- The state whose ended records a command moves: what its operation left, or what a resource
rejection rebuilt from the previous state. -/
inductive Candidate (site : Site) (g : Generation Idx Acc) (command : Command) :
    Outcome → TenantState → Prop where
  | ran {result : Except ReadFailure Applied} {operated next : TenantState} {outcome : Outcome}
      {changedDocuments : Bool} : Operated X site g command result operated →
      settleOperation result = .ok (outcome, changedDocuments) →
      stagedPart next = stagedPart operated → Candidate site g command outcome next
  | kept {next : TenantState} {e : Error} : stagedPart next = stagedPart g.state →
      Candidate site g command (.error e) next
  | failed {reference : StagedTransactionRef} {key : String} {stage : StagedTransaction}
      {before after next : TenantState} {e : Error} :
      command.operation = .finalizeStaged reference → ownKey X command = some key →
      g.state.stagedTransactions.get key = some stage → stage.isActive = true →
      stagedPart before = stagedPart g.state →
      replaceRecord X before key (terminal stage (.error e)) = .ok after →
      stagedPart next = stagedPart after → Candidate site g command (.error e) next

theorem audited_part (h : auditCommand X s cmd out = .ok t) :
    stagedPart t = stagedPart s ∧ t.tenant = s.tenant := by
  have hp := congrArg stagedPart (auditCommand_frame h)
  have ht := congrArg TenantState.tenant (auditCommand_frame h)
  exact ⟨hp, ht⟩

/-- Every exit keeps the staged part or moves the ended records of such a state. -/
theorem exit_candidate (h : History X g.state g.terminals rows)
    (he : Exit X site g cmd ⟨some g', changed, out⟩) : (stagedPart g'.state = stagedPart g.state ∧
    g'.terminals = g.terminals) ∨ ∃ next moved pend, Candidate X site g cmd out next ∧
    next.tenant = g.state.tenant ∧
    prepareTerminals X g.terminals g.state next site.applied = .ok (moved, pend) ∧
    stageTerminals X g.terminals pend = .ok g'.terminals ∧
    stagedPart g'.state = stagedPart moved := by
  cases he with
  | skipped => exact .inl ⟨rfl, rfl⟩
  | observed _ _ happ =>
    rw [(appendAudit_ok happ).2]
    exact .inl ⟨rfl, rfl⟩
  | recorded _ _ hre =>
    have hfr := congrArg stagedPart (recorded_frame hre)
    exact .inl ⟨hfr, rfl⟩
  | committed _ _ hat hre =>
    have hrec := congrArg stagedPart (recorded_frame hre)
    have hap := congrArg stagedPart (attemptBatch_frame hat)
    exact .inl ⟨hrec.trans hap, rfl⟩
  | published _ hra hm _ _ hfe _ _ hs =>
    have ho := runOperation_operated hra.ran
    obtain ⟨hp, ht⟩ := audited_part hra.audited
    have hfi := congrArg Fixed.tenant (operated_fixed ho)
    have hfed := congrArg stagedPart (candidateFeed_frame hfe)
    exact .inr ⟨_, _, _, Candidate.ran ho hra.settled hp, ht.trans hfi, hm, hs, hfed⟩
  | rejected _ _ hra hm hc hrej _ _ hs =>
    have ho := runOperation_operated hra.ran
    obtain ⟨hp, _⟩ := audited_part hra.audited
    obtain ⟨s₁, s₂, s₃, event, s₄, h₁, h₂, h₃, h₄, hrej⟩ := rejectedState_steps hrej
    have hau := (appendAudit_ok h₄).2
    have hst : stagedPart s₂ = stagedPart g.state := by
      have ha := congrArg stagedPart (activation_rejectBudget_frame h₁)
      have hr := congrArg stagedPart (retirement_rejectBudget_frame h₂)
      exact hr.trans ha
    have ht : s₄.tenant = g.state.tenant := by
      have ha := congrArg TenantState.tenant (activation_rejectBudget_frame h₁)
      have hr := congrArg TenantState.tenant (retirement_rejectBudget_frame h₂)
      have hf := congrArg TenantState.tenant (rejectFinalize_frame h₃)
      rw [hau]
      exact hf.trans (hr.trans ha)
    refine .inr ⟨s₄, _, _, ?_, ht, hrej, hs, rfl⟩
    rcases rejectFinalize_cases h ho hp hm h₃ with hsa |
        ⟨ref, key, st, hop, how, hg, hope, hrep⟩
    · apply Candidate.kept
      rw [hau, hsa]
      exact hst
    refine Candidate.failed hop how hg hope hst hrep ?_
    rw [hau]
    rfl

theorem Candidate.ready (h : History X g.state g.terminals rows) (hc : Candidate X site g cmd
    out next) (ht : next.tenant = g.state.tenant) : Ready X rows g.state next := by
  cases hc with
  | ran ho _ hp =>
    have hrea := operated_ready h ho
    exact hrea.of_part hp (ht.trans hrea.tenant.symm)
  | kept hp =>
    have hr := congrArg Prod.fst hp
    exact ⟨ht, h.same_ended hr, h.marked.of_part hp, Balanced.of_part hp⟩
  | @failed _ key _ _ _ _ _ _ _ hg _ hb hre haf =>
    have hf : inHistory rows key = false := by
      rw [Bool.eq_false_iff]
      intro hi
      obtain ⟨row, hro, rfl⟩ := inHistory_iff.mp hi
      rw [h.apart row hro] at hg
      cases hg
    have hr := congrArg Prod.fst hb
    have ha := congrArg Prod.fst haf
    dsimp only [stagedPart] at hr ha
    refine ⟨ht, ?_, ((h.marked.of_part hb).replace hre).of_part haf, ((Balanced.of_part hb).trans
      (replaceRecord_balanced hre hf)).trans (Balanced.of_part haf)⟩
    intro row hro st hs
    rw [ha, replaceRecord_get hre] at hs
    split at hs
    · cases hs
      rfl
    · rw [hr, h.apart row hro] at hs
      cases hs

theorem History.of_part (h : History X s view rows) (hs : stagedPart t =
    stagedPart s) (ht : t.tenant = s.tenant) : History X t view rows := by
  have hr := congrArg Prod.fst hs
  have hh := congrArg (fun p => p.2.2.2.2) hs
  dsimp only [stagedPart] at hr hh
  refine ⟨by rw [ht]; exact h.selected, h.count, by rw [ht]; exact h.digest,
    hh.trans h.head, h.ended, ?_, allActive_of_records h.active hr,
    h.marked.of_part hs⟩
  intro row hro
  rw [hr]
  exact h.apart row hro

section

variable (h : History X g.state g.terminals rows)

include h

/-- Every exit extends the history by the rows it adds, and keeps the totals in step. -/
theorem History.exit (he : Exit X site g cmd ⟨some g', changed, out⟩) : ∃ added, History X
    g'.state g'.terminals (rows ++ added) ∧ Balanced X [] added g.state g'.state := by
  have ht : g'.state.tenant = g.state.tenant := congrArg Fixed.tenant (exit_grounds he)
  rcases exit_candidate h he with ⟨hsa, hv⟩ |
      ⟨next, moved, pend, hc, hn, hm, hs, hf⟩
  · rw [hv]
    refine ⟨[], ?_, Balanced.of_part hsa⟩
    rw [append_nil]
    exact h.of_part hsa ht
  · exact ⟨pend.rows, h.move (hc.ready h hn) hm hs hf ht⟩

/-- The rows of a history are never taken back: every later generation extends them, and the
totals move with them. -/
theorem History.step (hst : Step X contents g g') : ∃ added,
    History X g'.state g'.terminals (rows ++ added) ∧ Balanced X [] added g.state g'.state := by
  cases hst with
  | publish hp =>
    obtain ⟨cand, changed, placed, hpr, hpl, rfl⟩ := hp.prepared
    obtain ⟨added, hh, hb⟩ := h.exit (prepareCommand_exit hpr).2
    have hpa := congrArg stagedPart hpl.frame
    have ht := congrArg TenantState.tenant hpl.frame
    have hb := hb.trans (Balanced.of_part (t := placed) hpa)
    rw [append_nil] at hb
    exact ⟨added, hh.of_part hpa ht, hb⟩
  | metadata =>
    refine ⟨[], ?_, Balanced.of_part rfl⟩
    rw [append_nil]
    exact h.of_part rfl rfl
  | receiptAhead =>
    refine ⟨[], ?_, Balanced.refl _⟩
    rw [append_nil]
    exact h
  | terminalAhead ha hs =>
    refine ⟨[], ?_, Balanced.refl _⟩
    rw [append_nil]
    rw [h.count] at ha
    exact ⟨h.selected.ahead ha hs, h.count, h.digest, h.head, h.ended, h.apart, h.active, h.marked⟩

theorem History.totals (hr : Run X contents g g') : ∃ added,
    History X g'.state g'.terminals (rows ++ added) ∧ Balanced X [] added g.state g'.state := by
  induction hr with
  | refl => exact ⟨[], by rw [append_nil]; exact h, Balanced.refl _⟩
  | tail _ hs ih =>
    obtain ⟨added, hh, hb⟩ := ih
    obtain ⟨more, hm, hbm⟩ := hh.step hs
    exact ⟨added ++ more, by rw [← append_assoc]; exact hm, hb.trans hbm⟩

theorem History.run (hr : Run X contents g g') :
    ∃ added, History X g'.state g'.terminals (rows ++ added) := by
  obtain ⟨added, hh, _⟩ := h.totals hr
  exact ⟨added, hh⟩

end

end TerminalHistory
