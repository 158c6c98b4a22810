import Kasumi.Publications

/-! How ended records leave the resident map: each is taken out, and gets the next row of the
history unless the history already has one for its identity. -/
namespace TerminalMoves

open TenantTypes PermanentRows FallibleSteps TenantFrames PublicationExits List

variable {Idx Acc : Type}

def nextRow (applied : AppliedIdentity) (head : StagedTerminalHead) (key : String)
    (stage : StagedTransaction) : TerminalRow :=
  ⟨head.count + 1, key, head.sha256, applied, stage⟩

/-- What taking one record out does to the rows: none is added for an identity that the
history has, and otherwise the next one. -/
inductive RowMoved (X : Externals Idx Acc) (view : TerminalView) (applied : AppliedIdentity)
    (next : TenantState) (key : String) (stage : StagedTransaction) (pending : TerminalPending) :
    TerminalPending → Prop where
  | existing {row : TerminalRow} : TerminalView.get X view key = .ok (some row) →
      X.sha (.stage row.stage) = X.sha (.stage stage) →
      RowMoved X view applied next key stage pending pending
  | appended {head : StagedTerminalHead} {state : TenantState} :
      TerminalView.get X view key = .ok none → forgetStaged state = forgetStaged next →
      TerminalRow.validate X (nextRow applied pending.head key stage) state = .ok () →
      advanceTerminal X pending.head (nextRow applied pending.head key stage) = .ok head →
      RowMoved X view applied next key stage pending
        ⟨head, pending.rows ++ [nextRow applied pending.head key stage]⟩

theorem moveOne_ok (h : moveOne X view old applied new pend key = .ok (t, pending')) :
    ∃ st, new.stagedTransactions.get key = some st ∧
      t.stagedTransactions = new.stagedTransactions.remove key ∧
      t.activeStagedTransactions = new.activeStagedTransactions ∧
      RowMoved X view applied new key st pend pending' := by
  obtain ⟨st, hs, h⟩ := bind_ok h
  obtain ⟨existing, he, h⟩ := bind_ok h
  refine ⟨st, context_ok hs, ?_⟩
  cases existing with
  | some row =>
    obtain ⟨_, hsa, h⟩ := bind_ok h
    cases h
    have hsa := ensure_ok hsa
    simp only [Bool.and_eq_true, decide_eq_true_eq] at hsa
    exact ⟨rfl, rfl, RowMoved.existing he hsa.1⟩
  | none =>
    obtain ⟨bs, _, h⟩ := bind_ok h
    obtain ⟨ordinal, ho, h⟩ := bind_ok h
    have ho := (checkedAdd_some (context_ok ho)).1
    subst ho
    obtain ⟨_, hv, h⟩ := bind_ok h
    obtain ⟨_, _, h⟩ := bind_ok h
    replace h := then_ok h
    obtain ⟨_, _, h⟩ := bind_ok h
    obtain ⟨head, hh, h⟩ := bind_ok h
    cases h
    exact ⟨rfl, rfl, RowMoved.appended he rfl hv hh⟩

theorem moveEach_records : ∀ {new t : TenantState} {pend pending' : TerminalPending},
      moveEach X view old applied ks new pend = .ok (t, pending') →
      t.activeStagedTransactions = new.activeStagedTransactions ∧
        ∀ k, t.stagedTransactions.get k = if k ∈ ks then none
          else new.stagedTransactions.get k := by
  induction ks with
  | nil =>
    intro new t pend pending' h
    cases h
    exact ⟨rfl, fun k => by simp⟩
  | cons key ks ih =>
    intro new t pend pending' h
    obtain ⟨⟨moved, rows⟩, hm, h⟩ := bind_ok h
    obtain ⟨st, _, hr, ha, _⟩ := moveOne_ok hm
    obtain ⟨hl, hg⟩ := ih h
    refine ⟨hl.trans ha, ?_⟩
    intro k
    rw [hg k]
    rw [hr, OrdMap.get_remove]
    by_cases hk : k = key
    · simp [hk]
    · simp [hk]

inductive Advances (X : Externals Idx Acc) :
    StagedTerminalHead → List TerminalRow → StagedTerminalHead → Prop where
  | done (head : StagedTerminalHead) : Advances X head [] head
  | row {head next last : StagedTerminalHead} {row : TerminalRow} {rows : List TerminalRow} :
      advanceTerminal X head row = .ok next → Advances X next rows last →
      Advances X head (row :: rows) last

structure NewRow (X : Externals Idx Acc) (view : TerminalView) (applied : AppliedIdentity)
    (s : TenantState) (row : TerminalRow) : Prop where
  applied : row.applied = applied
  ended : s.stagedTransactions.get row.key = some row.stage
  absent : TerminalView.get X view row.key = .ok none
  valid : ∃ state, forgetStaged state = forgetStaged s ∧ TerminalRow.validate X row state = .ok ()

/-- An ended record has a row: a new one, or one of the same record in the history. -/
def HasRow (X : Externals Idx Acc) (view : TerminalView) (rows : List TerminalRow) (key : String)
    (stage : StagedTransaction) : Prop :=
  (∃ row ∈ rows, row.key = key ∧ row.stage = stage) ∨
    ∃ row, TerminalView.get X view key = .ok (some row) ∧
      X.sha (.stage row.stage) = X.sha (.stage stage)

theorem HasRow.mono (h : HasRow X view
    rows key st) (hs : ∀ row ∈ rows, row ∈ more) : HasRow X view more key st := by
  rcases h with ⟨row, hr, hk⟩ | hold
  · exact .inl ⟨row, hs row hr, hk⟩
  · exact .inr hold

theorem moveEach_rows : ∀ {new t : TenantState} {pend pending' : TerminalPending},
    moveEach X view old applied ks new pend = .ok (t, pending') → ∃ rows,
    pending'.rows = pend.rows ++ rows ∧ Advances X pend.head rows pending'.head ∧
    (∀ row ∈ rows, row.key ∈ ks ∧ NewRow X view applied new row) ∧ ∀ key ∈ ks, ∃ st,
    new.stagedTransactions.get key = some st ∧ HasRow X view rows key st := by
  induction ks with
  | nil =>
    intro new t pend pending' h
    cases h
    refine ⟨[], by simp, Advances.done _, ?_, ?_⟩
    · intro row hro
      cases hro
    · intro key hke
      cases hke
  | cons key ks ih =>
    intro new t pend pending' h
    obtain ⟨⟨moved, between⟩, hm, h⟩ := bind_ok h
    obtain ⟨st, hg, hr, _, hro⟩ := moveOne_ok hm
    obtain ⟨rows, hrows, ha, hn, hha⟩ := ih h
    -- What is resident after the first record left was resident before.
    have hb : ∀ k held, moved.stagedTransactions.get k = some held →
        new.stagedTransactions.get k = some held := by
      intro k held hh
      rw [hr, OrdMap.get_remove] at hh
      split at hh
      · cases hh
      · exact hh
    have hl : ∀ row ∈ rows, row.key ∈ key :: ks ∧ NewRow X view applied new row := by
      intro row hi
      obtain ⟨hke, hf⟩ := hn row hi
      obtain ⟨state, hs, hv⟩ := hf.valid
      exact ⟨mem_cons_of_mem _ hke, ⟨hf.applied, hb _ _ hf.ended,
        hf.absent, state, hs.trans (moveOne_frame hm), hv⟩⟩
    cases hro with
    | existing he hsa =>
      refine ⟨rows, hrows, ha, hl, ?_⟩
      intro k hk
      rcases mem_cons.mp hk with heq | hk
      · subst heq
        exact ⟨st, hg, Or.inr ⟨_, he, hsa⟩⟩
      · obtain ⟨held, hh, hro⟩ := hha k hk
        exact ⟨held, hb _ _ hh, hro⟩
    | appended hno hs hv hhe =>
      refine ⟨nextRow applied pend.head key st :: rows, ?_, Advances.row hhe ha, ?_, ?_⟩
      · rw [hrows, append_assoc]
        rfl
      · intro row hi
        rcases mem_cons.mp hi with heq | hi
        · subst heq
          exact ⟨mem_cons_self, ⟨rfl, hg, hno, _, hs, hv⟩⟩
        · exact hl row hi
      intro k hk
      rcases mem_cons.mp hk with heq | hk
      · subst heq
        exact ⟨st, hg, Or.inl ⟨_, mem_cons_self, rfl, rfl⟩⟩
      · obtain ⟨held, hh, hro⟩ := hha k hk
        exact ⟨held, hb _ _ hh, hro.mono fun row hi => mem_cons_of_mem _ hi⟩

theorem mem_endedKeys : key ∈ endedKeys s ↔ ∃ st, s.stagedTransactions.get key
    = some st ∧ st.isActive = false := by
  unfold endedKeys
  rw [mem_map]
  constructor
  · rintro ⟨⟨k, st⟩, hen, rfl⟩
    obtain ⟨hm, he⟩ := mem_filter.mp hen
    exact ⟨st, OrdMap.mem_entries.mp hm, by simpa using he⟩
  · rintro ⟨st, hg, he⟩
    exact ⟨(key, st), mem_filter.mpr ⟨OrdMap.mem_entries.mpr hg, by simp [he]⟩, rfl⟩

theorem prepareTerminals_records (h : prepareTerminals X view old new applied = .ok (t, pend)) :
    t.activeStagedTransactions = new.activeStagedTransactions ∧ ∀ k, t.stagedTransactions.get k =
        (new.stagedTransactions.get k).filter StagedTransaction.isActive := by
  obtain ⟨moved, hm, rfl, _⟩ := prepareTerminals_ok h
  obtain ⟨ha, hg⟩ := moveEach_records hm
  refine ⟨ha, ?_⟩
  intro k
  rw [hg k]
  cases hk : new.stagedTransactions.get k with
  | none => simp
  | some st =>
    cases hop : st.isActive with
    | false =>
      rw [if_pos (mem_endedKeys.mpr ⟨st, hk, hop⟩), Option.filter_some, hop]
      rfl
    | true =>
      rw [if_neg, Option.filter_some, hop]
      · rfl
      intro hme
      obtain ⟨other, ho, he⟩ := mem_endedKeys.mp hme
      rw [hk] at ho
      cases ho
      rw [hop] at he
      cases he

theorem prepareTerminals_rows (h : prepareTerminals X view old new applied = .ok (t, pend)) :
    view.head = old.stagedTerminalHead ∧ new.stagedTerminalHead = view.head ∧
    t.stagedTerminalHead = pend.head ∧ Advances X view.head pend.rows pend.head ∧
    (∀ row ∈ pend.rows, row.stage.isActive = false ∧ NewRow X view applied new row) ∧ ∀ key st,
    new.stagedTransactions.get key = some st → st.isActive = false →
    HasRow X view pend.rows key st := by
  obtain ⟨moved, hm, rfl, hh⟩ := prepareTerminals_ok h
  obtain ⟨added, ha, had, hn, hha⟩ := moveEach_rows hm
  rw [nil_append] at ha
  refine ⟨hh.1, hh.2, rfl, by rw [ha]; exact had, ?_, ?_⟩
  · intro row hr
    rw [ha] at hr
    obtain ⟨hk, hf⟩ := hn row hr
    obtain ⟨st, hs, he⟩ := mem_endedKeys.mp hk
    rw [hf.ended] at hs
    cases hs
    exact ⟨he, hf⟩
  intro key st hg he
  obtain ⟨held, hhe, hr⟩ := hha key (mem_endedKeys.mpr ⟨st, hg, he⟩)
  rw [hg] at hhe
  cases hhe
  rw [ha]
  exact hr

def AllActive (s : TenantState) : Prop :=
  ∀ key stage, s.stagedTransactions.get key = some stage → stage.isActive = true

theorem allActive_of_prepare
    (h : prepareTerminals X view old new applied = .ok (t, pend)) : AllActive t := by
  intro key st hg
  rw [(prepareTerminals_records h).2] at hg
  exact (Option.filter_eq_some_iff.mp hg).2

theorem allActive_of_records (h : AllActive s)
    (hs : t.stagedTransactions = s.stagedTransactions) : AllActive t := by
  intro key st hg
  rw [hs] at hg
  exact h key st hg

theorem exit_allActive (h : Exit X site g cmd ⟨some g', changed, out⟩)
    (ha : AllActive g.state) : AllActive g'.state := by
  cases h with
  | skipped => exact allActive_of_records ha rfl
  | observed _ _ happ =>
    rw [(appendAudit_ok happ).2]
    exact allActive_of_records ha rfl
  | recorded _ _ hr =>
    have hf := congrArg TenantState.stagedTransactions (recorded_frame hr)
    exact allActive_of_records ha hf
  | committed _ _ hat hr =>
    have hrec := congrArg TenantState.stagedTransactions (recorded_frame hr)
    have hap := congrArg TenantState.stagedTransactions (attemptBatch_frame hat)
    exact allActive_of_records ha (hrec.trans hap)
  | published _ _ hm _ _ hfe =>
    have hfed := congrArg TenantState.stagedTransactions (candidateFeed_frame hfe)
    exact allActive_of_records (allActive_of_prepare hm) hfed
  | rejected _ _ _ _ _ hre =>
    obtain ⟨_, _, _, _, _, _, _, _, _, hre⟩ := rejectedState_steps hre
    exact allActive_of_prepare hre

end TerminalMoves
