import Kasumi.StagedSteps

/-! The byte totals of staged records. Every write of a record moves the totals by the charge
of the record it replaces and of the one it writes, and a record that leaves for the history
moves its bytes to its row. Records that the history already holds are shown for one command
only and are charged to their rows. -/
namespace StagedTotals

open TenantTypes Staging PermanentRows FallibleSteps TenantFrames StagingEffects MutationEffects
  OperationEffects EffectFrames TerminalMoves StagedSteps List

variable {Idx Acc : Type} (X : Externals Idx Acc)

/-- The permanent and the reserved bytes of a record, as far as they are defined. -/
def charge (key : String) (stage : StagedTransaction) : ℕ × ℕ :=
  match permanentCharge X key stage with
  | .ok c => c
  | .error _ => (0, 0)

def inHistory (rows : List TerminalRow) (key : String) : Bool := rows.any fun row => row.key = key

/-- The permanent bytes of the resident records that the history does not have. -/
def usedBytes (rows : List TerminalRow) (s : TenantState) : ℕ :=
  s.stagedTransactions.weight fun key stage =>
    if inHistory rows key then 0 else (charge X key stage).1

def reservedBytes (rows : List TerminalRow) (s : TenantState) : ℕ :=
  s.stagedTransactions.weight fun key stage =>
    if inHistory rows key then 0 else (charge X key stage).2

def rowBytes (row : TerminalRow) : ℕ := X.len (.terminalRow row) + frameHeaderBytes

/-- The totals moved with the records, and by the rows that were added. -/
structure Balanced (rows added : List TerminalRow) (s t : TenantState) : Prop where
  used : t.permanentStagedBytes + usedBytes X rows s =
    s.permanentStagedBytes + usedBytes X rows t + (added.map (rowBytes X)).sum
  reserved : t.reservedStagedTerminalBytes + reservedBytes X rows s =
    s.reservedStagedTerminalBytes + reservedBytes X rows t

/-- What a history demands of the resident records while a command runs: an identity it has
was ended, and the one that the command names is shown. -/
structure Shown (rows : List TerminalRow) (command : Command) (s : TenantState) : Prop where
  marked : Marked s
  ended : ∀ row ∈ rows, ∀ stage, s.stagedTransactions.get row.key = some stage →
    stage.isActive = false
  own : ∀ row ∈ rows, ownKey X command = some row.key →
    (s.stagedTransactions.get row.key).isSome = true

variable {X}
variable {cmd : Command} {s : TenantState} {rows : List TerminalRow}

theorem charge_of_ok (h : permanentCharge X key stage = .ok c) : charge X key stage = c := by
  unfold charge
  rw [h]

theorem inHistory_iff : inHistory rows key = true ↔ ∃ row ∈ rows, row.key = key := by
  unfold inHistory
  simp

theorem Balanced.refl (s : TenantState) : Balanced X rows [] s s := ⟨rfl, rfl⟩

theorem Balanced.trans (h : Balanced X rows added s t) (h' : Balanced X rows more t u) :
    Balanced X rows (added ++ more) s u := by
  obtain ⟨hu, hr⟩ := h
  obtain ⟨hu', hr'⟩ := h'
  constructor
  · rw [map_append, sum_append]
    omega
  · omega

theorem Balanced.of_part (h : stagedPart t = stagedPart s) : Balanced X rows [] s t := by
  have hr := congrArg Prod.fst h
  have hu := congrArg (fun p => p.2.2.1) h
  have hre := congrArg (fun p => p.2.2.2.1) h
  dsimp only [stagedPart] at hr hu hre
  constructor
  · unfold usedBytes
    rw [hr, hu]
    rfl
  · unfold reservedBytes
    rw [hr, hre]

theorem chargeOf_getD (h : chargeOf X key record = .ok c) :
    (record.map fun stage => (charge X key stage).1).getD 0 = c.1 ∧
      (record.map fun stage => (charge X key stage).2).getD 0 = c.2 := by
  cases record with
  | none =>
    cases h
    exact ⟨rfl, rfl⟩
  | some stage =>
    have hc := charge_of_ok h
    rw [Option.map_some, Option.map_some, Option.getD_some, Option.getD_some, hc]
    exact ⟨rfl, rfl⟩

/-- Writing a record that the history does not have moves both totals with it. -/
theorem replaceRecord_balanced (h : replaceRecord X s key stage = .ok t) (hn : inHistory rows key =
    false) : Balanced X rows [] s t := by
  obtain ⟨_, hr, _, _, old, new, hold, hc, hu, hre⟩ := replaceRecord_ok h
  obtain ⟨ho, hol⟩ := chargeOf_getD hold
  constructor
  · have hw := OrdMap.weight_set (fun k st => if inHistory rows k then 0 else (charge X k st).1)
      s.stagedTransactions key (some stage)
    simp only [hn, Bool.false_eq_true, if_false, Option.map_some, Option.getD_some,
      charge_of_ok hc, ho] at hw
    unfold usedBytes
    rw [hr]
    unfold OrdMap.insert
    rw [map_nil, sum_nil]
    omega
  have hw := OrdMap.weight_set (fun k st => if inHistory rows k then 0 else (charge X k st).2)
    s.stagedTransactions key (some stage)
  simp only [hn, Bool.false_eq_true, if_false, Option.map_some, Option.getD_some,
    charge_of_ok hc, hol] at hw
  unfold reservedBytes
  rw [hr]
  unfold OrdMap.insert
  omega

section

variable (h : Shown X rows cmd s)

include h

theorem Shown.fresh (hw : (s.stagedTransactions.get key).any StagedTransaction.isActive = true ∨
      (ownKey X cmd = some key ∧ s.stagedTransactions.get key = none)) :
    inHistory rows key = false := by
  rw [Bool.eq_false_iff]
  intro hi
  obtain ⟨row, hr, rfl⟩ := inHistory_iff.mp hi
  rcases hw with ho | ⟨how, hn⟩
  · cases hg : s.stagedTransactions.get row.key with
    | none =>
      rw [hg] at ho
      cases ho
    | some stage =>
      rw [hg, Option.any_some, h.ended row hr stage hg] at ho
      cases ho
  have hs := h.own row hr how
  rw [hn] at hs
  cases hs

theorem Shown.replace (hr : replaceRecord X s key stage = .ok t) (hn : inHistory rows key = false) :
    Shown X rows cmd t := by
  have ho : ∀ row ∈ rows,
      t.stagedTransactions.get row.key = s.stagedTransactions.get row.key := by
    intro row hro
    rw [replaceRecord_get hr, if_neg]
    intro hk
    rw [inHistory_iff.mpr ⟨row, hro, hk⟩] at hn
    cases hn
  refine ⟨h.marked.replace hr, ?_, ?_⟩
  · intro row hro stage hg
    rw [ho row hro] at hg
    exact h.ended row hro stage hg
  intro row hro how
  rw [ho row hro]
  exact h.own row hro how

theorem Shown.of_part (hs : stagedPart t = stagedPart s) : Shown X rows cmd t := by
  have hr := congrArg Prod.fst hs
  dsimp only [stagedPart] at hr
  refine ⟨h.marked.of_part hs, ?_, ?_⟩
  · intro row hro stage hg
    rw [hr] at hg
    exact h.ended row hro stage hg
  intro row hro ho
  rw [hr]
  exact h.own row hro ho

end

theorem expires_balanced (he : Expires X now rev s t)
    (h : Shown X rows cmd s) : Balanced X rows [] s t ∧ Shown X rows cmd t := by
  induction he with
  | done => exact ⟨Balanced.refl _, h⟩
  | @expire s t u key stage hm hg _ hr _ ih =>
    have ho : (s.stagedTransactions.get key).any StagedTransaction.isActive = true := by
      rw [← h.marked key]
      exact hm
    have hf := h.fresh (Or.inl ho)
    obtain ⟨hb, hs⟩ := ih (h.replace hr hf)
    exact ⟨(replaceRecord_balanced hr hf).trans hb, hs⟩

theorem stagedStep_balanced (h : Shown X rows cmd u) (hst : StagedStep X cmd
    rev idx res u t a) : Balanced X rows [] u t ∧ Shown X rows cmd t := by
  have written : ∀ {key : String} {v : TenantState} {stage : StagedTransaction},
      stagedPart v = stagedPart u → replaceRecord X v key stage = .ok t →
      inHistory rows key = false → Balanced X rows [] u t ∧ Shown X rows cmd t := by
    intro key v stage hsa hr hf
    have hsh := h.of_part hsa
    exact ⟨(Balanced.of_part hsa).trans (replaceRecord_balanced hr hf), hsh.replace hr hf⟩
  have active : ∀ {key : String} {stage : StagedTransaction},
      u.stagedTransactions.get key = some stage → stage.isActive = true →
      inHistory rows key = false := by
    intro key stage hg ho
    exact h.fresh (Or.inl (by rw [hg, Option.any_some, ho]))
  cases hst with
  | replayed => exact ⟨Balanced.refl _, h⟩
  | repeated => exact ⟨Balanced.refl _, h⟩
  | begun hop hn _ hr =>
    exact written rfl hr (h.fresh (Or.inr ⟨ownKey_some (by rw [hop]; rfl), hn⟩))
  | uploaded _ hg ho _ _ hr => exact written rfl hr (active hg ho)
  | stopped _ hg ho hr => exact written rfl hr (active hg ho)
  | stoppedNew hop hn hr =>
    exact written rfl hr (h.fresh (Or.inr ⟨ownKey_some (by rw [hop]; rfl), hn⟩))
  | finished _ hg ho _ hs hr =>
    refine written ?_ hr (active hg ho)
    rcases settle_cases hs with ⟨_, _, ha⟩ | ⟨_, _, hk⟩
    · have hfr := (applyMutations_ok (attempt_ok ha).2.2).1
      have hp := congrArg stagedPart hfr
      exact hp
    · rw [hk]

theorem effect_balanced (h : Shown X rows cmd s) (hef : Effect X cmd rev idx res s result t) :
    Balanced X rows [] s t ∧ Shown X rows cmd t := by
  rcases effect_staged_cases hef with hsa | ⟨_, u, he, hl | ⟨a, _, hst⟩⟩
  · exact ⟨Balanced.of_part hsa, h.of_part hsa⟩
  · rw [hl]
    exact expires_balanced he h
  obtain ⟨hba, hsh⟩ := expires_balanced he h
  obtain ⟨hb, hs⟩ := stagedStep_balanced hsh hst
  exact ⟨hba.trans hb, hs⟩

theorem charge_of_ended (key : String) (he : stage.isActive = false) : (charge X key stage).2 = 0 ∧
      ∀ bs, stagedHeader X key stage = .ok bs → (charge X key stage).1 = bs := by
  have hc : permanentCharge X key stage =
      (stagedHeader X key stage).bind fun used => .ok (used, 0) := by
    unfold permanentCharge
    simp only [he, Bool.false_eq_true, if_false]
    rfl
  unfold charge
  rw [hc]
  cases hh : stagedHeader X key stage with
  | error e => exact ⟨rfl, fun _ h => nomatch h⟩
  | ok used =>
    refine ⟨rfl, ?_⟩
    intro bs h
    cases h
    rfl

theorem moveOne_balanced
    (hv : ∀ found, TerminalView.get X view key = .ok found → inHistory rows key = found.isSome)
    (hen : ∀ stage, new.stagedTransactions.get key = some stage → stage.isActive = false)
    (h : moveOne X view old applied new pend key = .ok (t, pending')) :
    ∃ added, pending'.rows = pend.rows ++ added ∧ Balanced X rows added new t := by
  obtain ⟨stage, hs, h⟩ := bind_ok h
  obtain ⟨existing, he, h⟩ := bind_ok h
  have hs := context_ok hs
  obtain ⟨hr, hh⟩ := charge_of_ended (X := X) key (hen stage hs)
  have hi := hv existing he
  have hwu := OrdMap.weight_set (fun k st => if inHistory rows k then 0 else (charge X k st).1)
    new.stagedTransactions key none
  have hw := OrdMap.weight_set (fun k st => if inHistory rows k then 0 else (charge X k st).2)
    new.stagedTransactions key none
  rw [hs] at hwu hw
  cases existing with
  | some row =>
    simp only [hi, Option.isSome_some, if_true, Option.map_some, Option.getD_some, Option.map_none,
      Option.getD_none, Nat.add_zero] at hwu hw
    replace h := then_ok h
    cases h
    refine ⟨[], by simp, ?_, ?_⟩
    · unfold usedBytes OrdMap.remove
      rw [hwu]
      rfl
    · unfold reservedBytes OrdMap.remove
      rw [hw]
  | none =>
    simp only [hi, Option.isSome_none, Bool.false_eq_true, if_false, Option.map_some,
      Option.getD_some, Option.map_none, Option.getD_none, Nat.add_zero, hr] at hwu hw
    obtain ⟨bs, hb, h⟩ := bind_ok h
    obtain ⟨ordinal, _, h⟩ := bind_ok h
    dsimp only at h
    replace h := then_ok h
    obtain ⟨framed, hf, h⟩ := bind_ok h
    replace h := then_ok h
    obtain ⟨permanent, hp, h⟩ := bind_ok h
    obtain ⟨head, _, h⟩ := bind_ok h
    cases h
    obtain ⟨n, hn, hp⟩ := Option.bind_eq_some_iff.mp (context_ok hp)
    have hn := checkedSub_some hn
    have hp := checkedAdd_some hp
    have hc := hh bs (lift_ok hb)
    replace hf := then_ok hf
    have hf := (checkedAdd_some (context_ok hf)).1
    refine ⟨[⟨ordinal, key, pend.head.sha256, applied, stage⟩], rfl, ?_, ?_⟩
    · unfold usedBytes OrdMap.remove
      simp only [map_cons, map_nil, sum_cons, sum_nil, rowBytes]
      omega
    · unfold reservedBytes OrdMap.remove
      rw [hw]

theorem moveEach_balanced
    (hv : ∀ key found, TerminalView.get X view key = .ok found → inHistory rows key = found.isSome)
    : ∀ {new t : TenantState} {pend pending' : TerminalPending},
    (∀ key ∈ ks, ∀ stage, new.stagedTransactions.get key = some stage → stage.isActive = false) →
    moveEach X view old applied ks new pend = .ok (t, pending') → ∃ added,
    pending'.rows = pend.rows ++ added ∧ Balanced X rows added new t := by
  induction ks with
  | nil =>
    intro new t pend pending' _ h
    cases h
    exact ⟨[], by simp, Balanced.refl _⟩
  | cons key ks ih =>
    intro new t pend pending' he h
    obtain ⟨⟨moved, between⟩, hm, h⟩ := bind_ok h
    obtain ⟨first, hf, hba⟩ :=
      moveOne_balanced (hv key) (he key mem_cons_self) hm
    obtain ⟨stage, _, hr, _, _⟩ := moveOne_ok hm
    obtain ⟨rest, hre, hb⟩ := ih (by
      intro k hk held hh
      rw [hr, OrdMap.get_remove] at hh
      split at hh
      · cases hh
      · exact he k (mem_cons_of_mem _ hk) held hh) h
    refine ⟨first ++ rest, ?_, hba.trans hb⟩
    rw [hre, hf, append_assoc]

theorem prepareTerminals_balanced (hv : ∀ key found, TerminalView.get X view key = .ok found →
    inHistory rows key = found.isSome)
    (h : prepareTerminals X view old new applied = .ok (t, pend)) :
    Balanced X rows pend.rows new t := by
  obtain ⟨moved, hm, rfl, _⟩ := PublicationExits.prepareTerminals_ok h
  obtain ⟨added, ha, hb⟩ := moveEach_balanced hv (by
    intro key hk stage hg
    obtain ⟨held, hh, he⟩ := mem_endedKeys.mp hk
    rw [hg] at hh
    cases hh
    exact he) hm
  rw [ha]
  exact ⟨hb.used, hb.reserved⟩

end StagedTotals
