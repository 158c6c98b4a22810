import Kasumi.RaftLogImage

/-! Reads of a log from the rows that represent it: an unlimited read returns exactly the entries
within its bounds, a limited one a nonempty part of them from the first on. -/
namespace RaftLogReads

open FallibleSteps TenantTypes RaftLogTypes RaftLogStore RaftLogRows RaftLogImage IndexedLog List

variable {M K : Type} {X : Node M K} {rows : Rows M} {log : Log M}

def Above : Bound → ℕ → Prop
  | .included value, i => value ≤ i
  | .excluded value, i => value < i
  | .unbounded, _ => True

def Under : Bound → ℕ → Prop
  | .included value, i => i ≤ value
  | .excluded value, i => i < value
  | .unbounded, _ => True

def InBounds (bounds : Bound × Bound) (i : ℕ) : Prop := Above bounds.1 i ∧ Under bounds.2 i

structure Listed (log : Log M) (bounds : Bound × Bound) (entries : List (Entry M)) : Prop where
  ordered : entries.Pairwise fun a b => a.index < b.index
  complete : ∀ e, e ∈ entries ↔ log e.index = some e ∧ InBounds bounds e.index

section OneEntry

variable {e : Entry M} {h : LogHeader M} {seed : Option Bytes} {i : ℕ}

section

variable (hh : Holds X e h seed (rowsAt rows i))

include hh

theorem metadataEntry_eq (hm : metadataEntry h = some e') : e' = e := by
  obtain ⟨hpa, hid, _, hi⟩ := build_ok hh.built
  unfold metadataEntry at hm
  cases hp : h.payload with
  | blank =>
    rw [hp] at hm hpa
    cases hm
    have hn := validate_initialization hh.valid (fun m hmem => by rw [hp] at hmem; cases hmem)
    have hb := payloadHeader_blank hpa
    rcases e with ⟨id, payload, initialization⟩
    simp only at hid hi hb
    rw [hid, hb, ← hi, hn]
  | membership m =>
    rw [hp] at hm hpa
    cases hm
    have hme := payloadHeader_membership hpa
    rcases e with ⟨id, payload, initialization⟩
    simp only at hid hi hme
    rw [hid, hme, hi]
  | _ =>
    rw [hp] at hm
    cases hm

theorem serving_of_open (hm : metadataEntry h = none) (hcl : h.payload.closed = false) :
    X.serving = true := by
  by_contra hs
  rcases hh.domain (Bool.eq_false_of_not_eq_true hs) with hc | hn
  · rw [hcl] at hc
    cases hc
  obtain ⟨hpa, _⟩ := build_ok hh.built
  cases hp : e.payload with
  | normal c =>
    rw [hp] at hn
    cases hn
  | blank =>
    rw [hp] at hpa
    have hb : h.payload = .blank := by
      injection hpa with hpai
      exact (congrArg Prod.fst hpai).symm
    simp [metadataEntry, hb] at hm
  | membership m =>
    rw [hp] at hpa
    have hme : h.payload = .membership m := by
      injection hpa with hpai
      exact (congrArg Prod.fst hpai).symm
    simp [metadataEntry, hme] at hm

theorem encodedEntry_ok : encodedEntry X rows i h = .ok (encodeEntry X.toFormats e) := by
  unfold encodedEntry
  cases hm : metadataEntry h with
  | some e' =>
    rw [metadataEntry_eq hh hm]
    rfl
  | none =>
    unfold encodedBody
    have hc : rows.custodyLog.get i =
        if h.payload.closed then some (encodeEntry X.toFormats e) else none := hh.custody
    have ho : h.payload.closed = false →
        applicationGet X rows i = .ok (encodeEntry X.toFormats e) := by
      intro hcl
      have hs := serving_of_open hh hm hcl
      have hb : rows.log.get i =
          if h.payload.closed then none else some (encodeEntry X.toFormats e) := hh.body hs
      rw [hcl, if_neg Bool.false_ne_true] at hb
      rw [applicationGet, ok_bind (check_true hs)]
      exact demand_some hb
    cases hp : h.payload with
    | custody c =>
      rw [hp] at hc
      exact demand_some hc
    | _ =>
      rw [hp] at ho
      exact ho rfl

theorem decodedEntry_ok : decodedEntry X h (encodeEntry X.toFormats e) = .ok e := by
  unfold decodedEntry
  cases hm : metadataEntry h with
  | some e' =>
    rw [metadataEntry_eq hh hm]
    rfl
  | none => exact decodeEntry_encodeEntry X.toFormats e

end

end OneEntry

section Ranges

variable {first last : ℕ} {bds : Bound × Bound} {span : RetainedSpan}

theorem checkEndpoint_ok (hx : Extent Entry.index log p q)
    (hi : Indexed Entry.index log) (he : log i = some e) :
    RetainedSpan.checkEndpoint ⟨p.logId, q.logId⟩ e.logId = .ok () := by
  have hk : e.index = i := hi i e he
  have hen : ∀ a : Entry M, log a.index = some a →
      (decide (e.logId.index ≠ a.logId.index) || e.logId == a.logId) = true := by
    intro a ha
    by_cases heq : e.logId.index = a.logId.index
    · have : i = a.index := by rw [← hk]; exact heq
      rw [this, ha] at he
      cases he
      simp
    · simp [heq]
  apply check_true
  rw [hen p hx.start, hen q hx.stop]
  rfl

/-- A read over retained indices returns their entries, or the first ones of them when it is
limited; the first is always among them. -/
theorem readFrom_ok (hr : Represents X B S rows log) (hx : Extent Entry.index log p q)
    (is : List ℕ) (hi : ∀ i ∈ is, (log i).isSome = true) :
    readFrom X rows ⟨p.logId, q.logId⟩ is none = .ok (is.filterMap log) ∧
      ∀ batch, ∃ es, readFrom X rows ⟨p.logId, q.logId⟩ is (some batch) = .ok es ∧
        es <+: is.filterMap log ∧ (batch = ⟨0, 0⟩ → is ≠ [] → es ≠ []) := by
  induction is with
  | nil => exact ⟨rfl, fun batch => ⟨[], rfl, prefix_rfl, fun _ h => absurd rfl h⟩⟩
  | cons i is ih =>
    obtain ⟨e, he⟩ := Option.isSome_iff_exists.mp (hi i mem_cons_self)
    obtain ⟨h, seed, hre, hh⟩ := readHeader_ok hr he
    obtain ⟨hal, hp⟩ := ih fun j hj => hi j (mem_cons_of_mem _ hj)
    have hend : RetainedSpan.checkEndpoint ⟨p.logId, q.logId⟩ h.logId = .ok () := by
      rw [hh.logId]
      exact checkEndpoint_ok hx hr.indexed he
    have hl : (i :: is).filterMap log = e :: is.filterMap log := by
      rw [filterMap_cons, he]
    constructor
    · rw [readFrom, if_neg (by simp), ok_bind hre, ok_bind hend,
        ok_bind (encodedEntry_ok hh)]
      simp only [admitted]
      rw [ok_bind (decodedEntry_ok hh), ok_bind (checkEntry_built hh.built),
        ok_bind hal, hl]
      rfl
    intro batch
    by_cases hf : batch.full = true
    · refine ⟨[], ?_, List.nil_prefix, ?_⟩
      · rw [readFrom, if_pos (by simpa using hf)]
        rfl
      intro hz
      subst hz
      exact absurd hf (by decide)
    have hc : admitted (some batch) (encodeEntry X.toFormats e).length = none →
        readFrom X rows ⟨p.logId, q.logId⟩ (i :: is) (some batch) = .ok [] := by
      intro ha
      rw [readFrom, if_neg (by simpa using hf), ok_bind hre, ok_bind hend,
        ok_bind (encodedEntry_ok hh), ha]
      rfl
    have hg : ∀ next es,
        admitted (some batch) (encodeEntry X.toFormats e).length = some next →
        readFrom X rows ⟨p.logId, q.logId⟩ is next = .ok es →
        readFrom X rows ⟨p.logId, q.logId⟩ (i :: is) (some batch) = .ok (e :: es) := by
      intro next es ha hen
      rw [readFrom, if_neg (by simpa using hf), ok_bind hre, ok_bind hend,
        ok_bind (encodedEntry_ok hh), ha]
      dsimp only
      rw [ok_bind (decodedEntry_ok hh), ok_bind (checkEntry_built hh.built),
        ok_bind hen]
      rfl
    cases ha : batch.admits (encodeEntry X.toFormats e).length with
    | none =>
      refine ⟨[], ?_, List.nil_prefix, ?_⟩
      · exact hc (by simp only [admitted, ha, Option.map_none])
      intro hz
      subst hz
      simp [ReadBatch.admits] at ha
    | some next =>
      obtain ⟨es, hen, hpr, _⟩ := hp next
      refine ⟨e :: es, ?_, ?_, fun _ _ => cons_ne_nil _ _⟩
      · exact hg _ _ (by simp only [admitted, ha, Option.map_some]) hen
      · rw [hl]
        exact cons_prefix_cons.mpr ⟨rfl, hpr⟩

theorem above_iff (bound : Bound) (hi : i < wordSize) :
    Above bound i ↔ ∃ a, bound.start = some a ∧ a ≤ i := by
  cases bound with
  | included v => simp [Above, Bound.start]
  | unbounded => simp [Above, Bound.start]
  | excluded v =>
    simp only [Above, Bound.start, checkedAdd, Option.ite_none_right_eq_some, Option.some.injEq]
    constructor
    · exact fun h => ⟨v + 1, ⟨by omega, rfl⟩, h⟩
    · rintro ⟨a, ⟨_, rfl⟩, h⟩
      exact h

theorem under_iff (bound : Bound) (hi : i < wordSize) :
    Under bound i ↔ ∃ b, bound.stop = some b ∧ i ≤ b := by
  cases bound with
  | included v => simp [Under, Bound.stop]
  | unbounded =>
    simp only [Under, Bound.stop, Option.some.injEq, exists_eq_left', true_iff]
    omega
  | excluded v =>
    simp only [Under, Bound.stop, checkedSub, Option.ite_none_right_eq_some, Option.some.injEq]
    constructor
    · exact fun h => ⟨v - 1, ⟨by omega, rfl⟩, by omega⟩
    · rintro ⟨b, ⟨_, rfl⟩, h⟩
      omega

theorem intersect_some (hw : span.last.index < wordSize)
    (h : span.intersect bds = some (first, last)) : first ≤ last ∧ span.first.index ≤ first ∧
    last ≤ span.last.index ∧ ∀ i, span.first.index ≤ i → i ≤ span.last.index → (InBounds bds i ↔
    first ≤ i ∧ i ≤ last) := by
  obtain ⟨a, ha, hr⟩ := Option.bind_eq_some_iff.mp h
  obtain ⟨b, hb, he⟩ := Option.bind_eq_some_iff.mp hr
  dsimp only at he
  split at he
  · rename_i hl
    cases he
    refine ⟨hl, le_max_right _ _, min_le_right _ _, ?_⟩
    intro i hf hi
    rw [InBounds, above_iff _ (by omega), under_iff _ (by omega), ha, hb]
    simp only [Option.some.injEq, exists_eq_left']
    omega
  · cases he

theorem intersect_none (hw : span.last.index < wordSize) (h : span.intersect bds = none) (i : ℕ)
    (hf : span.first.index ≤ i) (hil : i ≤ span.last.index) : ¬ InBounds bds i := by
  intro hi
  obtain ⟨a, ha, hai⟩ := (above_iff _ (by omega)).mp hi.1
  obtain ⟨b, hb, hib⟩ := (under_iff _ (by omega)).mp hi.2
  simp only [RetainedSpan.intersect, ha, hb, Option.bind_eq_bind, Option.bind_some] at h
  rw [if_pos (by omega)] at h
  cases h

theorem listed_indices (hr : Represents X B S rows log) (hx : Extent Entry.index log p q)
    (hin : ∀ i, p.index ≤ i → i ≤ q.index → (InBounds bds i ↔ first ≤ i ∧ i ≤ last)) :
    Listed log bds ((indices first last).filterMap log) := by
  constructor
  · rw [pairwise_filterMap]
    apply (pairwise_lt_range' (s := first) _).imp
    intro i j hij a ha b hb
    rw [hr.indexed i a ha, hr.indexed j b hb]
    exact hij
  intro e
  rw [mem_filterMap]
  constructor
  · rintro ⟨i, hi, he⟩
    have hk : e.index = i := hr.indexed i e he
    have hra := (hx.filled i).mp (by rw [he]; rfl)
    rw [hk]
    exact ⟨he, (hin i hra.1 hra.2).mpr (mem_indices_iff.mp hi)⟩
  rintro ⟨he, hb⟩
  have hra := (hx.filled e.index).mp (by rw [he]; rfl)
  exact ⟨e.index, mem_indices_iff.mpr ((hin _ hra.1 hra.2).mp hb), he⟩

theorem consecutive_indices (hr : Represents X B S rows log)
    (hs : ∀ i ∈ indices first last, (log i).isSome = true) :
    Consecutive Entry.index first ((indices first last).filterMap log) := by
  unfold indices at *
  generalize last + 1 - first = n at *
  induction n generalizing first with
  | zero =>
    intro j a ha
    cases ha
  | succ n ih =>
    rw [range'_succ] at hs ⊢
    obtain ⟨e, he⟩ := Option.isSome_iff_exists.mp (hs first mem_cons_self)
    have hre := ih fun i hi => hs i (mem_cons_of_mem _ hi)
    rw [filterMap_cons, he]
    intro j a ha
    cases j with
    | zero =>
      cases ha
      exact hr.indexed first e he
    | succ j =>
      have := hre j a (by simpa using ha)
      omega

end Ranges

theorem tryGetLogEntries_ok (hr : Represents X B S s.rows log) (hs : Spans log s.retained)
    (bds : Bound × Bound) : ∃ es, tryGetLogEntries X bds s = .ok es ∧ Listed log bds es := by
  unfold tryGetLogEntries readEntries
  cases hre : s.retained with
  | none =>
    rw [hre] at hs
    refine ⟨[], rfl, List.Pairwise.nil, ?_⟩
    intro e
    simp [hs e.index]
  | some span =>
    rw [hre] at hs
    obtain ⟨p, q, hx, rfl⟩ := hs
    have hw : q.index < wordSize := (hr.words _ q hx.stop).2.2
    dsimp only
    cases hi : RetainedSpan.intersect ⟨p.logId, q.logId⟩ bds with
    | none =>
      refine ⟨[], rfl, List.Pairwise.nil, ?_⟩
      intro e
      constructor
      · intro h
        cases h
      rintro ⟨he, hb⟩
      have hra := (hx.filled e.index).mp (by rw [he]; rfl)
      exact absurd hb (intersect_none hw hi _ hra.1 hra.2)
    | some range =>
      obtain ⟨first, last⟩ := range
      obtain ⟨hle, hf, hl, hin⟩ := intersect_some hw hi
      have hso : ∀ i ∈ indices first last, (log i).isSome = true := by
        intro i hm
        rw [mem_indices_iff] at hm
        exact (hx.filled i).mpr ⟨le_trans hf hm.1, le_trans hm.2 hl⟩
      refine ⟨_, ?_, listed_indices hr hx hin⟩
      exact (readFrom_ok hr hx _ hso).1

/-- A limited read that starts at a retained index returns consecutive entries from there on,
at least one, and all of them among those of the range. -/
theorem limitedGetLogEntries_ok (hr : Represents X B S s.rows log) (hs : Spans log s.retained)
    (hlt : start < stop) (hst : (log start).isSome = true) : ∃ es full,
    limitedGetLogEntries X start stop s = .ok es ∧ es ≠ [] ∧ es <+: full ∧
    Consecutive Entry.index start full ∧ Listed log (.included start, .excluded stop) full := by
  rw [limitedGetLogEntries, if_neg (by omega), readEntries]
  cases hre : s.retained with
  | none =>
    rw [hre] at hs
    rw [hs start] at hst
    cases hst
  | some span =>
    rw [hre] at hs
    obtain ⟨p, q, hx, rfl⟩ := hs
    have hw : q.index < wordSize := (hr.words _ q hx.stop).2.2
    have hra := (hx.filled start).mp hst
    dsimp only
    cases hi : RetainedSpan.intersect ⟨p.logId, q.logId⟩ (.included start, .excluded stop) with
    | none =>
      exact absurd ⟨le_rfl, hlt⟩ (intersect_none hw hi start hra.1 hra.2)
    | some range =>
      obtain ⟨first, last⟩ := range
      obtain ⟨hle, hf, hl, hin⟩ := intersect_some hw hi
      have hmi : first ≤ start ∧ start ≤ last :=
        (hin start hra.1 hra.2).mp ⟨le_rfl, hlt⟩
      have hfi : first = start := by
        have hm : InBounds (.included start, .excluded stop) first :=
          (hin first hf (le_trans hle hl)).mpr ⟨le_rfl, hle⟩
        exact le_antisymm hmi.1 hm.1
      subst hfi
      have hso : ∀ i ∈ indices first last, (log i).isSome = true := by
        intro i hm
        rw [mem_indices_iff] at hm
        exact (hx.filled i).mpr ⟨le_trans hf hm.1, le_trans hm.2 hl⟩
      obtain ⟨es, hrea, hp, hne⟩ := (readFrom_ok hr hx _ hso).2 ⟨0, 0⟩
      refine ⟨es, _, ?_, ?_, hp, consecutive_indices hr hso, listed_indices hr hx hin⟩
      · dsimp only
        rw [ok_bind (check_true (by simp))]
        exact hrea
      apply hne rfl
      intro hn
      have : first ∈ indices first last := mem_indices_iff.mpr ⟨le_rfl, hle⟩
      rw [hn] at this
      cases this

end RaftLogReads
