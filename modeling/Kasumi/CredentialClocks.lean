import Kasumi.TenantTypes

/-! Credential clocks. An epoch clock pairs UTC with the elapsed clock and never runs slower than
it; a deadline is a reading of the elapsed clock, with a state that its clones share. Durations
are whole nanoseconds, and what either clock reads is an argument of each call. -/
namespace CredentialClocks

open TenantTypes (wordSize)

def nanosPerMilli : ℕ := 1000000

/-- Durations have 64-bit seconds. -/
def durationAdd (x y : ℕ) : Option ℕ :=
  if x + y < wordSize * 1000000000 then some (x + y) else none

structure EpochAnchor where
  lastSeen : ℕ
  elapsed : ℕ
  utcMs : ℕ
  anchored : elapsed ≤ lastSeen

structure ClockObservation where
  utcMs : ℕ
  elapsedAt : ℕ

abbrev Reading := ℕ × Except String ℕ

def EpochAnchor.see (anchor : EpochAnchor) (now : ℕ) (h : anchor.lastSeen ≤ now) : EpochAnchor :=
  { anchor with lastSeen := now, anchored := anchor.anchored.trans h }

def observe (anchor : EpochAnchor) (r : Reading) :
    Except String ClockObservation × EpochAnchor :=
  if h : r.1 < anchor.lastSeen then (.error "elapsed credential clock regressed", anchor)
  else
    let anchor := anchor.see r.1 (Nat.le_of_not_lt h)
    let elapsedMs := (r.1 - anchor.elapsed) / nanosPerMilli
    let projected := anchor.utcMs + elapsedMs
    if elapsedMs ≥ wordSize then
      (.error "out of range integral type conversion attempted", anchor)
    else if projected ≥ wordSize then (.error "credential clock overflow", anchor)
    else match r.2 with
      | .error e => (.error e, anchor)
      | .ok observed =>
        if observed > projected then (.ok ⟨observed, r.1⟩, ⟨r.1, r.1, observed, le_rfl⟩)
        else (.ok ⟨projected, r.1⟩, anchor)

def observeAll (anchor : EpochAnchor) (readings : List Reading) : EpochAnchor :=
  readings.foldl (fun a r => (observe a r).2) anchor

inductive Observed (a : EpochAnchor) (r : Reading) :
    Except String ClockObservation × EpochAnchor → Prop
  | regressed {e} : Observed a r (.error e, a)
  | failed {e} (h) : Observed a r (.error e, a.see r.1 h)
  | projected {w} (h) : r.2 = .ok w → w ≤ a.utcMs + (r.1 - a.elapsed) / nanosPerMilli →
      Observed a r (.ok ⟨a.utcMs + (r.1 - a.elapsed) / nanosPerMilli, r.1⟩, a.see r.1 h)
  | advanced {w} : a.lastSeen ≤ r.1 → r.2 = .ok w →
      a.utcMs + (r.1 - a.elapsed) / nanosPerMilli < w →
      Observed a r (.ok ⟨w, r.1⟩, ⟨r.1, r.1, w, le_rfl⟩)

theorem observe_observed (a : EpochAnchor) (r : Reading) : Observed a r (observe a r) := by
  unfold observe
  split
  · exact .regressed
  dsimp only
  split
  · exact .failed _
  split
  · exact .failed _
  split
  · exact .failed _
  next hw =>
  split
  · next h => exact .advanced (by omega) hw h
  · next h => exact .projected _ hw (not_lt.mp h)

/-- The clock goes on from the anchor at least as late as from the observation: in nanoseconds,
so that no fraction of a millisecond is lost over a change of anchors. -/
structure Ahead (o : ClockObservation) (a : EpochAnchor) : Prop where
  seen : o.elapsedAt ≤ a.lastSeen
  ahead : o.utcMs * nanosPerMilli + a.elapsed ≤ a.utcMs * nanosPerMilli + o.elapsedAt

section Clock

variable {a : EpochAnchor} {o : ClockObservation} {x : Except String ClockObservation × EpochAnchor}

theorem Observed.ahead (h : Observed a r x) (ho : x.1 = .ok o) : Ahead o x.2 := by
  cases h with
  | regressed => cases ho
  | failed => cases ho
  | projected h =>
    cases ho
    have := a.anchored
    refine ⟨le_rfl, ?_⟩
    dsimp only [nanosPerMilli, EpochAnchor.see]
    omega
  | advanced =>
    cases ho
    exact ⟨le_rfl, le_rfl⟩

theorem Ahead.observed (h : Ahead o a) (hx : Observed a r x) : Ahead o x.2 := by
  cases hx with
  | regressed => exact h
  | failed hl => exact ⟨h.seen.trans hl, h.ahead⟩
  | projected hl => exact ⟨h.seen.trans hl, h.ahead⟩
  | advanced hl _ hw =>
    -- the wall clock is a whole millisecond past the projection, so past its fraction too
    have hu := h.ahead
    refine ⟨h.seen.trans hl, ?_⟩
    dsimp only [nanosPerMilli] at hu hw ⊢
    omega

theorem Ahead.observeAll (h : Ahead o a) (readings : List Reading) :
    Ahead o (observeAll a readings) := by
  induction readings generalizing a with
  | nil => exact h
  | cons r _ ih => exact ih (h.observed (observe_observed a r))

theorem Ahead.elapses (h : Ahead o a) (hx : Observed a r x)
    (ho : x.1 = .ok o') : o.elapsedAt ≤ o'.elapsedAt ∧
      o.utcMs + (o'.elapsedAt - o.elapsedAt) / nanosPerMilli ≤ o'.utcMs := by
  obtain ⟨hs, hu⟩ := h
  have := a.anchored
  cases hx <;> cases ho <;> dsimp only [nanosPerMilli] at * <;> omega

theorem Observed.ok (h : Observed a r x) (ho : x.1 = .ok o) :
    o.elapsedAt = r.1 ∧ ∃ w, r.2 = .ok w ∧ w ≤ o.utcMs := by
  cases h with
  | regressed => cases ho
  | failed => cases ho
  | projected _ hr hw =>
    cases ho
    exact ⟨rfl, _, hr, hw⟩
  | advanced _ hr =>
    cases ho
    exact ⟨rfl, _, hr, le_rfl⟩

end Clock

structure ElapsedDeadline where
  acquired : ℕ
  deadline : ℕ
  /-- The shared state: a clone holds the same one. -/
  lastSeen : ℕ

/-- The shared states made so far: the last reading, or none for ever after a failure. -/
structure Cells where
  count : ℕ
  seen : ℕ → Option ℕ

def Cells.set (cells : Cells) (cell : ℕ) (last : Option ℕ) : Cells :=
  { cells with seen := Function.update cells.seen cell last }

def Cells.alloc (cells : Cells) (last : Option ℕ) : Cells :=
  { cells.set cells.count last with count := cells.count + 1 }

def remaining (cells : Cells) (d : ElapsedDeadline) (now : ℕ) : Except String ℕ × Cells :=
  if (cells.seen d.lastSeen).all (now < ·) ∨ now < d.acquired ∨ now ≥ d.deadline then
    (.error "elapsed deadline expired or clock regressed", cells.set d.lastSeen none)
  else (.ok (d.deadline - now), cells.set d.lastSeen (some now))

def issue (cells : Cells) (acquired deadline : ℕ) (last : Option ℕ) (now : ℕ) :
    Except String ElapsedDeadline × Cells :=
  let proof := ⟨acquired, deadline, cells.count⟩
  let checked := remaining (cells.alloc last) proof now
  (checked.1.map fun _ => proof, checked.2)

def ClockObservation.until (o : ClockObservation) (expiresAtMs : ℕ) (cells : Cells) (now : ℕ) :
    Except String ElapsedDeadline × Cells :=
  if expiresAtMs ≤ o.utcMs then (.error "credential already expired", cells)
  else match durationAdd o.elapsedAt ((expiresAtMs - o.utcMs) * nanosPerMilli) with
    | none => (.error "credential deadline overflow", cells)
    | some deadline => issue cells o.elapsedAt deadline (some o.elapsedAt) now

def shortenedBy (cells : Cells) (d : ElapsedDeadline) (amount now now' : ℕ) :
    Except String ElapsedDeadline × Cells :=
  match remaining cells d now with
  | (.error e, cells) => (.error e, cells)
  | (.ok _, cells) =>
    if d.deadline < amount then (.error "deadline reduction underflow", cells)
    else issue cells d.acquired (d.deadline - amount) (cells.seen d.lastSeen) now'

/-- What a call does: `until` issues, `shortenedBy` checks and then issues. -/
inductive Step (cells : Cells) : Cells → Prop
  | check (d now) : Step cells (remaining cells d now).2
  | issue (acquired deadline last now) : Step cells (issue cells acquired deadline last now).2

abbrev Steps : Cells → Cells → Prop :=
  Relation.ReflTransGen Step

structure Past (c n : ℕ) (cells : Cells) : Prop where
  made : c < cells.count
  past : ∀ last ∈ cells.seen c, n ≤ last

section Deadlines

variable {cells later : Cells} {d : ElapsedDeadline} {last : Option ℕ} {c n now v x y : ℕ}

theorem remaining_cases (cells : Cells) (d : ElapsedDeadline) (now : ℕ) :
    (∃ e, remaining cells d now = (.error e, cells.set d.lastSeen none)) ∨
    (∃ last ∈ cells.seen d.lastSeen, last ≤ now) ∧ now < d.deadline ∧
      remaining cells d now = (.ok (d.deadline - now), cells.set d.lastSeen (some now)) := by
  unfold remaining
  split
  · exact .inl ⟨_, rfl⟩
  next hn =>
  push Not at hn
  refine .inr ⟨?_, hn.2.2, rfl⟩
  cases hs : cells.seen d.lastSeen with
  | none => simp [hs] at hn
  | some last => exact ⟨last, rfl, by simpa [hs] using hn.1⟩

theorem remaining_set (cells : Cells) (d : ElapsedDeadline) (now : ℕ) :
    ∃ last, (remaining cells d now).2 = cells.set d.lastSeen last := by
  rcases remaining_cases cells d now with ⟨e, h⟩ | ⟨-, -, h⟩
  · exact ⟨_, congrArg Prod.snd h⟩
  · exact ⟨_, congrArg Prod.snd h⟩

theorem remaining_ok (h : (remaining cells d now).1 = .ok v) :
    (∃ last ∈ cells.seen d.lastSeen, last ≤ now) ∧ now < d.deadline ∧
      (remaining cells d now).2 = cells.set d.lastSeen (some now) := by
  rcases remaining_cases cells d now with ⟨e, he⟩ | ⟨hl, hn, he⟩
  · rw [he] at h
    cases h
  · exact ⟨hl, hn, congrArg Prod.snd he⟩

theorem set_seen (c : ℕ) (last : Option ℕ) : (cells.set c last).seen c = last :=
  Function.update_self ..

theorem set_frame (hc : c ≠ a) (last : Option ℕ) : (cells.set a last).seen c = cells.seen c :=
  Function.update_of_ne hc ..

/-- A check moves its state on to its own reading, or seals it. -/
theorem Past.check (h : Past c n cells) : Past c n (remaining cells d now).2 := by
  by_cases hc : c = d.lastSeen
  · subst hc
    rcases remaining_cases cells d now with ⟨e, he⟩ | ⟨⟨last, hl, hle⟩, -, he⟩
    · rw [he]
      exact ⟨h.made, by simp [set_seen]⟩
    · rw [he]
      exact ⟨h.made, by simpa [set_seen] using (h.past last hl).trans hle⟩
  obtain ⟨last, he⟩ := remaining_set cells d now
  rw [he]
  refine ⟨h.made, ?_⟩
  rw [set_frame hc]
  exact h.past

theorem issue_set (cells : Cells) (x y : ℕ) (last : Option ℕ) (now : ℕ) :
    ∃ l, (issue cells x y last now).2 = (cells.alloc last).set cells.count l :=
  remaining_set (cells.alloc last) ⟨x, y, cells.count⟩ now

theorem issue_frame (hc : c < cells.count) :
    (issue cells x y last now).2.seen c = cells.seen c := by
  obtain ⟨l, h⟩ := issue_set cells x y last now
  rw [h, set_frame hc.ne]
  exact set_frame hc.ne last

theorem issue_ok (h : (issue cells x y last now).1 = .ok d) : d = ⟨x, y, cells.count⟩ ∧
    (issue cells x y last now).2 = (cells.alloc last).set cells.count (some now) := by
  unfold issue at h ⊢
  dsimp only at h ⊢
  cases hr : (remaining (cells.alloc last) ⟨x, y, cells.count⟩ now).1 with
  | error e =>
    rw [hr] at h
    cases h
  | ok v =>
    rw [hr] at h
    cases h
    exact ⟨rfl, (remaining_ok hr).2.2⟩

theorem durationAdd_eq (h : durationAdd x y = some n) : n = x + y := by
  unfold durationAdd at h
  split at h
  · exact (Option.some.inj h).symm
  · cases h

theorem until_ok {o : ClockObservation} (h : (o.until x cells now).1 = .ok d) :
    d.deadline = o.elapsedAt + (x - o.utcMs) * nanosPerMilli ∧
      Past d.lastSeen now (o.until x cells now).2 := by
  unfold ClockObservation.until at h ⊢
  split at h
  · cases h
  next hx =>
  rw [if_neg hx]
  split at h
  · cases h
  next ha =>
  obtain ⟨rfl, hc⟩ := issue_ok h
  refine ⟨durationAdd_eq ha, ?_⟩
  dsimp only
  rw [hc]
  refine ⟨Nat.lt_succ_self _, fun last hl => ?_⟩
  rw [set_seen] at hl
  cases hl
  exact le_rfl

theorem shortenedBy_cells (cells : Cells) (d : ElapsedDeadline) (amount now now' : ℕ) :
    (shortenedBy cells d amount now now').2 = (remaining cells d now).2 ∨
    ∃ x y last, (shortenedBy cells d amount now now').2 =
      (issue (remaining cells d now).2 x y last now').2 := by
  unfold shortenedBy
  split
  · next h => exact .inl (by rw [h])
  next h =>
  rw [h]
  split
  · exact .inl rfl
  · exact .inr ⟨_, _, _, rfl⟩

theorem shortenedBy_steps : Steps cells (shortenedBy cells d amount now now').2 := by
  have hs : Steps cells (remaining cells d now).2 := .single (.check ..)
  rcases shortenedBy_cells cells d amount now now' with h | ⟨x, y, last, h⟩
  · rwa [h]
  · rw [h]
    exact hs.tail (.issue ..)

theorem remaining_frame (hc : c ≠ d.lastSeen) :
    (remaining cells d now).2.seen c = cells.seen c := by
  obtain ⟨last, h⟩ := remaining_set cells d now
  rw [h, set_frame hc]

theorem shortenedBy_frame (hc : c ≠ d.lastSeen) (hp : Past c n cells) :
    (shortenedBy cells d amount now now').2.seen c = cells.seen c := by
  rcases shortenedBy_cells cells d amount now now' with h | ⟨x, y, last, h⟩
  · rw [h, remaining_frame hc]
  · rw [h, issue_frame hp.check.made, remaining_frame hc]

theorem shortenedBy_ok (h : (shortenedBy cells d amount now now').1 = .ok child) :
    child.deadline = d.deadline - amount ∧ child.lastSeen = cells.count := by
  unfold shortenedBy at h
  split at h
  · cases h
  next cells' hr =>
  split at h
  · cases h
  obtain ⟨rfl, -⟩ := issue_ok h
  obtain ⟨last, hs⟩ := remaining_set cells d now
  rw [hr] at hs
  cases hs
  exact ⟨rfl, rfl⟩

theorem Past.issue (h : Past c n cells) : Past c n (issue cells x y last now).2 := by
  obtain ⟨l, he⟩ := issue_set cells x y last now
  refine ⟨?_, ?_⟩
  · rw [he]
    exact h.made.trans (Nat.lt_succ_self _)
  · rw [issue_frame h.made]
    exact h.past

theorem Past.steps (h : Past c n cells) (hs : Steps cells later) : Past c n later := by
  induction hs with
  | refl => exact h
  | tail _ hs ih =>
    cases hs with
    | check => exact ih.check
    | issue => exact ih.issue

theorem Past.le (h : Past d.lastSeen n cells) (hr : (remaining cells d now).1 = .ok v) :
    n ≤ now := by
  obtain ⟨⟨last, hl, hle⟩, -⟩ := remaining_ok hr
  exact (h.past last hl).trans hle

/-- Before a check that succeeds, every other of the same state succeeded, no later. -/
theorem earlier_ok {d' : ElapsedDeadline} (hd : d'.lastSeen = d.lastSeen)
    (hm : d.lastSeen < cells.count) (hs : Steps (remaining cells d' n).2 later)
    (h : (remaining later d now).1 = .ok v) :
    n ≤ now ∧ ∃ v', (remaining cells d' n).1 = .ok v' := by
  rcases remaining_cases cells d' n with ⟨e, he⟩ | ⟨-, -, he⟩
  · -- a sealed state is past every reading
    have hp : Past d.lastSeen (now + 1) (remaining cells d' n).2 := by
      rw [he, hd]
      exact ⟨hm, by simp [set_seen]⟩
    have := (hp.steps hs).le h
    omega
  have hp : Past d.lastSeen n (remaining cells d' n).2 := by
    rw [he, hd]
    exact ⟨hm, by simp [set_seen]⟩
  exact ⟨(hp.steps hs).le h, _, congrArg Prod.fst he⟩

end Deadlines

/-- The epoch clock never loses a millisecond of the elapsed clock; a deadline ends by its
reading and, for all its clones, with its first failure; a child ends by its own and on its own. -/
theorem credentials_never_extend :
    (∀ clock r o, (observe clock r).1 = .ok o →
      o.elapsedAt = r.1 ∧ ∃ w, r.2 = .ok w ∧ w ≤ o.utcMs) ∧
    (∀ clock first between second o o', (observe clock first).1 = .ok o →
      (observe (observeAll (observe clock first).2 between) second).1 = .ok o' →
      first.1 ≤ second.1 ∧ o.utcMs + (second.1 - first.1) / nanosPerMilli ≤ o'.utcMs ∧
      ∀ x, first.1 + (x - o.utcMs) * nanosPerMilli ≤ second.1 → x ≤ o'.utcMs) ∧
    (∀ (o : ClockObservation) x cells now d, (o.until x cells now).1 = .ok d →
      ∀ later n v, Steps (o.until x cells now).2 later → (remaining later d n).1 = .ok v →
      now ≤ n ∧ n < o.elapsedAt + (x - o.utcMs) * nanosPerMilli) ∧
    (∀ cells d d' n' later n v, d'.lastSeen = d.lastSeen → d.lastSeen < cells.count →
      Steps (remaining cells d' n').2 later → (remaining later d n).1 = .ok v →
      n' ≤ n ∧ ∃ v', (remaining cells d' n').1 = .ok v') ∧
    ∀ cells d amount now now' child later, d.lastSeen < cells.count →
      (shortenedBy cells d amount now now').1 = .ok child →
      Steps (shortenedBy cells d amount now now').2 later →
      (∀ n, d.deadline - amount ≤ n → ∀ v, (remaining later child n).1 ≠ .ok v) ∧
      ∀ after, (∃ n, after = (remaining later child n).2) ∨
          (∃ a n n', after = (shortenedBy later child a n n').2) →
        after.seen d.lastSeen = later.seen d.lastSeen ∧
        ∀ n, (remaining after d n).1 = (remaining later d n).1 := by
  refine ⟨fun clock r o h => (observe_observed clock r).ok h,
    fun clock first between second o o' h h' => ?_,
    fun o x cells now d hd later n v hs h => ?_,
    fun cells d d' n' later n v hd hm hs h => earlier_ok hd hm hs h,
    fun cells d amount now now' child later hd hc hs =>
      ⟨fun n hn v h => ?_, fun after ha => ?_⟩⟩
  · have hf := observe_observed clock first
    have hl := ((hf.ahead h).observeAll between).elapses (observe_observed _ second) h'
    rw [(hf.ok h).1, ((observe_observed _ second).ok h').1] at hl
    refine ⟨hl.1, hl.2, fun x hx => ?_⟩
    have hl := hl.2
    dsimp only [nanosPerMilli] at hx hl
    omega
  · obtain ⟨ht, hp⟩ := until_ok hd
    exact ⟨(hp.steps hs).le h, ht ▸ (remaining_ok h).2.1⟩
  · have := (remaining_ok h).2.1
    have := (shortenedBy_ok hc).1
    omega
  have hz : Past d.lastSeen 0 cells := ⟨hd, fun _ _ => Nat.zero_le _⟩
  have hc' : d.lastSeen ≠ child.lastSeen := (shortenedBy_ok hc).2 ▸ hd.ne
  have hf : after.seen d.lastSeen = later.seen d.lastSeen := by
    rcases ha with ⟨n, rfl⟩ | ⟨a, n, n', rfl⟩
    · exact remaining_frame hc'
    · exact shortenedBy_frame hc' ((hz.steps shortenedBy_steps).steps hs)
  refine ⟨hf, fun n => ?_⟩
  simp only [remaining, hf, apply_ite Prod.fst]

/-- UTC 5 at 0 ms, 6 at 1.5 ms and 100 at 4 ms; a credential until 9; a child of 6 of 10 ns. -/
theorem credentials_never_extend_in_four_millis :
    6 + (4000000 - 1500000) / nanosPerMilli ≤ 100 ∧
    3000000 < 1500000 + (9 - 6) * nanosPerMilli ∧
    ∀ v, (remaining (shortenedBy ⟨1, fun _ => some 0⟩ ⟨0, 10, 0⟩ 4 1 2).2 ⟨0, 6, 1⟩ 6).1 ≠ .ok v :=
  have ⟨_, h, h', _, hc⟩ := credentials_never_extend
  have hu := h ⟨0, 0, 5, le_rfl⟩ (1500000, .ok 0) [] (4000000, .ok 100) ⟨6, _⟩ ⟨100, _⟩ rfl rfl
  have hd := h' ⟨6, 1500000⟩ 9 ⟨0, fun _ => none⟩ 2000000 ⟨1500000, 4500000, 0⟩ rfl
  ⟨hu.2.1, (hd _ 3000000 1500000 .refl rfl).2,
    (hc _ ⟨0, 10, 0⟩ 4 1 2 ⟨0, 6, 1⟩ _ Nat.one_pos rfl .refl).1 6 le_rfl⟩

end CredentialClocks
