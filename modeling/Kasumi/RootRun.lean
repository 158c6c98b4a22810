import Kasumi.RootSlots

/-! Publication calls over whole runs. Each call is specified once: what a completed call
leaves, what a refusal leaves, and what every power cut inside it can leave. Runs of calls,
completed or cut anywhere, then keep one invariant of the two slots. -/
namespace RootRun

open ByteFields (fits_zero)
open DirectoryPages (CoreError DirectoryRoot maxU64 segmentBytes)
open FallibleState List
open MediaFormat (RootTyped)
open OrderedWrites
open Device (quiet)
open RootCodec
open RootFormat
open RootPublication
open RootSlots

section Issues

variable {steady : Prop} {α β : Type} {E : Failure → RootFile → Prop}

/-- From `file` the call ends in `Q`, or stops in `E`; `steady` runs have no power cut. -/
def Issues (steady : Prop) (file : RootFile) (x : RootM α) (E : Failure → RootFile → Prop)
    (Q : α → RootFile → Prop) : Prop :=
  ∀ budget, (steady → budget = none) → Meets ⟨file, budget⟩ x (fun e g => E e g.file)
    fun a g => (steady → g.budget = none) ∧ Q a g.file

theorem issues_pure (h : Q a file) : Issues steady file (pure a) E Q := by
  intro budget hb
  exact meets_pure ⟨hb, h⟩

theorem issues_bind {x : RootM β}
    (hx : Issues steady file x E P) (hk : ∀ b f, P b f → Issues steady f (k b) E Q) :
    Issues steady file (x >>= k) E Q := by
  intro budget hb
  apply meets_then (hx budget hb)
  intro b g hg
  exact hk b g.file hg.2 g.budget hg.1

theorem issues_throw_then {e : Failure} (h : E e file) :
    Issues steady file (throw e >>= k) E Q := by
  intro budget _
  exact meets_throw h

theorem issues_mono {x : RootM α}
    (h : Issues steady file x E Q) (he : ∀ e f, E e f → E' e f) (hq : ∀ a f, Q a f → Q' a f) :
    Issues steady file x E' Q' := by
  intro budget hb
  apply meets_mono (h budget hb)
  · intro e g; exact he e g.file
  · intro a g hg; exact ⟨hg.1, hq a g.file hg.2⟩

theorem issues_refuse {x : Except CoreError α} (ho : ∀ a, x = .ok a → Q a file)
    (he : ∀ e, x = .error e → E (rejected e) file) : Issues steady file (refuse x) E Q := by
  intro budget hb
  cases x with
  | ok a => exact ⟨hb, ho a rfl⟩
  | error e => exact he e rfl

theorem issues_call (hc : ¬ steady → E (rejected .io) (failed file))
    (hd : Q () (effect file)) : Issues steady file (backendCall effect failed) E Q := by
  intro budget hb
  by_cases hz : budget = some 0
  · have hs : ¬ steady := by
      intro hs
      rw [hb hs] at hz
      cases hz
    simp only [Meets, backendCall, ExceptT.run, StateT.run, hz, if_true]
    exact hc hs
  simp only [Meets, backendCall, ExceptT.run, StateT.run, hz, if_false]
  refine ⟨?_, hd⟩
  intro hs
  rw [hb hs]; rfl

theorem issues_unknown
    (h : Issues steady file x (fun e f => E { e with unknownCommit := true } f) Q) :
    Issues steady file (unknownIo x) E Q := by
  intro budget hb
  have hx := h budget hb
  simp only [Meets, unknownIo, ExceptT.run, StateT.run] at hx ⊢
  rcases hr : x ⟨file, budget⟩ with ⟨_ | _, g⟩
  · rw [hr] at hx; exact hx
  · rw [hr] at hx; exact hx

theorem issues_call_then (hc : ¬ steady → E (rejected .io) (failed file))
    (hk : Issues steady (effect file) (k ()) E Q) :
    Issues steady file (backendCall effect failed >>= k) E Q := by
  apply issues_bind (P := fun _ f => f = effect file) (issues_call hc rfl)
  intro _ f hf
  rw [hf]; exact hk

theorem issues_unknown_then (hc : ¬ steady → E ⟨true, .io⟩ (failed file))
    (hk : Issues steady (effect file) (k ()) E Q) :
    Issues steady file (unknownIo (backendCall effect failed) >>= k) E Q := by
  apply issues_bind (P := fun _ f => f = effect file) (issues_unknown (issues_call hc rfl))
  intro _ f hf
  rw [hf]; exact hk

theorem issues_read (hc : ¬ steady → E (rejected .io) file) :
    Issues steady file (readRoot slot) E fun bs f => bs = file.view slot ∧ f = file := by
  apply issues_call_then hc
  intro budget hb
  exact ⟨hb, rfl, rfl⟩

end Issues

/-- The power failed inside the call, and every image it can leave satisfies `P`. -/
def Cut (steady : Prop) (P : Slots → Prop) (e : Failure) (file : RootFile) : Prop :=
  e.cause = .io ∧ ¬ steady ∧ ∀ d, file.Survivor tear d → P d

section Calls

variable {steady : Prop} {d : Slots} {P : Slots → Prop} {first : RootSlot}
  {bs : List ByteFields.Byte} {sel : Option Superblock} {prev next : Superblock} {e : CoreError}
  {x : RootSelection} {restore : Bool}

theorem cut_quiet (h : P d) (hs : ¬ steady) : Cut steady P (rejected .io) (quiet d) :=
  ⟨rfl, hs, fun _ hd => survivor_quiet hd ▸ h⟩

theorem cut_write {e : Failure}
    (he : e.cause = .io)
    (hs : ¬ steady)
    (h : ∀ m, tear (d slot) bs m → P (Function.update d slot m)) :
    Cut steady P e ((quiet d).write slot bs) := by
  refine ⟨he, hs, ?_⟩
  intro d' hd'
  obtain ⟨m, hm, rfl⟩ := survivor_write tear_laws hd'
  exact h m hm

theorem writeBoth_spec
    (h1 : ∀ m, tear (d first) bs m → P (Function.update d first m))
    (h2 : ∀ m, tear (d first.other) bs m →
      P (Function.update (Function.update d first bs) first.other m)) :
    Issues steady (quiet d) (writeBoth first bs) (Cut steady P)
      fun _ f => f = quiet fun _ => bs := by
  have hc (e : Failure) (he : e.cause = .io) (hs : ¬ steady) : Cut steady P e
      ((((quiet d).write first bs).order).write first.other bs) := by
    refine ⟨he, hs, ?_⟩
    intro d' hd'
    rcases survivor_ordered tear_laws hd' with ⟨m, hm, rfl⟩ | ⟨m, hm, rfl⟩
    · exact h1 m hm
    · rw [Function.update_of_ne (other_ne first)] at hm
      exact h2 m hm
  apply issues_unknown_then fun hs => cut_write rfl hs h1
  apply issues_unknown_then fun hs => cut_write rfl hs h1
  apply issues_unknown_then fun hs => hc _ rfl hs
  apply issues_unknown
  apply issues_call (fun hs => hc _ rfl hs)
  simp only [Device.sync, Device.view_write, Device.view_order, Device.view_quiet]
  congr 1
  funext t
  rcases eq_or_other first t with rfl | rfl
  · rw [Function.update_of_ne (other_ne t).symm, Function.update_self]
  · rw [Function.update_self]

theorem mirror_spec (h : Held d r slot) (hP : ∀ d', Held d' r slot → P d') :
    Issues steady (quiet d) (do writeRoot slot.other (slotImage r); syncRoot)
      (Cut steady P) fun _ f => f = quiet fun _ => slotImage r := by
  have ht (m) (hm : tear (d slot.other) (slotImage r) m) :
      P (Function.update d slot.other m) := hP _ (h.mirror hm)
  apply issues_call_then fun hs => cut_write rfl hs ht
  apply issues_call (fun hs => cut_write rfl hs ht)
  simp only [Device.sync, Device.view_write, Device.view_quiet]
  congr 1
  funext t
  rcases eq_or_other slot t with rfl | rfl
  · rw [update_other_same]; exact h.image
  · exact Function.update_self _ _ _

/-- The selection read from slots that show `sel`, with the slot it was found in. -/
def Selects (d : Slots) (sel : Option Superblock) (x : RootSelection) : Prop :=
  (sel = none ∧ x = .empty ∧ Blank d) ∨
    ∃ r s mirrored, sel = some r ∧ x = .selected r s mirrored ∧ Held d r s ∧
      (mirrored = true → ∀ t, d t = slotImage r)

theorem select_shows (h : Shows d sel) :
    ∃ x, selectRootImages (d .a) (d .b) = .ok x ∧ Selects d sel x := by
  cases sel with
  | none => exact ⟨.empty, select_blank h, .inl ⟨rfl, rfl, h⟩⟩
  | some r =>
    obtain ⟨slot, hh⟩ := h
    obtain ⟨s, mirrored, hx, hs, hm⟩ := select_held hh
    exact ⟨_, hx, .inr ⟨r, s, mirrored, rfl, rfl, hs, hm⟩⟩

theorem readSelection_spec {E : Failure → RootFile → Prop} (h : Shows d sel)
    (hc : ¬ steady → E (rejected .io) (quiet d)) :
    Issues steady (quiet d) readSelection E
      fun x f => f = quiet d ∧ Selects d sel x := by
  apply issues_bind (issues_read hc)
  rintro a f ⟨rfl, rfl⟩
  apply issues_bind (issues_read hc)
  rintro b f ⟨rfl, rfl⟩
  obtain ⟨x, hx, hs⟩ := select_shows h
  apply issues_refuse
  · intro y hy
    rw [Device.view_quiet, hx] at hy
    cases hy
    exact ⟨rfl, hs⟩
  intro e he
  rw [Device.view_quiet, hx] at he
  cases he

/-- `next` may be published: it succeeds `previous`, which the slots select. -/
structure Follows (sel : Option Superblock) (previous next : Superblock) : Prop where
  successor : isSuccessor previous next
  selected : sel = some previous ∨ sel = none ∧ previous.generation = 0
  ok : next.invariantViolation = none

/-- Only `genesis` makes a superblock of generation zero. -/
def Unpublished (s : Superblock) : Prop :=
  s.generation = 0 → s = Superblock.genesis s.groupId

theorem good_next (h : Shows d sel) (hf : Follows sel prev next) (ht : Typed next) (hp :
    Unpublished prev) : Good next := by
  rcases hf.selected with rfl | ⟨-, hz⟩
  · obtain ⟨slot, hh⟩ := h
    exact hh.good.successor hf.successor ht hf.ok
  · exact good_first (hp hz) hf.successor ht hf.ok

/-- After a cut the slots show the old selection, or the successor being published. -/
def OldOrNext (sel : Option Superblock) (previous next : Superblock) (d : Slots) : Prop :=
  Shows d sel ∨ Follows sel previous next ∧ Shows d (some next)

theorem write_over_previous (h : Held d prev first.other) (hn : Good next)
    (hf : Follows (some prev) prev next) (hfi : first = .forGeneration next.generation) :
    Issues steady (quiet d) (writeBoth first (slotImage next))
      (Cut steady (OldOrNext (some prev) prev next))
      fun _ f => f = quiet fun _ => slotImage next := by
  apply writeBoth_spec
  · intro m hm
    rcases h.publish hn hf.successor hfi hm with hold | hne
    · exact .inl ⟨_, hold⟩
    · exact .inr ⟨hf, _, hne⟩
  intro m hm
  right
  refine ⟨hf, first, ?_⟩
  apply (h.published hn hf.successor hfi).mirror
  rw [Function.update_of_ne (other_ne first)]
  exact hm

theorem write_over_blank (h : Blank d) (hn : Good next) (hf : Follows none prev next)
    (ho : next.generation = 1) : Issues steady (quiet d) (writeBoth .b (slotImage next))
      (Cut steady (OldOrNext none prev next))
      fun _ f => f = quiet fun _ => slotImage next := by
  apply writeBoth_spec
  · intro m hm
    rcases h.publish hn ho hm with hold | hne
    · exact .inl hold
    · exact .inr ⟨hf, _, hne⟩
  intro m hm
  right
  refine ⟨hf, .b, ?_⟩
  apply (h.published hn ho).mirror
  exact hm

/-- How an accepted or refused publication can stop short. -/
def Stopped (steady : Prop) (d : Slots) (sel : Option Superblock) (previous next : Superblock)
    (e : Failure) (file : RootFile) : Prop :=
  e.cause ≠ .io ∧ file = quiet d ∧ ¬ Follows sel previous next ∨
    Cut steady (OldOrNext sel previous next) e file

theorem encode_ok {bs : List ByteFields.Byte} (h : encode s = .ok bs) :
    s.invariantViolation = none ∧ bs = slotImage s := by
  cases hv : s.invariantViolation with
  | none => rw [encode, hv] at h; cases h; exact ⟨rfl, rfl⟩
  | some reason => rw [encode, hv] at h; cases h

theorem encode_error (h : encode s = .error e) : s.invariantViolation ≠ none ∧ e ≠ .io := by
  cases hv : s.invariantViolation with
  | none => rw [encode, hv] at h; cases h
  | some reason => rw [encode, hv] at h; cases h; exact ⟨nofun, nofun⟩

theorem needsRestore_ok (hx : Selects d sel x) (h : needsRestore x prev first = .ok restore) :
    (sel = none ∧ prev.generation = 0 ∧ restore = false ∧ Blank d) ∨ sel = some prev ∧
        (if restore then Held d prev first else Held d prev first.other) := by
  rcases hx with ⟨hs, rfl, hb⟩ | ⟨r, s, mirrored, hs, rfl, hh, hm⟩
  · left
    by_cases hz : prev.generation = 0
    · simp only [needsRestore, if_pos hz] at h
      cases h
      exact ⟨hs, hz, rfl, hb⟩
    · simp only [needsRestore, if_neg hz] at h
      cases h
  right
  by_cases hr : r = prev
  · subst hr
    simp only [needsRestore, if_true] at h
    cases h
    refine ⟨hs, ?_⟩
    cases mirrored with
    | true => exact held_everywhere hh.good (hm rfl) _
    | false =>
      rcases eq_or_other first s with rfl | rfl
      · simpa using hh
      · simpa [other_ne] using hh
  · simp only [needsRestore, if_neg hr] at h
    cases h

theorem needsRestore_error (hx : Selects d sel x) (h : needsRestore x prev first = .error e) :
    e ≠ .io ∧ ¬ (sel = some prev ∨ sel = none ∧ prev.generation = 0) := by
  rcases hx with ⟨hse, rfl, -⟩ | ⟨r, s, mirrored, hse, rfl, -⟩
  · by_cases hz : prev.generation = 0
    · simp only [needsRestore, if_pos hz] at h
      cases h
    simp only [needsRestore, if_neg hz] at h
    cases h
    refine ⟨nofun, ?_⟩
    rintro (hs | ⟨-, hs⟩)
    · rw [hse] at hs; cases hs
    · exact hz hs
  by_cases hr : r = prev
  · simp only [needsRestore, if_pos hr] at h
    cases h
  simp only [needsRestore, if_neg hr] at h
  cases h
  refine ⟨nofun, ?_⟩
  rintro (hs | ⟨hs, -⟩)
  · rw [hse] at hs; exact hr (Option.some.inj hs)
  · rw [hse] at hs; cases hs

theorem publish_writes (hn : Good next) (hf : Follows (some prev) prev next)
    (hfi : first = .forGeneration next.generation)
    (h : if restore then Held d prev first else Held d prev first.other) :
    Issues steady (quiet d)
      (do if restore then restorePrevious prev first.other
          writeBoth first (slotImage next))
      (Cut steady (OldOrNext (some prev) prev next))
      fun _ f => f = quiet fun _ => slotImage next := by
  cases restore with
  | false => exact write_over_previous h hn hf hfi
  | true =>
    have hh : Held d prev first := h
    have hr : Issues steady (quiet d) (restorePrevious prev first.other)
        (Cut steady (OldOrNext (some prev) prev next))
        fun _ f => f = quiet fun _ => slotImage prev := by
      apply issues_bind (P := fun bs f => bs = slotImage prev ∧ f = quiet d)
      · apply issues_refuse
        · intro bs hb
          exact ⟨(encode_ok hb).2, rfl⟩
        · intro e he
          exact absurd hh.good.ok (encode_error he).1
      · rintro bs f ⟨rfl, rfl⟩
        exact mirror_spec hh fun d' hd' => .inl ⟨_, hd'⟩
    apply issues_bind hr
    rintro - f rfl
    exact write_over_previous (held_everywhere hh.good (fun _ => rfl) _) hn hf hfi

theorem publish_spec (h : Shows d sel) (ht : Follows sel prev next → Typed next)
    (hp : Unpublished prev) : Issues steady (quiet d) (publish prev next)
    (Stopped steady d sel prev next) fun _ f => Follows sel prev next ∧ Good next ∧
    f = quiet fun _ => slotImage next := by
  by_cases hs : isSuccessor prev next = true
  swap
  · simp only [publish, hs]
    apply issues_throw_then
    exact .inl ⟨nofun, rfl, fun hf => hs hf.successor⟩
  simp only [publish, hs]
  apply issues_bind (P := fun bs f => next.invariantViolation = none ∧
    bs = slotImage next ∧ f = quiet d)
  · apply issues_refuse
    · intro bs hb
      exact ⟨(encode_ok hb).1, (encode_ok hb).2, rfl⟩
    · intro e he
      exact .inl ⟨(encode_error he).2, rfl, fun hf => (encode_error he).1 hf.ok⟩
  rintro bs f ⟨hok, rfl, rfl⟩
  apply issues_bind (readSelection_spec h fun hst => .inr (cut_quiet (.inl h) hst))
  rintro x f ⟨rfl, hx⟩
  apply issues_bind (P := fun restore f => needsRestore x prev
    (.forGeneration next.generation) = .ok restore ∧ f = quiet d)
  · apply issues_refuse
    · intro restore hr
      exact ⟨hr, rfl⟩
    intro e he
    obtain ⟨hi, hno⟩ := needsRestore_error hx he
    exact .inl ⟨hi, rfl, fun hf => hno hf.selected⟩
  rintro restore f ⟨hr, rfl⟩
  rcases needsRestore_ok hx hr with ⟨rfl, hz, rfl, hbl⟩ | ⟨rfl, hh⟩
  · have hf : Follows none prev next := ⟨hs, .inr ⟨rfl, hz⟩, hok⟩
    have hn := good_next h hf (ht hf) hp
    have ho : next.generation = 1 := by
      have := (isSuccessor_step hs).1
      omega
    have hfi : RootSlot.forGeneration next.generation = .b := by rw [ho]; rfl
    rw [hfi]
    apply issues_mono (write_over_blank hbl hn hf ho)
    · intro e f hc; exact .inr hc
    · intro _ f hd; exact ⟨hf, hn, hd⟩
  have hf : Follows (some prev) prev next := ⟨hs, .inl rfl, hok⟩
  have hn := good_next h hf (ht hf) hp
  apply issues_mono (publish_writes hn hf rfl hh)
  · intro e f hc; exact .inr hc
  · intro _ f hd; exact ⟨hf, hn, hd⟩

theorem publishRoot_spec (h : Shows d sel) (ht : Typed next) (hp : Unpublished prev) :
    Issues steady (quiet d) (publishRoot prev next) (fun e f => e.cause ≠ .io ∧
    f = quiet d ∧ ¬ prev.garbage ⊆ next.garbage ∨
    Stopped steady d sel prev next e f) fun _ f => Follows sel prev next ∧ Good next ∧
    f = quiet fun _ => slotImage next := by
  by_cases hg : prev.garbage.any (· ∉ next.garbage) = true
  · simp only [publishRoot, hg]
    apply issues_throw_then
    refine .inl ⟨nofun, rfl, ?_⟩
    intro hsu
    obtain ⟨file, hm, hn⟩ := any_eq_true.mp hg
    exact of_decide_eq_true hn (hsu hm)
  simp only [publishRoot, hg]
  apply issues_mono (publish_spec h (fun _ => ht) hp)
  · intro e f hs; exact .inr hs
  · intro _ f hd; exact hd

theorem forget_cases (s : Superblock) (u : Unlinked) :
    (∃ msg, s.forget u = .error (.invalidInput msg)) ∨
      (s.generation + 1 ≤ maxU64 ∧ u.file ∈ s.garbage ∧ s.forget u =
        .ok { s with generation := s.generation + 1, garbage := s.garbage.erase u.file }) := by
  by_cases hg : u.groupId ≠ s.groupId
  · left
    simp only [Superblock.forget, if_pos hg]
    exact ⟨_, rfl⟩
  by_cases hge : s.generation + 1 > maxU64
  · left
    simp only [Superblock.forget, if_neg hg, Superblock.successor, if_pos hge]
    exact ⟨_, rfl⟩
  by_cases hf : u.file ∉ s.garbage
  · left
    simp only [Superblock.forget, if_neg hg, Superblock.successor, if_neg hge, bind,
      Except.bind, pure, Except.pure, if_pos hf]
    exact ⟨_, rfl⟩
  right
  refine ⟨by omega, not_not.mp hf, ?_⟩
  simp only [Superblock.forget, if_neg hg, Superblock.successor, if_neg hge, bind,
    Except.bind, pure, Except.pure, if_neg hf]

theorem forget_typed (ht : Typed s) (h : s.forget u = .ok next) : Typed next := by
  rcases forget_cases s u with ⟨m, he⟩ | ⟨hg, -, ho⟩
  · rw [he] at h; cases h
  rw [ho] at h
  cases h
  refine { ht with generation := ?_, garbage := ?_ }
  · simp only [ByteFields.Fits, maxU64] at hg ⊢
    omega
  · intro f hf
    exact ht.garbage f (mem_of_mem_erase hf)

theorem publishForget_spec (h : Shows d sel) (hp : Unpublished prev) :
    Issues steady (quiet d) (publishForget prev u) (fun e f => e.cause ≠ .io ∧
    f = quiet d ∨ ∃ next, prev.forget u = .ok next ∧
    Stopped steady d sel prev next e f) fun next f => prev.forget u = .ok next ∧
    Follows sel prev next ∧ Good next ∧ f = quiet fun _ => slotImage next := by
  apply issues_bind (P := fun next f => prev.forget u = .ok next ∧ f = quiet d)
  · apply issues_refuse
    · intro next hn; exact ⟨hn, rfl⟩
    intro e he
    refine .inl ⟨?_, rfl⟩
    rcases forget_cases prev u with ⟨m, her⟩ | ⟨-, -, ho⟩
    · rw [her] at he; cases he; exact nofun
    · rw [ho] at he; cases he
  rintro next f ⟨hn, rfl⟩
  have ht : Follows sel prev next → Typed next := by
    intro hf
    rcases hf.selected with rfl | ⟨-, hz⟩
    · obtain ⟨slot, hh⟩ := h
      exact forget_typed hh.good.typed hn
    -- A new group has recorded no garbage, so nothing can be forgotten.
    rcases forget_cases prev u with ⟨m, her⟩ | ⟨-, hm, -⟩
    · rw [her] at hn; cases hn
    · rw [hp hz] at hm; cases hm
  apply issues_bind (issues_mono (publish_spec h ht hp) (fun e f hs => .inr ⟨next, hn, hs⟩)
    fun _ _ hq => hq)
  rintro - f ⟨hf, hg, hfi⟩
  exact issues_pure ⟨hn, hf, hg, hfi⟩

theorem repairMirror_spec (h : Shows d sel) :
    Issues steady (quiet d) (repairMirror superblock slot)
      (fun e f => e.cause ≠ .io ∧ f = quiet d ∨ Cut steady (Shows · sel) e f)
      fun _ f => ∃ d', f = quiet d' ∧ Shows d' sel := by
  apply issues_bind (readSelection_spec h fun hst => .inr (cut_quiet h hst))
  rintro x f ⟨rfl, hx⟩
  by_cases ha : repairAllowed x superblock slot = true
  swap
  · simp only [ha]
    apply issues_throw_then
    exact .inl ⟨nofun, rfl⟩
  -- The named slot holds the selected root, so only the other one is overwritten.
  obtain ⟨rfl, hh⟩ : sel = some superblock ∧ Held d superblock slot := by
    rcases hx with ⟨-, rfl, -⟩ | ⟨r, s, mirrored, hse, rfl, hs, hm⟩
    · cases ha
    simp only [repairAllowed, Bool.and_eq_true, beq_iff_eq, Bool.or_eq_true] at ha
    obtain ⟨rfl, hsl⟩ := ha
    refine ⟨hse, ?_⟩
    rcases hsl with hmi | rfl
    · exact held_everywhere hs.good (hm hmi) slot
    · exact hs
  simp only [ha]
  apply issues_bind (P := fun bs f => bs = slotImage superblock ∧ f = quiet d)
  · apply issues_refuse
    · intro bs hb; exact ⟨(encode_ok hb).2, rfl⟩
    · intro e he; exact absurd hh.good.ok (encode_error he).1
  rintro bs f ⟨rfl, rfl⟩
  apply issues_mono (mirror_spec (P := (Shows · (some superblock))) hh fun d' hd' => ⟨_, hd'⟩)
  · intro e f hc; exact .inr hc
  · rintro - f rfl
    exact ⟨_, rfl, slot, held_everywhere hh.good (fun _ => rfl) slot⟩

theorem selectRoot_spec (h : Shows d sel) : Issues steady (quiet d) selectRoot (Cut steady
    (Shows · sel)) fun x f => f = quiet d ∧ Selects d sel x := by
  apply issues_call_then fun hs => cut_quiet h hs
  exact readSelection_spec h fun hs => cut_quiet h hs

end Calls

/-- The calls a group owner makes on its root file; `selectRoot` is the reopen. -/
inductive Call where
  | selectRoot
  | publishRoot (previous next : Superblock)
  | publishForget (previous : Superblock) (unlinked : Unlinked)
  | repairMirror (superblock : Superblock) (slot : RootSlot)

namespace Call

def exec : Call → RootM Unit
  | selectRoot => do let _ ← RootPublication.selectRoot
  | publishRoot previous next => RootPublication.publishRoot previous next
  | publishForget previous unlinked => do
    let _ ← RootPublication.publishForget previous unlinked
  | repairMirror superblock slot => RootPublication.repairMirror superblock slot

/-- The predecessor a publication names and the root it would make durable. -/
def attempt : Call → Option (Superblock × Superblock)
  | publishRoot previous next => some (previous, next)
  | publishForget previous unlinked =>
    match previous.forget unlinked with
    | .ok next => some (previous, next)
    | .error _ => none
  | _ => none

/-- The arguments are values of their types, and generation zero is `genesis`. -/
def WellTyped : Call → Prop
  | publishRoot previous next => Typed next ∧ Unpublished previous
  | publishForget previous _ => Unpublished previous
  | _ => True

end Call

/-- Where the selection can go in one call: nowhere, or to the successor it publishes. -/
def Moves (sel : Option Superblock) (c : Call) (sel' : Option Superblock) : Prop :=
  sel' = sel ∨ ∃ previous next, c.attempt = some (previous, next) ∧
    Follows sel previous next ∧ sel' = some next

/-- What a completed call leaves: its own root, or the selection as it was. -/
def Completed (sel : Option Superblock) (c : Call) (d : Slots) : Prop :=
  match c.attempt with
  | some (previous, next) => Follows sel previous next ∧ Shows d (some next)
  | none => Shows d sel

variable {sel : Option Superblock} {prev : Superblock} {e : Failure}

theorem call_spec (h : Shows d sel) (hc : c.WellTyped) :
    Issues steady (quiet d) c.exec
      (fun e f => e.cause ≠ .io ∧ f = quiet d ∨
        Cut steady (fun d' => ∃ sel', Shows d' sel' ∧ Moves sel c sel') e f)
      fun _ f => ∃ d', f = quiet d' ∧ Completed sel c d' := by
  have stay (e f) (hcu : Cut steady (Shows · sel) e f) :
      Cut steady (fun d' => ∃ sel', Shows d' sel' ∧ Moves sel c sel') e f :=
    ⟨hcu.1, hcu.2.1, fun d' hd' => ⟨sel, hcu.2.2 d' hd', .inl rfl⟩⟩
  have move {prev next : Superblock} (ha : c.attempt = some (prev, next)) (e f)
      (hs : Stopped steady d sel prev next e f) :
      e.cause ≠ .io ∧ f = quiet d ∨
        Cut steady (fun d' => ∃ sel', Shows d' sel' ∧ Moves sel c sel') e f := by
    rcases hs with ⟨hi, hf, -⟩ | ⟨hi, hst, hd⟩
    · exact .inl ⟨hi, hf⟩
    refine .inr ⟨hi, hst, ?_⟩
    intro d' hd'
    rcases hd d' hd' with hold | ⟨hf, hne⟩
    · exact ⟨sel, hold, .inl rfl⟩
    · exact ⟨some next, hne, .inr ⟨prev, next, ha, hf, rfl⟩⟩
  have shows_all {r : Superblock} (hg : Good r) : Shows (fun _ => slotImage r) (some r) :=
    ⟨.a, held_everywhere hg (fun _ => rfl) .a⟩
  cases c with
  | selectRoot =>
    apply issues_bind (issues_mono (selectRoot_spec h) (fun e f hcu => .inr (stay e f hcu))
      fun _ _ hq => hq)
    rintro x f ⟨rfl, -⟩
    exact issues_pure ⟨d, rfl, h⟩
  | publishRoot prev next =>
    apply issues_mono (publishRoot_spec h hc.1 hc.2)
    · rintro e f (⟨hi, hf, -⟩ | hs)
      · exact .inl ⟨hi, hf⟩
      · exact move rfl e f hs
    · rintro - f ⟨hf, hg, rfl⟩
      exact ⟨_, rfl, hf, shows_all hg⟩
  | publishForget prev u =>
    have ha {next : Superblock} (hn : prev.forget u = .ok next) :
        (Call.publishForget prev u).attempt = some (prev, next) := by
      simp only [Call.attempt, hn]
    apply issues_bind (issues_mono (publishForget_spec h hc) ?_ fun _ _ hq => hq)
    · rintro next f ⟨hn, hf, hg, rfl⟩
      refine issues_pure ⟨_, rfl, ?_⟩
      simp only [Completed, ha hn]
      exact ⟨hf, shows_all hg⟩
    rintro e f (⟨hi, hf⟩ | ⟨next, hn, hs⟩)
    · exact .inl ⟨hi, hf⟩
    · exact move (ha hn) e f hs
  | repairMirror superblock slot =>
    apply issues_mono (repairMirror_spec h)
    · rintro e f (hi | hcu)
      · exact .inl hi
      · exact .inr (stay e f hcu)
    · intro _ f hdo; exact hdo

inductive Event where
  | returned (call : Call)
  /-- The power fails in backend call number `calls` of the call, or after it. -/
  | cut (call : Call) (calls : ℕ)

def Event.call : Event → Call
  | returned c => c
  | cut c _ => c

/-- What the owner knows: the last root whose publication returned success, and the
successors whose publication was interrupted since. -/
structure Ledger where
  acknowledged : Option Superblock
  interrupted : List Superblock

def Ledger.record (l : Ledger) (c : Call) (result : Except Failure Unit) : Ledger :=
  match c.attempt, result with
  | some (_, next), .ok () => ⟨some next, []⟩
  | some (_, next), .error e =>
    if e.cause = .io then { l with interrupted := next :: l.interrupted } else l
  | none, _ => l

/-- One event. After a cut the group is reopened on an image the power cut can leave. -/
inductive Step : RootFile → Ledger → Event → RootFile → Ledger → Prop where
  | returned {file : RootFile} {l : Ledger} {c : Call} {result : Except Failure Unit}
      {g : Group} (h : (c.exec.run).run ⟨file, none⟩ = (result, g)) :
      Step file l (.returned c) g.file (l.record c result)
  | cut {file : RootFile} {l : Ledger} {c : Call} {n : ℕ} {result : Except Failure Unit}
      {g : Group} {d : Slots} (h : (c.exec.run).run ⟨file, some n⟩ = (result, g))
      (hd : g.file.Survivor tear d) :
      Step file l (.cut c n) (quiet d) (l.record c result)

inductive Runs : RootFile → Ledger → List Event → RootFile → Ledger → Prop where
  | nil (file : RootFile) (l : Ledger) : Runs file l [] file l
  | cons {file file' file'' : RootFile} {l l' l'' : Ledger} {e : Event} {es : List Event}
      (h : Step file l e file' l') (hs : Runs file' l' es file'' l'') :
      Runs file l (e :: es) file'' l''

theorem runs_exist (es : List Event) (file : RootFile) (l : Ledger) :
    ∃ file' l', Runs file l es file' l' := by
  induction es generalizing file l with
  | nil => exact ⟨file, l, .nil file l⟩
  | cons e es ih =>
    obtain ⟨file₁, l₁, hs⟩ : ∃ file₁ l₁, Step file l e file₁ l₁ := by
      cases e with
      | returned c => exact ⟨_, _, .returned (Prod.mk.eta).symm⟩
      | cut c n => exact ⟨_, _, .cut (Prod.mk.eta).symm (survivor_view _)⟩
    obtain ⟨file₂, l₂, hr⟩ := ih file₁ l₁
    exact ⟨file₂, l₂, .cons hs hr⟩

/-- The selection is the acknowledged root or an interrupted successor, never an older one. -/
def Explains (l : Ledger) : Option Superblock → Prop
  | none => l.acknowledged = none
  | some r => (l.acknowledged = some r ∨ r ∈ l.interrupted) ∧
    ∀ q, l.acknowledged = some q → q.generation ≤ r.generation

def NotOlder (sel sel' : Option Superblock) : Prop :=
  ∀ r, sel = some r → ∃ r', sel' = some r' ∧ (r' = r ∨ r.generation < r'.generation)

theorem NotOlder.refl (sel : Option Superblock) : NotOlder sel sel :=
  fun r hr => ⟨r, hr, .inl rfl⟩

theorem NotOlder.trans (h1 : NotOlder a b) (h2 : NotOlder b c) : NotOlder a c := by
  intro r hr
  obtain ⟨s, hs, hrs⟩ := h1 r hr
  obtain ⟨t, ht, hst⟩ := h2 s hs
  refine ⟨t, ht, ?_⟩
  rcases hrs with rfl | hrs
  · exact hst
  rcases hst with rfl | hst
  · exact .inr hrs
  · exact .inr (by omega)

theorem Follows.newer (h : Follows sel old new) (hr : sel = some r) :
    r.generation < new.generation := by
  have hg := (isSuccessor_step h.successor).1
  rcases h.selected with hs | ⟨hs, -⟩
  · rw [hr] at hs
    rw [Option.some.inj hs]
    omega
  · rw [hr] at hs; cases hs

/-- One root is selected after another: each is a successor, with no violation, of the root
selected before it, and the first of the genesis of its group. -/
def Succession : Option Superblock → Option Superblock → Prop :=
  Relation.ReflTransGen fun sel sel' => ∃ previous next, Follows sel previous next ∧ sel' = some next

theorem Moves.succession (h : Moves sel c sel') : Succession sel sel' := by
  rcases h with rfl | ⟨prev, next, -, hf, rfl⟩
  · exact .refl
  · exact .single ⟨prev, next, hf, rfl⟩

theorem Succession.notOlder (h : Succession sel sel') : NotOlder sel sel' := by
  induction h with
  | refl => exact NotOlder.refl _
  | tail _ hs ih =>
    obtain ⟨prev, next, hf, rfl⟩ := hs
    exact ih.trans fun r hr => ⟨next, rfl, .inr (hf.newer hr)⟩

/-- The state between calls: nothing in flight, and a selection the ledger explains. -/
structure Settled (file : RootFile) (l : Ledger) (sel : Option Superblock) : Prop where
  slots : ∃ d, file = quiet d ∧ Shows d sel
  explained : Explains l sel

theorem explains_completed (hl : Explains l sel) (h : Completed sel c d) :
    ∃ sel', Shows d sel' ∧ Moves sel c sel' ∧ Explains (l.record c (.ok ())) sel' := by
  cases ha : c.attempt with
  | none =>
    simp only [Completed, ha] at h
    refine ⟨sel, h, .inl rfl, ?_⟩
    simp only [Ledger.record, ha]; exact hl
  | some pair =>
    obtain ⟨prev, next⟩ := pair
    simp only [Completed, ha] at h
    refine ⟨some next, h.2, .inr ⟨prev, next, ha, h.1, rfl⟩, ?_⟩
    simp only [Ledger.record, ha]
    refine ⟨.inl rfl, ?_⟩
    intro q hq
    cases hq
    exact le_rfl

theorem explains_refused (hl : Explains l sel) (he : e.cause ≠ .io) :
    Explains (l.record c (.error e)) sel := by
  cases ha : c.attempt with
  | none => simp only [Ledger.record, ha]; exact hl
  | some pair => simp only [Ledger.record, ha, if_neg he]; exact hl

theorem explains_cut (hl : Explains l sel) (he : e.cause = .io) (hm : Moves sel c sel') :
    Explains (l.record c (.error e)) sel' := by
  rcases hm with rfl | ⟨prev, next, ha, hf, rfl⟩
  · cases ha : c.attempt with
    | none => simp only [Ledger.record, ha]; exact hl
    | some pair =>
      simp only [Ledger.record, ha, if_pos he]
      cases sel' with
      | none => exact hl
      | some r =>
        refine ⟨?_, hl.2⟩
        rcases hl.1 with hac | hi
        · exact .inl hac
        · exact .inr (mem_cons_of_mem _ hi)
  simp only [Ledger.record, ha, if_pos he]
  refine ⟨.inr mem_cons_self, ?_⟩
  intro q hq
  cases sel with
  | none => rw [show l.acknowledged = none from hl] at hq; cases hq
  | some r =>
    have hle := hl.2 q hq
    have hlt := hf.newer rfl
    omega

theorem step_settled {e : Event} (hste : Step file l e file' l') (hc : e.call.WellTyped)
    (h : Settled file l sel) : ∃ sel', Settled file' l' sel' ∧ Moves sel e.call sel' := by
  obtain ⟨⟨d, rfl, hsh⟩, hl⟩ := h
  cases hste with
  | returned hr =>
    rename_i c result g
    have hsp := (call_spec hsh hc : Issues True (quiet d) c.exec _ _) none fun _ => rfl
    simp only [Meets, hr] at hsp
    cases result with
    | ok u =>
      obtain ⟨-, d', hd', hdo⟩ := hsp
      obtain ⟨sel', hs, hm, hex⟩ := explains_completed hl hdo
      exact ⟨sel', ⟨⟨d', hd', hs⟩, hex⟩, hm⟩
    | error e =>
      rcases hsp with ⟨hi, hf⟩ | ⟨-, hst, -⟩
      · exact ⟨sel, ⟨⟨d, hf, hsh⟩, explains_refused hl hi⟩, .inl rfl⟩
      · exact absurd trivial hst
  | cut hr hd =>
    rename_i c n result g d₁
    have hsp := (call_spec hsh hc : Issues False (quiet d) c.exec _ _) (some n)
      fun hf => hf.elim
    simp only [Meets, hr] at hsp
    cases result with
    | ok u =>
      obtain ⟨-, d', hd', hdo⟩ := hsp
      rw [hd'] at hd
      obtain rfl := survivor_quiet hd
      obtain ⟨sel', hs, hm, hex⟩ := explains_completed hl hdo
      exact ⟨sel', ⟨⟨_, rfl, hs⟩, hex⟩, hm⟩
    | error e =>
      rcases hsp with ⟨hi, hf⟩ | ⟨hi, -, hsu⟩
      · rw [hf] at hd
        obtain rfl := survivor_quiet hd
        exact ⟨sel, ⟨⟨_, rfl, hsh⟩, explains_refused hl hi⟩, .inl rfl⟩
      · obtain ⟨sel', hs, hm⟩ := hsu d₁ hd
        exact ⟨sel', ⟨⟨_, rfl, hs⟩, explains_cut hl hi hm⟩, hm⟩

theorem run_settled {es : List Event} (hr : Runs file l es file' l')
    (hc : ∀ e ∈ es, e.call.WellTyped) (h : Settled file l sel) :
    ∃ sel', Settled file' l' sel' ∧ Succession sel sel' := by
  induction hr generalizing sel with
  | nil file l => exact ⟨sel, h, .refl⟩
  | cons hs _ ih =>
    obtain ⟨sel₁, h₁, hm⟩ := step_settled hs (hc _ mem_cons_self) h
    obtain ⟨sel₂, h₂, ho⟩ := ih (fun e he => hc e (mem_cons_of_mem _ he)) h₁
    exact ⟨sel₂, h₂, hm.succession.trans ho⟩

def newFile : RootFile := quiet fun _ => ByteFields.zeros rootSlotBytes

theorem new_settled : Settled newFile ⟨none, []⟩ none :=
  ⟨⟨_, rfl, ⟨rfl, magicSound_blank, checksumBad_zeros⟩⟩, rfl⟩

/-- `select_root` returns this root on the file, and leaves the file as it is. -/
def Selected (file : RootFile) (sel : Option Superblock) : Prop :=
  match sel with
  | none => (selectRoot.run).run ⟨file, none⟩ = (.ok .empty, ⟨file, none⟩)
  | some r => ∃ slot mirrored,
    (selectRoot.run).run ⟨file, none⟩ = (.ok (.selected r slot mirrored), ⟨file, none⟩)

theorem Settled.selected (h : Settled file l sel) : Selected file sel := by
  obtain ⟨⟨d, rfl, hs⟩, -⟩ := h
  have hsp := (selectRoot_spec hs : Issues True _ _ _ _) none fun _ => rfl
  rcases hr : (selectRoot.run).run ⟨quiet d, none⟩ with ⟨e | x, ⟨file, budget⟩⟩
  · simp only [Meets, hr] at hsp
    exact absurd trivial hsp.2.1
  simp only [Meets, hr] at hsp
  obtain ⟨hb, rfl, hx⟩ := hsp
  rw [hb trivial] at hr
  rcases hx with ⟨rfl, rfl, -⟩ | ⟨r, s, mirrored, rfl, rfl, -⟩
  · exact hr
  · exact ⟨s, mirrored, hr⟩

/-- The root a caller publishes from: the selected one, or `genesis` for a new group. -/
def Current (sel : Option Superblock) (previous : Superblock) : Prop :=
  sel = some previous ∨
    sel = none ∧ ∃ groupId, ByteFields.Fits 16 groupId ∧ previous = Superblock.genesis groupId

structure Publishable (previous next : Superblock) : Prop where
  successor : isSuccessor previous next
  ok : next.invariantViolation = none
  typed : Typed next
  garbage : previous.garbage ⊆ next.garbage

/-- Publishing `next` from `previous` succeeds, and `next` is then selected from both slots. -/
def Succeeds (file : RootFile) (previous next : Superblock) : Prop :=
  ∃ file', ((publishRoot previous next).run).run ⟨file, none⟩ = (.ok (), ⟨file', none⟩) ∧
    (selectRoot.run).run ⟨file', none⟩ = (.ok (.selected next .a true), ⟨file', none⟩)

theorem select_mirrored (hg : Good r) :
    (selectRoot.run).run ⟨quiet fun _ => slotImage r, none⟩ =
      (.ok (.selected r .a true), ⟨quiet fun _ => slotImage r, none⟩) := by
  have hx : selectRootImages (slotImage r) (slotImage r) = .ok (.selected r .a true) := by
    simp only [selectRootImages, hg.decode, bind, Except.bind]
    exact select_same r
  have hr : (selectRoot.run).run ⟨quiet fun _ => slotImage r, none⟩ =
      ((selectRootImages (slotImage r) (slotImage r)).mapError rejected,
        (⟨quiet fun _ => slotImage r, none⟩ : RootPublication.Group)) := rfl
  rw [hr, hx]
  rfl

theorem Settled.next_succeeds (h : Settled file l sel)
    (hc : Current sel old) (hp : Publishable old new) : Succeeds file old new := by
  obtain ⟨⟨d, rfl, hsh⟩, -⟩ := h
  have hu : Unpublished old := by
    intro hz
    rcases hc with rfl | ⟨-, g, -, rfl⟩
    · obtain ⟨slot, hh⟩ := hsh
      exact absurd hz (invariants_of_ok hh.good.ok).published
    · rfl
  have hf : Follows sel old new := by
    refine ⟨hp.successor, ?_, hp.ok⟩
    rcases hc with hs | ⟨hs, g, -, rfl⟩
    · exact .inl hs
    · exact .inr ⟨hs, rfl⟩
  have hsp := (publishRoot_spec hsh hp.typed hu : Issues True _ _ _ _) none fun _ => rfl
  rcases hr : ((publishRoot old new).run).run ⟨quiet d, none⟩ with
    ⟨e | u, ⟨file, budget⟩⟩
  · simp only [Meets, hr] at hsp
    rcases hsp with ⟨-, -, hsu⟩ | ⟨-, -, hn⟩ | ⟨-, hst, -⟩
    · exact absurd hp.garbage hsu
    · exact absurd hf hn
    · exact absurd trivial hst
  simp only [Meets, hr] at hsp
  obtain ⟨hb, -, hg, rfl⟩ := hsp
  rw [hb trivial] at hr
  exact ⟨_, hr, select_mirrored hg⟩

theorem one_fits : ByteFields.Fits 8 1 := by decide

theorem genesis_typed (h : ByteFields.Fits 16 gid) : Typed (Superblock.genesis gid) where
  generation := fits_zero 8
  group := h
  nextSegment := one_fits
  lastSegment := fits_zero 8
  sealed := nofun
  nextDirectory := one_fits
  lastDirectory := fits_zero 8
  directory := nofun
  garbage := nofun
  compaction := {
    cycle := fits_zero 8, level := fits_zero 1, cutoffSegment := fits_zero 8,
    cutoffArena := fits_zero 8, baselineBytes := fits_zero 8, baselineFiles := fits_zero 8,
    cursor := ⟨fits_zero 1, fits_zero 2, fits_zero 2, ByteFields.length_zeros _⟩,
    remaining := fits_zero 8, source := nofun }

def bumped (s : Superblock) : Superblock := { s with generation := s.generation + 1 }

theorem bumped_typed (ht : Typed s) (hl : s.generation < maxU64) : Typed (bumped s) := by
  refine { ht with generation := ?_ }
  simp only [bumped, ByteFields.Fits, maxU64] at hl ⊢
  omega

theorem bumped_successor (hl : s.generation < maxU64) : isSuccessor s (bumped s) := by
  have hd : directorySuccessor s.directory s.directory = true := by
    cases hc : s.directory with
    | none => rfl
    | some c => simp [directorySuccessor]
  have hk : compactionSuccessor s (bumped s) = true := by
    simp [compactionSuccessor, bumped]
  have hle : s.generation + 1 ≤ maxU64 := hl
  simp only [isSuccessor, hk]
  simp [bumped, hd, hle]

theorem bumped_ok (h : s.generation = 0 ∨ s.invariantViolation = none)
    (h1 : s.generation = 0 → ({ s with generation := 1 } : Superblock).invariantViolation = none) :
    (bumped s).invariantViolation = none := by
  by_cases hz : s.generation = 0
  · have hb : bumped s = { s with generation := 1 } := by rw [bumped, hz]
    rw [hb]; exact h1 hz
  have hs : s.invariantViolation = none := h.resolve_left hz
  simp only [Superblock.invariantViolation, if_neg hz] at hs
  exact hs

theorem first_ok (gid : ℕ) : (bumped (Superblock.genesis gid)).invariantViolation = none := by
  have hz : ByteFields.isZero (ByteFields.zeros maxCursorBytes) = true :=
    ByteFields.isZero_zeros _
  simp [bumped, Superblock.genesis, Superblock.invariantViolation, Superblock.sealedId,
    Superblock.directoryInvariantViolation, Superblock.compactionInvariantViolation,
    CompactionRecord.genesis, CompactionCursor.none, CompactionCursor.violation,
    CompactionCursor.shape, CompactionCursor.usedBytes, cursorNone, cursorOrdinal,
    Superblock.evacuationSourceValid, Superblock.compactionRecordInvalid,
    CompactionRecord.progressFree, CompactionCursor.isNone, maxU64, hz]

theorem bumped_publishable (h : Settled file l sel) (hc : Current sel prev)
    (hl : prev.generation < maxU64) :
    prev.successor = .ok (bumped prev) ∧ Publishable prev (bumped prev) := by
  obtain ⟨⟨d, -, hs⟩, -⟩ := h
  refine ⟨if_neg (by omega), bumped_successor hl, ?_, ?_, fun _ hf => hf⟩
  · rcases hc with rfl | ⟨-, g, -, rfl⟩
    · obtain ⟨slot, hh⟩ := hs
      have ho := hh.good.ok
      exact bumped_ok (.inr ho) fun hz => absurd hz (invariants_of_ok ho).published
    · exact first_ok g
  rcases hc with rfl | ⟨-, g, hg, rfl⟩
  · obtain ⟨slot, hh⟩ := hs
    exact bumped_typed hh.good.typed hl
  · exact bumped_typed (genesis_typed hg) hl

/-- A first publication interrupted in its second write, then completed from the reopened
root, and a bump of it interrupted in its first write. -/
def sampleStart : List Event :=
  [.cut (.publishRoot (Superblock.genesis 7) (bumped (Superblock.genesis 7))) 4,
    .returned .selectRoot]

def sampleRest : List Event :=
  [.returned (.repairMirror (bumped (Superblock.genesis 7)) .b),
    .cut (.publishRoot (bumped (Superblock.genesis 7)) (bumped (bumped (Superblock.genesis 7)))) 2]

theorem sample_typed (n : ℕ) (h : n < maxU64) :
    Typed ({ Superblock.genesis 7 with generation := n + 1 } : Superblock) := by
  refine { genesis_typed (show ByteFields.Fits 16 7 by decide) with generation := ?_ }
  simp only [ByteFields.Fits, maxU64] at h ⊢
  omega

/-- A valid root is read back from its slot image, so no other valid root has that image. -/
theorem slot_images_identify (hs : Good s) (ht : Good t) :
    decodeSlot (slotImage s) = .ok (.valid s) ∧ (slotImage s = slotImage t → s = t) := by
  refine ⟨hs.decode, fun h => ?_⟩
  have hd := hs.decode
  rw [h, ht.decode] at hd
  cases hd
  rfl

section Sample

def committedDirectory : DirectoryRoot Digest := ⟨7, 5, some ⟨3, 2, 11⟩, 2, 40⟩

def packedRow : CompactionCursor :=
  ⟨cursorRow, 1, 2, [116, 1, 2] ++ ByteFields.zeros (maxCursorBytes - 3)⟩

/-- In the packing phase, with a sealed segment, a commit and two files awaiting unlink. -/
def packingRoot : Superblock where
  generation := 9
  groupId := 7
  nextSegmentId := 4
  lastSegmentId := 3
  sealed := some ⟨2, segmentBytes, 4⟩
  nextDirectoryId := 4
  lastDirectoryId := 3
  directory := some ⟨committedDirectory, ⟨⟨3, segmentBytes⟩, 5, 13⟩⟩
  garbage := [⟨.segment, 1⟩, ⟨.directory, 1⟩]
  compaction := ⟨1, .packing, 1, 2, 2, 100, 3, packedRow, 5, none⟩

/-- Evacuation has come to entry 17 of the committed directory. -/
def evacuatingRoot : Superblock :=
  { packingRoot with
    garbage := []
    compaction := ⟨1, .evacuating, 0, 2, 2, 100, 3, CompactionCursor.atOrdinal 17, 0,
      some committedDirectory⟩ }

theorem committed_typed : RootTyped committedDirectory := by
  refine ⟨by decide, by decide, by decide, by decide, ?_⟩
  rintro p ⟨⟩
  exact ⟨by decide, by decide, by decide⟩

theorem packing_good : Good packingRoot := by
  refine ⟨?_, by decide +kernel, nofun⟩
  refine ⟨by decide, by decide, by decide, by decide, ?_, by decide, by decide, ?_, by decide,
    by decide, by decide, by decide, by decide, by decide, by decide,
    ⟨by decide, by decide, by decide, by decide +kernel⟩, by decide, nofun⟩
  · rintro x ⟨⟩
    exact ⟨by decide, by decide, by decide⟩
  · rintro c ⟨⟩
    exact ⟨committed_typed, by decide, by decide, by decide, by decide⟩

theorem evacuating_good : Good evacuatingRoot := by
  refine ⟨?_, by decide +kernel, ?_⟩
  · refine { packing_good.typed with garbage := nofun, compaction := ?_ }
    refine ⟨by decide, by decide, by decide, by decide, by decide, by decide,
      ⟨by decide, by decide, by decide, by decide +kernel⟩, by decide, ?_⟩
    rintro x ⟨⟩
    exact committed_typed
  · rintro x ⟨⟩
    decide

theorem slot_images_identify_compaction :
    decodeSlot (slotImage packingRoot) = .ok (.valid packingRoot) ∧
    decodeSlot (slotImage evacuatingRoot) = .ok (.valid evacuatingRoot) ∧
    slotImage packingRoot ≠ slotImage evacuatingRoot := by
  obtain ⟨hp, hne⟩ := slot_images_identify packing_good evacuating_good
  exact ⟨hp, (slot_images_identify evacuating_good packing_good).1, fun h => nomatch hne h⟩

end Sample

end RootRun
