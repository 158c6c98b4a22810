import Kasumi.SegmentRecover
import Kasumi.SegmentWriter

/-! What the writer keeps true of the disk at every backend call: the files hold a log that
replay reads, whichever call the power fails in. -/
namespace SegmentDurable

open ByteFields FallibleState SegmentRecords List
open SegmentWriter
open DirectoryPages (CoreError)
open RootPublication (Failure rejected)

/-! ## Rules for programs of the writer -/

section Rules

variable {α β : Type} {d : Disk} {w : Writer} {E : Failure → Disk → Writer → Prop}
  {Q : α → Disk → Writer → Prop} {x : LogM α}

/-- Wherever the power fails, the program returns with `Q` or stops with `E`. -/
def Does (d : Disk) (w : Writer) (x : LogM α) (E : Failure → Disk → Writer → Prop)
    (Q : α → Disk → Writer → Prop) : Prop :=
  ∀ fault, Meets ⟨d, w, fault⟩ x (fun e t => E e t.disk t.writer) (fun a t => Q a t.disk t.writer)

theorem does_pure (h : Q a d w) : Does d w (pure a) E Q := fun _ => meets_pure h

theorem does_throw (h : E e d w) : Does d w (throw e) E Q := fun _ => meets_throw h

theorem does_bind {x : LogM β} {f : β → LogM α}
    (hx : Does d w x E P) (hf : ∀ b d' w', P b d' w' → Does d' w' (f b) E Q) :
    Does d w (x >>= f) E Q := fun fault =>
  meets_then (hx fault) fun b t hb => hf b t.disk t.writer hb t.fault

theorem does_then {x : LogM β} {f : β → LogM α}
    (h : Does d w x E fun b d' w' => Does d' w' (f b) E Q) : Does d w (x >>= f) E Q :=
  does_bind h fun _ _ _ hb => hb

section

variable (h : Does d w x E Q)

include h

theorem does_mono (he : ∀ e d w, E e d w → E' e d w) (hq : ∀ a d w, Q a d w → Q' a d w) :
    Does d w x E' Q' := fun fault =>
  meets_mono (h fault) (fun _ _ => he _ _ _) (fun _ _ => hq _ _ _)

theorem does_and (h' : Does d w x E' Q') :
    Does d w x (fun e d w => E e d w ∧ E' e d w) (fun a d w => Q a d w ∧ Q' a d w) := fun fault =>
  meets_and (h fault) (h' fault)

theorem Does.ok (hx : x ⟨d, w, fault⟩ = (.ok a, t)) : Q a t.disk t.writer := by
  have hm := h fault
  unfold Meets at hm
  simp only [ExceptT.run, StateT.run, hx] at hm
  exact hm

theorem Does.error (hx : x ⟨d, w, fault⟩ = (.error e, t)) : E e t.disk t.writer := by
  have hm := h fault
  unfold Meets at hm
  simp only [ExceptT.run, StateT.run, hx] at hm
  exact hm

end

theorem does_get {f : LogState → LogM α} (h : ∀ fault, Does d w (f ⟨d, w, fault⟩) E Q) :
    Does d w (get >>= f) E Q := fun fault => h fault fault

theorem does_modify {g : Writer → Writer} {Q : Unit → Disk → Writer → Prop} (h : Q () d (g w)) :
    Does d w (modifyWriter g) E Q := fun _ => h

theorem does_call {Q : Unit → Disk → Writer → Prop}
    (h0 : E (rejected .io) d w) (h1 : E (rejected .io) (effect d) w) (hq : Q () (effect d) w) :
    Does d w (backendCall effect) E Q := by
  intro fault
  rcases fault with _ | ⟨_ | n, late⟩
  · exact hq
  · cases late
    · exact h0
    · exact h1
  · exact hq

theorem does_refuse {x : Except CoreError α} (he : ∀ e, x = .error e → E (rejected e) d w)
    (ho : ∀ a, x = .ok a → Q a d w) : Does d w (refuse x) E Q := by
  intro fault
  cases x with
  | error e => exact he e rfl
  | ok a => exact ho a rfl

theorem update_eq_put (h : d.files n = some file) : d.update n f = d.put n (f file) := by
  simp only [Disk.update, Disk.put]
  congr 1
  funext id
  by_cases hi : id = n
  · subst hi
    simp [h]
  · simp [hi]

theorem does_file {Q : Unit → Disk → Writer → Prop} (h : d.files n = some file)
    (h0 : E (rejected .io) d w) (h1 : E (rejected .io) (d.put n (f file)) w)
    (hq : Q () (d.put n (f file)) w) : Does d w (fileCall n f) E Q := by
  apply does_get
  intro fault
  have hn : ¬ d.files n = none := by rw [h]; exact nofun
  simp only [hn, if_false]
  apply does_call h0
  · rw [update_eq_put h]; exact h1
  · rw [update_eq_put h]; exact hq

theorem does_active {n : ℕ} {Q : ℕ → Disk → Writer → Prop} (h : w.active = some n) (hq : Q n d w) :
    Does d w activeSegment E Q := by
  apply does_get
  intro fault
  simp only [h]
  exact does_pure hq

theorem does_fencing (h : Does d w x (fun e d w => E e d { w with fenced := true }) Q) :
    Does d w (fencing x) E Q := by
  intro fault
  have hx := h fault
  unfold Meets at *
  simp only [fencing, ExceptT.run, StateT.run] at *
  rcases hr : x ⟨d, w, fault⟩ with ⟨_ | a, t⟩
  · rw [hr] at hx
    exact hx
  · rw [hr] at hx
    exact hx

theorem does_unknown {x : LogM Unit} {Q : Unit → Disk → Writer → Prop}
    (h : Does d w x (fun e d w => E { e with unknownCommit := true } d w) Q) :
    Does d w (unknownIo x) E Q := by
  intro fault
  have hx := h fault
  unfold Meets at *
  simp only [unknownIo, ExceptT.run, StateT.run] at *
  rcases hr : x ⟨d, w, fault⟩ with ⟨_ | a, t⟩
  · rw [hr] at hx
    exact hx
  · rw [hr] at hx
    exact hx

end Rules

/-! ## Staged bytes -/

/-- `d'` differs from `d` at most in the bytes of one file, which lie between `low` and `high`. -/
structure Extended (d : Disk) (n kept : ℕ) (low high : List Byte) (d' : Disk) : Prop where
  root : d'.root = d.root
  others : ∀ id, id ≠ n → d'.files id = d.files id
  file : ∃ bytes, d'.files n = some ⟨bytes, kept⟩ ∧ low <+: bytes ∧ bytes <+: high

/-- The file of the active segment and the staged bytes after it are `issued`. -/
structure Buffered (d : Disk) (w : Writer) (n kept : ℕ) (low issued : List Byte) : Prop where
  active : w.active = some n
  endAt : w.endAt = issued.length
  stageAt : w.stageAt + w.stage.length = w.endAt
  file : ∃ bytes, d.files n = some ⟨bytes, kept⟩ ∧ low <+: bytes ∧ bytes ++ w.stage = issued
  kept : kept ≤ low.length

section Staged

variable {d : Disk} {w : Writer} {n kept : ℕ} {low issued : List Byte}

theorem put_extended (hl : low <+: bs) (hh : bs <+: high) :
    Extended d n kept low high (d.put n ⟨bs, kept⟩) := by
  refine ⟨rfl, ?_, bs, ?_, hl, hh⟩
  · intro id hi
    simp [Disk.put, hi]
  · simp [Disk.put]

theorem Extended.trans {d'' : Disk} {mid : List Byte} (h : Extended d n kept low mid d')
    (h' : Extended d' n kept low high d'') : Extended d n kept low high d'' :=
  ⟨h'.root.trans h.root, fun id hi => (h'.others id hi).trans (h.others id hi), h'.file⟩

theorem Extended.mono {high' : List Byte} (h : Extended d n kept low high d') (hh : high <+: high') :
    Extended d n kept low high' d' := by
  obtain ⟨bs, hf, hl, hb⟩ := h.file
  exact ⟨h.root, h.others, bs, hf, hl, hb.trans hh⟩

theorem Buffered.extended (h : Buffered d w n kept low issued) :
    Extended d n kept low issued d := by
  obtain ⟨bs, hf, hl, hs⟩ := h.file
  exact ⟨rfl, fun _ _ => rfl, bs, hf, hl, ⟨w.stage, hs⟩⟩

theorem write_end (more : List Byte) (ho : off = bs.length) (hk : kept ≤
    bs.length) : (SegFile.mk bs kept).write off more = ⟨bs ++ more, kept⟩ := by
  subst ho
  simp [SegFile.write, hk]

def Restaged (w w' : Writer) : Prop :=
  w' = { w with stage := w'.stage, stageAt := w'.stageAt, endAt := w'.endAt }

theorem Restaged.trans {w w' : Writer} (h : Restaged w w') (h' : Restaged w' w'') :
    Restaged w w'' := by
  unfold Restaged at *
  rw [h', h]

theorem does_append {more : List Byte} {E : Failure → Disk → Writer → Prop}
    (hf : d.files n = some ⟨bs, kept⟩) (ho : off = bs.length)
    (hk : kept ≤ bs.length) (h0 : E (rejected .io) d w)
    (h1 : E (rejected .io) (d.put n ⟨bs ++ more, kept⟩) w)
    (hq : Q () (d.put n ⟨bs ++ more, kept⟩) w) : Does d w (writeFile n off more) E Q := by
  have hw := write_end more ho hk
  apply does_file hf h0
  · rw [hw]; exact h1
  · rw [hw]; exact hq

section

variable (h : Buffered d w n kept low issued)

include h

theorem does_flush : Does d w flush (fun _ d' _ => Extended d n
    kept low issued d') fun _ d' w' => Extended d n kept low issued d' ∧ Restaged w w' ∧ w'.stage =
    [] ∧ Buffered d' w' n kept low issued := by
  obtain ⟨bs, hf, hl, hs⟩ := h.file
  apply does_get
  intro fault
  by_cases he : w.stage = []
  · simp only [he, if_true]
    apply does_modify
    refine ⟨h.extended, rfl, he, h.active, h.endAt, ?_, h.file, h.kept⟩
    simp [he]
  simp only [he, if_false]
  have hle : bs.length + w.stage.length = issued.length := by
    rw [← hs, length_append]
  have ha : w.stageAt = bs.length := by
    have := h.stageAt
    have := h.endAt
    omega
  have hk : kept ≤ bs.length := h.kept.trans hl.length_le
  have hlo : low <+: issued := by
    rw [← hs]
    exact hl.trans (prefix_append _ _)
  have hex : Extended d n kept low issued (d.put n ⟨bs ++ w.stage, kept⟩) := by
    rw [hs]
    exact put_extended hlo prefix_rfl
  refine does_then (does_active h.active ?_)
  refine does_then (does_append hf ha hk h.extended hex ?_)
  apply does_modify
  refine ⟨hex, rfl, rfl, h.active, h.endAt, by simp, ⟨issued, ?_, hlo, by simp⟩, h.kept⟩
  simp [Disk.put, hs]

theorem does_makeRoom (len : ℕ) : Does d w (makeRoom len) (fun
    _ d' _ => Extended d n kept low issued d') fun _ d' w' => Extended d n kept low issued d' ∧
    Restaged w w' ∧ (len ≥ ioWindow → w'.stage = []) ∧ Buffered d' w' n kept low issued := by
  apply does_get
  intro fault
  by_cases hr : w.stage.length + len > ioWindow
  · simp only [hr, if_true]
    apply does_mono (does_flush h) (fun _ _ _ he => he)
    rintro _ d' w' ⟨hex, hre, hem, hb⟩
    exact ⟨hex, hre, fun _ => hem, hb⟩
  simp only [hr, if_false]
  apply does_pure
  refine ⟨h.extended, rfl, fun hl => ?_, h⟩
  apply eq_nil_of_length_eq_zero
  omega

theorem does_stage (more : List Byte) : Does d w (stage more)
    (fun _ d' _ => Extended d n kept low (issued ++ more) d') fun _ d' w' => Extended d n kept low
    (issued ++ more) d' ∧ Restaged w w' ∧ Buffered d' w' n kept low (issued ++ more) := by
  have hm := prefix_append issued more
  apply does_bind (does_mono (does_makeRoom h more.length) (fun _ _ _ he => he.mono hm)
    (fun _ _ _ hq => hq))
  rintro _ d1 w1 ⟨hex, hr, hem, hbu⟩
  obtain ⟨bs, hf, hl, hs⟩ := hbu.file
  by_cases hbi : more.length ≥ ioWindow
  · simp only [hbi, if_true]
    have hn := hem hbi
    have hb : bs = issued := by rw [← hs, hn, append_nil]
    subst hb
    have hk : kept ≤ bs.length := hbu.kept.trans hl.length_le
    have hp : Extended d1 n kept low (bs ++ more) (d1.put n ⟨bs ++ more, kept⟩) :=
      put_extended (hl.trans hm) prefix_rfl
    refine does_then (does_active hbu.active (does_get fun _ => ?_))
    refine does_then (does_append hf hbu.endAt hk ?_ ?_ (does_modify ?_))
    · exact hex.mono hm
    · exact hex.trans hp
    refine ⟨hex.trans hp, hr.trans rfl, hbu.active, ?_, ?_, ⟨bs ++ more, ?_, ?_, ?_⟩, hbu.kept⟩
    · simp [hbu.endAt]
    · simp [hn]
    · simp [Disk.put]
    · exact hl.trans hm
    · simp [hn]
  simp only [hbi, if_false]
  apply does_modify
  refine ⟨hex.mono hm, hr.trans rfl, hbu.active, ?_, ?_, ⟨bs, hf, hl, ?_⟩, hbu.kept⟩
  · simp [hbu.endAt]
  · simp [← hbu.stageAt, Nat.add_assoc]
  · simp [← hs]

end

end Staged

end SegmentDurable
