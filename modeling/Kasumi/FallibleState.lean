import Mathlib

/-! Programs that thread a state and may stop with an error. The state reached before an
error is kept: effects already issued are not undone by a later refusal. -/
namespace FallibleState

abbrev Prog (σ ε α : Type) := ExceptT ε (StateM σ) α

/-- From `s` the program returns a value meeting `Q` or stops with an error meeting `E`,
each together with the state reached. Termination is built in: programs are functions. -/
def Meets {σ ε α : Type} (s : σ) (x : Prog σ ε α) (E : ε → σ → Prop) (Q : α → σ → Prop) : Prop :=
  match (x.run).run s with
  | (.ok a, t) => Q a t
  | (.error e, t) => E e t

variable {σ ε α β : Type} {E : ε → σ → Prop} {x : Prog σ ε α}

theorem meets_pure (h : Q a s) : Meets s (pure a : Prog σ ε α) E Q := h

theorem meets_throw (h : E e s) : Meets s (throw e : Prog σ ε α) E Q := h

theorem meets_bind (h : Meets s x E fun b t => Meets t (f b) E Q) : Meets s (x >>= f) E Q := by
  unfold Meets at *
  simp only [ExceptT.run_bind, StateT.run_bind]
  rcases hx : (x.run).run s with ⟨_ | b, t⟩
  · rw [hx] at h
    exact h
  · rw [hx] at h
    exact h

theorem meets_mono (h : Meets s x E Q) (he : ∀ e t, E e t → E' e t) (hq : ∀ a t, Q a t → Q' a t) :
    Meets s x E' Q' := by
  unfold Meets at *
  rcases hx : (x.run).run s with ⟨_ | a, t⟩
  · rw [hx] at h; exact he _ _ h
  · rw [hx] at h; exact hq _ _ h

theorem meets_and (h : Meets s x E Q) (h' : Meets s x E' Q') :
    Meets s x (fun e t => E e t ∧ E' e t) (fun a t => Q a t ∧ Q' a t) := by
  unfold Meets at *
  rcases hx : (x.run).run s with ⟨_ | a, t⟩
  · rw [hx] at h h'
    exact ⟨h, h'⟩
  · rw [hx] at h h'
    exact ⟨h, h'⟩

theorem meets_then (hx : Meets s x E P)
    (hf : ∀ b t, P b t → Meets t (f b) E Q) : Meets s (x >>= f) E Q :=
  meets_bind (meets_mono hx (fun _ _ h => h) hf)

def check (x : Except ε α) : Prog σ ε α := ExceptT.mk (pure x)

theorem meets_check {x : Except ε α} (hx : x = .ok a) (h : Q a s) : Meets s (check x) E Q := by
  subst hx; exact h

theorem meets_check_cases {x : Except ε α} (ho : ∀ a, x = .ok a → Q a s)
    (he : ∀ e, x = .error e → E e s) : Meets s (check x) E Q := by
  cases hx : x with
  | ok a => exact ho a hx
  | error e => exact he e hx

theorem meets_get (h : Q s s) : Meets s (get : Prog σ ε σ) E Q := h

theorem meets_set (h : Q ⟨⟩ t) : Meets s (set t : Prog σ ε PUnit) E Q := h

theorem meets_modify (h : Q ⟨⟩ (f s)) : Meets s (modify f : Prog σ ε PUnit) E Q := h

theorem Meets.run (h : Meets s x E Q) (hr : (x.run).run s = (r, t)) : match r with
    | .ok a => Q a t
    | .error e => E e t := by
  unfold Meets at h
  rw [hr] at h
  cases r <;> exact h

end FallibleState
