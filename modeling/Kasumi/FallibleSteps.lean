import Mathlib

/-! Inversion of computations that may stop with an error: what must have happened for a
sequence of steps to succeed, or to fail. -/
namespace FallibleSteps

open List

variable {ε α β : Type} {x : Except ε α} {f : α → Except ε β} {a : α} {e : ε} {l : List α}

theorem bind_ok (h : (x >>= f) = .ok b) : ∃ a, x = .ok a ∧ f a = .ok b := by
  cases x with
  | error e => cases h
  | ok a => exact ⟨a, rfl, h⟩

theorem then_ok {x : Except ε Unit} {f : Unit → Except ε β} (h : (x >>= f) = .ok b) :
    f () = .ok b :=
  (bind_ok h).elim fun _ h => h.2

theorem ok_bind (h : x = .ok a) : (x >>= f) = f a := by
  rw [h]
  rfl

theorem bind_of_error (h : x = .error e) : (x >>= f) = .error e := by
  rw [h]
  rfl

theorem bind_error (h : (x >>= f) = .error e) : x = .error e ∨ ∃ a, x = .ok a ∧ f a = .error e := by
  cases x with
  | error e' =>
    have : e' = e := by injection h
    exact .inl (this ▸ rfl)
  | ok a => exact .inr ⟨a, rfl, h⟩

def check (condition : Bool) (e : ε) : Except ε Unit :=
  if condition then .ok () else .error e

def demand (e : ε) : Option α → Except ε α
  | some a => .ok a
  | none => .error e

theorem check_ok (h : check c e = .ok u) : c = true := by
  cases c with
  | true => rfl
  | false => cases h

theorem check_true (h : c = true) : check c e = .ok () := by
  rw [h]
  rfl

theorem demand_ok (h : demand e o = .ok a) : o = some a := by
  cases o with
  | none => cases h
  | some b =>
    cases h
    rfl

theorem demand_some (h : o = some a) : demand e o = .ok a := by
  rw [h]
  rfl

theorem guard_ok [Decidable p]
    (h : (if p then (throw e : Except ε β) >>= k else x) = .ok a) : ¬ p ∧ x = .ok a := by
  split at h
  · cases h
  · exact ⟨‹_›, h⟩

theorem forM_ok {g : α → Except ε Unit} (h : ∀ a ∈ l, g a = .ok ()) : l.forM g = .ok () := by
  induction l with
  | nil => rfl
  | cons a l ih =>
    have hr := ih fun b hb => h b (mem_cons_of_mem _ hb)
    have hs : (a :: l).forM g = (g a >>= fun _ => l.forM g) := rfl
    rw [hs, ok_bind (h a mem_cons_self), hr]

theorem mapM_ok {g : α → Except ε β} (h : ∀ a ∈ l, g a = .ok (r a)) : l.mapM g = .ok (l.map r) := by
  induction l with
  | nil => rfl
  | cons a l ih =>
    have hr := ih fun b hb => h b (mem_cons_of_mem _ hb)
    rw [mapM_cons, ok_bind (h a mem_cons_self), ok_bind hr]
    rfl

end FallibleSteps
