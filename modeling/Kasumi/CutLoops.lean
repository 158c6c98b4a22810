import Kasumi.FallibleSteps

/-! Loops that make one durable step per turn and may be cut off after any of them. A turn
either finds nothing left to do or leaves the state after one more durable step. -/
namespace CutLoops

variable {ε σ : Type}

/-- At most the given number of turns; the flag says whether the loop came to its end. -/
def run (turn : σ → Except ε (Option σ)) : ℕ → σ → Except ε (σ × Bool)
  | 0, s => .ok (s, false)
  | n + 1, s => do
    match ← turn s with
    | none => .ok (s, true)
    | some s' => run turn n s'

/-- An invariant that every turn keeps, with a measure that every turn lowers: the loop never
stops with an error, wherever it is cut, and comes to its end when it is not. -/
theorem run_spec (turn : σ → Except ε (Option σ)) (I Done : σ → Prop) (size : σ → ℕ)
    (ht : ∀ s, I s → (turn s = .ok none ∧ Done s) ∨ ∃ s', turn s = .ok (some s') ∧ I s' ∧
    size s' < size s) (n : ℕ) : ∀ s, I s → ∃ s' fin, run turn n s = .ok (s', fin) ∧ I s' ∧
    (fin = true → Done s') ∧ (size s < n → fin = true) := by
  induction n with
  | zero =>
    intro s hs
    exact ⟨s, false, rfl, hs, by simp, by omega⟩
  | succ n ih =>
    intro s hs
    rcases ht s hs with ⟨hn, hdo⟩ | ⟨next, hne, hk, hl⟩
    · refine ⟨s, true, ?_, hs, fun _ => hdo, fun _ => rfl⟩
      rw [run, hn]
      rfl
    obtain ⟨s', fin, hr, hi, hd, hm⟩ := ih next hk
    refine ⟨s', fin, ?_, hi, hd, fun hlt => hm (by omega)⟩
    rw [run, hne]
    exact hr

theorem run_once
    (hf : turn (s, false) = .ok (some (s', true))) (hl : turn (s', true) = .ok none) (n : ℕ) :
    ∃ t fin, run turn n (s, false) = .ok (t, fin) ∧ (t = (s, false) ∧ fin = false ∨
    t = (s', true)) ∧ (1 < n → fin = true) := by
  obtain ⟨t, fin, hr, hk, hd, hs⟩ := run_spec turn
    (fun t => t = (s, false) ∨ t = (s', true)) (fun t => t = (s', true))
    (fun t => if t.2 then 0 else 1)
    (by
      rintro t (rfl | rfl)
      · exact .inr ⟨(s', true), hf, Or.inr rfl, Nat.zero_lt_one⟩
      · exact .inl ⟨hl, rfl⟩)
    n (s, false) (Or.inl rfl)
  refine ⟨t, fin, hr, ?_, fun hn => hs hn⟩
  cases fin with
  | true => exact .inr (hd rfl)
  | false =>
    rcases hk with h | h
    · exact .inl ⟨h, rfl⟩
    · exact .inr h

end CutLoops
