import Mathlib

/-! Programs that call a shared service and run side by side. A program is the tree of its
calls, so between two of its calls every other program, and the service itself, may move the
state. A discipline names what all of them keep: an invariant, the order in which the state
grows, and the calls a state permits. -/
namespace SharedCalls

open List

inductive Program {Call : Type} (Reply : Call → Type) (ε α : Type) where
  | done (result : Except ε α)
  | call (c : Call) (next : Reply c → Program Reply ε α)

variable {Call : Type} {Reply : Call → Type} {ε α β S Op : Type}

namespace Program

def bind (p : Program Reply ε α) (f : α → Program Reply ε β) : Program Reply ε β :=
  match p with
  | done (.ok a) => f a
  | done (.error e) => done (.error e)
  | call c next => call c fun r => (next r).bind f

instance : Monad (Program Reply ε) where
  pure a := done (.ok a)
  bind := bind

instance : MonadLift (Except ε) (Program Reply ε) where
  monadLift r := done r

def ask (c : Call) : Program Reply ε (Reply c) := call c fun r => done (.ok r)

def mapError (f : ε → ε) : Program Reply ε α → Program Reply ε α
  | done (.ok a) => done (.ok a)
  | done (.error e) => done (.error (f e))
  | call c next => call c fun r => (next r).mapError f

/-- The result when nothing else moves and every call is answered by `answer`. -/
def eval (answer : (c : Call) → Reply c) : Program Reply ε α → Except ε α
  | done r => r
  | call c next => (next (answer c)).eval answer

def run (respond : S → (c : Call) → S × Reply c) : Program Reply ε α → S → S × Except ε α
  | done r, s => (s, r)
  | call c next, s => (next (respond s c).2).run respond (respond s c).1

end Program

/-- How a service answers one call, with the state it leaves, and what it does on its own. -/
structure Service (Reply : Call → Type) (S : Type) where
  answers : S → (c : Call) → S → Reply c → Prop
  drifts : S → S → Prop

structure Discipline (V : Service Reply S) where
  inv : S → Prop
  grows : S → S → Prop
  permits : S → Call → Prop
  refl : ∀ s, grows s s
  trans : ∀ {s t u}, grows s t → grows t u → grows s u
  answered : ∀ {s t c r}, inv s → permits s c → V.answers s c t r → inv t ∧ grows s t
  drifted : ∀ {s t}, inv s → V.drifts s t → inv t ∧ grows s t

variable {V : Service Reply S}

/-- A result, when there is one, satisfies `Q`; nothing is said of errors. -/
def Yields (Q : S → α → Prop) (t : S) (r : Except ε α) : Prop := ∀ a, r = .ok a → Q t a

/-- From `s` on, however the state grows between the calls, every call of the program is
permitted and its result satisfies `post` from the moment it is returned. -/
def Safe (D : Discipline V) (post : S → Except ε α → Prop) : Program Reply ε α → S → Prop
  | .done r, s => ∀ t, D.grows s t → D.inv t → post t r
  | .call c next, s => ∀ t, D.grows s t → D.inv t →
      D.permits t c ∧ ∀ t' r, V.answers t c t' r → Safe D post (next r) t'

namespace Safe

variable {D : Discipline V} {post : S → Except ε α → Prop} {p : Program Reply ε α} {s t : S}
  {f : α → Program Reply ε β}

theorem later (h : Safe D post p s) (hs : D.grows s t) : Safe D post p t := by
  cases p with
  | done r => exact fun u hu hi => h u (D.trans hs hu) hi
  | call c next => exact fun u hu hi => h u (D.trans hs hu) hi

theorem of_later (h : ∀ t, D.grows s t → D.inv t → Safe D post p t) : Safe D post p s := by
  cases p with
  | done r => exact fun t ht hi => h t ht hi t (D.refl t) hi
  | call c next => exact fun t ht hi => h t ht hi t (D.refl t) hi

theorem weaken (h : Safe D mid p s)
    (hpo : ∀ t r, D.grows s t → D.inv t → mid t r → post t r) : Safe D post p s := by
  induction p generalizing s with
  | done r => exact fun t ht hi => hpo t r ht hi (h t ht hi)
  | call c next ih =>
    intro t ht hi
    obtain ⟨hp, hn⟩ := h t ht hi
    refine ⟨hp, fun t' r hr => ih r (hn t' r hr) fun u r' hu hiu => ?_⟩
    exact hpo u r' (D.trans ht (D.trans (D.answered hi hp hr).2 hu)) hiu

theorem bind {post : S → Except ε β → Prop} (h : Safe D mid p s)
    (ho : ∀ t a, D.grows s t → D.inv t → mid t (.ok a) → Safe D post (f a) t)
    (he : ∀ t e, D.grows s t → D.inv t → mid t (.error e) → post t (.error e)) :
    Safe D post (p >>= f) s := by
  induction p generalizing s with
  | done r =>
    cases r with
    | ok a => exact of_later fun t ht hi => ho t a ht hi (h t ht hi)
    | error e => exact fun t ht hi => he t e ht hi (h t ht hi)
  | call c next ih =>
    intro t ht hi
    obtain ⟨hp, hn⟩ := h t ht hi
    refine ⟨hp, fun t' r hr => ?_⟩
    have hg := D.trans ht (D.answered hi hp hr).2
    exact ih r (hn t' r hr) (fun u a hu => ho u a (D.trans hg hu))
      fun u e hu => he u e (D.trans hg hu)

theorem lift_ok {post : S → Except ε β → Prop} {x : Except ε α} (hx : x = .ok a)
    (h : Safe D post (f a) s) : Safe D post ((liftM x : Program Reply ε α) >>= f) s := by
  rw [hx]
  exact h

theorem andThen (h : Safe D (Yields Q) p s)
    (hf : ∀ t a, D.grows s t → D.inv t → Q t a → Safe D (Yields R) (f a) t) :
    Safe D (Yields R) (p >>= f) s :=
  h.bind (fun t a ht hi hq => hf t a ht hi (hq a rfl)) fun _ _ _ _ _ _ hb => nomatch hb

theorem lift_andThen {x : Except ε α} (h : ∀ a, x = .ok a → Safe D (Yields R) (f a) s) :
    Safe D (Yields R) ((liftM x : Program Reply ε α) >>= f) s := by
  cases x with
  | ok a => exact h a rfl
  | error e => exact fun _ _ _ _ hb => nomatch hb

theorem mapError {f : ε → ε} (h : Safe D (Yields Q) p s) : Safe D (Yields Q) (p.mapError f) s := by
  induction p generalizing s with
  | done r =>
    cases r with
    | ok a => exact h
    | error e => exact fun _ _ _ _ hb => nomatch hb
  | call c next ih =>
    intro t ht hi
    obtain ⟨hp, hn⟩ := h t ht hi
    exact ⟨hp, fun t' r hr => ih r (hn t' r hr)⟩

theorem ask (h : ∀ t, D.grows s t → D.inv t → D.permits t c) :
    Safe D (Yields fun _ _ => True) (.ask c : Program Reply ε (Reply c)) s :=
  fun t ht hi => ⟨h t ht hi, fun _ _ _ _ _ _ _ _ => trivial⟩

theorem eval (h : Safe D post p s) (hi : D.inv s) (answer : (c : Call) → Reply c)
    (ha : ∀ c, D.permits s c → V.answers s c s (answer c)) : post s (p.eval answer) := by
  induction p with
  | done r => exact h s (D.refl s) hi
  | call c next ih =>
    obtain ⟨hp, hn⟩ := h s (D.refl s) hi
    exact ih _ (hn s _ (ha c hp))

end Safe

/-- The state of the service and every operation begun so far, with what is left of it. -/
structure System (Reply : Call → Type) (ε α S Op : Type) where
  state : S
  running : List (Op × Program Reply ε α)

variable (V) in
/-- Operations begin at any time; one of them makes its next call, or the service moves. -/
inductive Step (start : Op → Program Reply ε α) :
    System Reply ε α S Op → System Reply ε α S Op → Prop where
  | begins (w : System Reply ε α S Op) (op : Op) :
      Step start w ⟨w.state, w.running ++ [(op, start op)]⟩
  | calls (w : System Reply ε α S Op) (i : ℕ) (op : Op) (c : Call)
      (next : Reply c → Program Reply ε α) (t : S) (r : Reply c)
      (running : w.running[i]? = some (op, .call c next)) (answer : V.answers w.state c t r) :
      Step start w ⟨t, w.running.set i (op, next r)⟩
  | drifts (w : System Reply ε α S Op) (t : S) (drift : V.drifts w.state t) :
      Step start w ⟨t, w.running⟩

variable (V) in
def Reaches (start : Op → Program Reply ε α) :
    System Reply ε α S Op → System Reply ε α S Op → Prop :=
  Relation.ReflTransGen (Step V start)

def AllSafe (D : Discipline V) (post : ℕ → Op → S → Except ε α → Prop)
    (w : System Reply ε α S Op) : Prop :=
  ∀ i op p, w.running[i]? = some (op, p) → Safe D (post i op) p w.state

section Run

variable {D : Discipline V} {post : ℕ → Op → S → Except ε α → Prop}
  {start : Op → Program Reply ε α} {w v : System Reply ε α S Op}

theorem step_safe (hst : Step V start w v) (hi : D.inv w.state) (hsa : AllSafe D post w)
    (hs : ∀ op, Safe D (post w.running.length op) (start op) w.state) : D.inv v.state ∧
    D.grows w.state v.state ∧ w.running.length ≤ v.running.length ∧ AllSafe D post v := by
  cases hst with
  | begins op =>
    refine ⟨hi, D.refl _, by simp, fun i op' p hp => ?_⟩
    by_cases hl : i < w.running.length
    · rw [getElem?_append_left hl] at hp
      exact hsa i op' p hp
    rw [getElem?_append_right (by omega)] at hp
    have hz : i - w.running.length = 0 := by
      by_contra hne
      rw [getElem?_eq_none (by simp; omega)] at hp
      cases hp
    rw [hz] at hp
    obtain ⟨rfl, rfl⟩ := Prod.mk.inj (Option.some.inj hp)
    have he : i = w.running.length := by omega
    exact he ▸ hs op
  | calls i op c next t r hr ha =>
    obtain ⟨hpe, hn⟩ := hsa i op _ hr w.state (D.refl _) hi
    obtain ⟨hit, hg⟩ := D.answered hi hpe ha
    refine ⟨hit, hg, by simp, fun j op' p hp => ?_⟩
    by_cases hij : j = i
    · subst hij
      rw [getElem?_set_self' , hr] at hp
      obtain ⟨rfl, rfl⟩ := Prod.mk.inj (Option.some.inj hp)
      exact hn t r ha
    · rw [getElem?_set_ne (Ne.symm hij)] at hp
      exact (hsa j op' p hp).later hg
  | drifts t hd =>
    obtain ⟨hit, hg⟩ := D.drifted hi hd
    exact ⟨hit, hg, Nat.le_refl _, fun i op p hp => (hsa i op p hp).later hg⟩

/-- The run of a system: operations begun later are safe from whatever state they find. -/
theorem run_safe (hr : Reaches V start w v) (hi : D.inv w.state) (hsafe : AllSafe D post w)
    (hs : ∀ n op t, w.running.length ≤ n → D.grows w.state t → D.inv t →
    Safe D (post n op) (start op) t) : D.inv v.state ∧ D.grows w.state v.state ∧
    w.running.length ≤ v.running.length ∧ AllSafe D post v := by
  induction hr with
  | refl => exact ⟨hi, D.refl _, Nat.le_refl _, hsafe⟩
  | tail _ hst ih =>
    obtain ⟨hiu, hg, hl, hsa⟩ := ih
    obtain ⟨hiv, hgr, hle, hsaf⟩ := step_safe hst hiu hsa
      fun op => hs _ op _ hl hg hiu
    exact ⟨hiv, D.trans hg hgr, Nat.le_trans hl hle, hsaf⟩

theorem reaches_run (hr : ∀ s c, V.answers s c (respond s c).1 (respond s c).2) (op : Op)
    (before : List (Op × Program Reply ε α)) (p : Program Reply ε α) (s : S) :
    Reaches V start ⟨s, before ++ [(op, p)]⟩
      ⟨(p.run respond s).1, before ++ [(op, .done (p.run respond s).2)]⟩ := by
  induction p generalizing s with
  | done r => exact Relation.ReflTransGen.refl
  | call c next ih =>
    have hp : (before ++ [(op, Program.call c next)])[before.length]? =
        some (op, .call c next) := by simp
    have hs : Step V start ⟨s, before ++ [(op, .call c next)]⟩ _ :=
      Step.calls _ before.length op c next _ _ hp (hr s c)
    rw [set_append_right _ _ (Nat.le_refl _), Nat.sub_self] at hs
    exact Relation.ReflTransGen.head hs (ih _ _)

end Run

end SharedCalls
