import Mathlib

/-! A device of independently written slots whose writes stay volatile until a full
synchronization. A barrier only orders: what was written before it reaches the medium no
later than what is written after it. Writes between two barriers may be lost or torn
independently of each other. -/
namespace OrderedWrites

variable {S I : Type} [DecidableEq S]

inductive Op (S I : Type) where
  | write (slot : S) (image : I)
  | barrier

structure Device (S I : Type) where
  durable : S → I
  pending : List (Op S I)

def applyOp (d : S → I) : Op S I → S → I
  | .write s i => Function.update d s i
  | .barrier => d

namespace Device

def view (dev : Device S I) : S → I := dev.pending.foldl applyOp dev.durable

def quiet (d : S → I) : Device S I := ⟨d, []⟩

def write (dev : Device S I) (s : S) (i : I) : Device S I :=
  { dev with pending := dev.pending ++ [.write s i] }

def order (dev : Device S I) : Device S I := { dev with pending := dev.pending ++ [.barrier] }

def sync (dev : Device S I) : Device S I := quiet dev.view

@[simp] theorem view_quiet (d : S → I) : (quiet d).view = d := rfl

@[simp] theorem view_write (dev : Device S I) (s : S) (i : I) :
    (dev.write s i).view = Function.update dev.view s i := by
  simp [view, write, applyOp]

@[simp] theorem view_order (dev : Device S I) : dev.order.view = dev.view := by
  simp [view, order, applyOp]

end Device

-- `tear old new m`: a write of `new` over `old` that did not complete may leave `m`.
variable (tear : I → I → I → Prop)

/-- A write in flight may have had no effect or its whole effect. -/
structure Tears : Prop where
  old (o i : I) : tear o i o
  new (o i : I) : tear o i i

/-- The rest of a barrier interval in which some write did not complete: its later writes
may have reached the medium or not, and nothing after the next barrier did. -/
inductive Lost : (S → I) → List (Op S I) → (S → I) → Prop where
  | done (d : S → I) : Lost d [] d
  | barrier (d : S → I) (ops : List (Op S I)) : Lost d (.barrier :: ops) d
  | write {d d' : S → I} {s : S} {i m : I} {ops : List (Op S I)} (ht : tear (d s) i m)
      (h : Lost (Function.update d s m) ops d') : Lost d (.write s i :: ops) d'

/-- The images a power cut can leave of the durable ones and the pending writes. -/
inductive Survives : (S → I) → List (Op S I) → (S → I) → Prop where
  | lost {d d' : S → I} {ops : List (Op S I)} (h : Lost tear d ops d') : Survives d ops d'
  | kept {d d' : S → I} {op : Op S I} {ops : List (Op S I)}
      (h : Survives (applyOp d op) ops d') : Survives d (op :: ops) d'

def Device.Survivor (dev : Device S I) (d' : S → I) : Prop :=
  Survives tear dev.durable dev.pending d'

variable {tear} {d d' : S → I}

theorem survivor_quiet (h : (Device.quiet d).Survivor tear d') : d' = d := by
  cases h with
  | lost h => cases h; rfl

theorem survivor_view (dev : Device S I) : dev.Survivor tear dev.view := by
  obtain ⟨d, ops⟩ := dev
  induction ops generalizing d with
  | nil => exact .lost (.done d)
  | cons op ops ih => exact .kept (ih (applyOp d op))

theorem survivor_write (ht : Tears tear) (h : ((Device.quiet d).write s i).Survivor tear d') :
    ∃ m, tear (d s) i m ∧ d' = Function.update d s m := by
  cases h with
  | lost h =>
    cases h with
    | write hm h => cases h; exact ⟨_, hm, rfl⟩
  | kept h =>
    cases h with
    | lost h => cases h; exact ⟨i, ht.new _ _, rfl⟩

/-- A second write in flight, ordered after the first: the second has an effect only where
the first one is complete. -/
theorem survivor_ordered (ht : Tears tear)
    (h : ((((Device.quiet d).write s i).order).write t j).Survivor tear d') : (∃ m, tear (d s) i m ∧
    d' = Function.update d s m) ∨ ∃ m, tear (Function.update d s i t) j m ∧
    d' = Function.update (Function.update d s i) t m := by
  cases h with
  | lost h =>
    cases h with
    | write hm h => cases h; exact .inl ⟨_, hm, rfl⟩
  | kept h =>
    right
    cases h with
    | lost h =>
      cases h with
      | barrier => exact ⟨_, ht.old _ _, (Function.update_eq_self _ _).symm⟩
    | kept h => exact survivor_write ht h

end OrderedWrites
