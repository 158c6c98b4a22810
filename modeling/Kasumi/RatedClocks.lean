import Mathlib

/-! Clocks read against one common time. A clock of bounded rate error stays between two rates;
a clock that may also jump back is bounded from above only. A wait on a fast clock that is long
enough outlasts an interval on a slow one. -/
namespace RatedClocks

variable {K : Type} [Field K] [LinearOrder K] [IsStrictOrderedRing K]

def AtLeast (rate : K) (clock : K → K) : Prop :=
  ∀ s t, s ≤ t → rate * (t - s) ≤ clock t - clock s

def AtMost (rate : K) (clock : K → K) : Prop :=
  ∀ s t, s ≤ t → clock t - clock s ≤ rate * (t - s)

/-- A clock that does not decrease and whose rate is off by `error` at most. -/
structure Rated (error : K) (clock : K → K) : Prop where
  monotone : Monotone clock
  slowest : AtLeast (1 - error) clock
  fastest : AtMost (1 + error) clock

/-- A wait on the observer's clock outlasts the lifetime on the holder's clock when it is
stretched by the ratio of the fastest to the slowest rate. -/
theorem wait_outlasts {s d t : K}
    (hp : 0 ≤ error) (hsm : error < 1) (hs : lifetime * (1 + error) ≤ wait * (1 - error))
    (hh : AtLeast (1 - error) holder) (ho : AtMost (1 + error) observer) (ha : a ≤ s) (hsd : s ≤ d)
    (hd : d ≤ t) (hw : wait ≤ observer d - observer s) : lifetime ≤ holder t - holder a := by
  have hsl : 0 < 1 - error := sub_pos.mpr hsm
  have hf : 0 < 1 + error := by linarith
  have hob : wait ≤ (1 + error) * (d - s) := le_trans hw (ho s d hsd)
  have he : lifetime ≤ (1 - error) * (d - s) := by
    apply le_of_mul_le_mul_right _ hf
    calc lifetime * (1 + error) ≤ wait * (1 - error) := hs
      _ ≤ (1 + error) * (d - s) * (1 - error) :=
        mul_le_mul_of_nonneg_right hob hsl.le
      _ = (1 - error) * (d - s) * (1 + error) := by ring
  calc lifetime ≤ (1 - error) * (d - s) := he
    _ ≤ (1 - error) * (t - a) := mul_le_mul_of_nonneg_left (by linarith) hsl.le
    _ ≤ holder t - holder a := hh a t (le_trans ha (le_trans hsd hd))

end RatedClocks
