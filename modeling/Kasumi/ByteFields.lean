import Mathlib

/-! Fixed-width fields in byte images: little-endian numbers, slices, images laid out as a
list of fields, and images torn between an old and a new content. -/
namespace ByteFields

open List

abbrev Byte := Fin 256

instance byteNeZero : NeZero 256 := ⟨by decide⟩

/-- The `w` little-endian bytes of `n`; higher digits are dropped. -/
def le : (w : ℕ) → (n : ℕ) → List Byte
  | 0, _ => []
  | w + 1, n => Fin.ofNat 256 n :: le w (n / 256)

def unle : List Byte → ℕ
  | [] => 0
  | b :: bs => b.val + 256 * unle bs

/-- The number fits a field of `w` bytes: the range of the source's integer type. -/
abbrev Fits (w n : ℕ) : Prop := n < 256 ^ w

theorem fits_zero (w : ℕ) : Fits w 0 := Nat.pow_pos (by decide)

@[simp] theorem length_le (w n : ℕ) : (le w n).length = w := by
  induction w generalizing n with
  | zero => rfl
  | succ w ih => simp [le, ih]

theorem unle_le (h : Fits w n) : unle (le w n) = n := by
  induction w generalizing n with
  | zero => simp [le, unle] at h ⊢; omega
  | succ w ih =>
    have hd : n / 256 < 256 ^ w := by
      apply Nat.div_lt_of_lt_mul
      rw [← pow_succ']; exact h
    simp only [le, unle, Fin.ofNat, ih hd]
    omega

def zeros (n : ℕ) : List Byte := List.replicate n 0

@[simp] theorem length_zeros (n : ℕ) : (zeros n).length = n := length_replicate

def isZero (bs : List Byte) : Bool := bs.all (· == 0)

@[simp] theorem isZero_zeros (n : ℕ) : isZero (zeros n) = true := by
  simp [isZero, zeros]

variable {a : ℕ} {fields : List (List Byte)}

theorem isZero_iff : isZero bs = true ↔ bs = zeros bs.length := by
  simp [isZero, zeros, eq_replicate_iff]

def slice (a b : ℕ) (bs : List Byte) : List Byte := (bs.drop a).take (b - a)

theorem unle_zeros (n : ℕ) : unle (zeros n) = 0 := by
  induction n with
  | zero => rfl
  | succ n ih =>
    have hz : zeros (n + 1) = 0 :: zeros n := rfl
    rw [hz, unle, ih]
    rfl

theorem slice_zeros (a b n : ℕ) : slice a b (zeros n) = zeros (min (b - a) (n - a)) := by
  simp [slice, zeros]

theorem slice_middle (ha : pre.length = a) (hb : a + mid.length = b) :
    slice a b (pre ++ mid ++ post) = mid := by
  subst ha; subst hb
  simp [slice]

@[simp] theorem slice_front (h : front.length = n) : slice 0 n (front ++ rest) = front := by
  subst h
  simp [slice]

@[simp] theorem slice_whole (h : bs.length = n) : slice 0 n bs = bs := by
  subst h
  simp [slice]

@[simp] theorem slice_past (h : field.length ≤ a) :
    slice a b (field ++ rest) = slice (a - field.length) (b - field.length) rest := by
  have hb : b - a = b - field.length - (a - field.length) := by omega
  rw [slice, slice, drop_append, drop_of_length_le h, nil_append, hb]

theorem slice_nth (i : ℕ) (h : fields[i]? = some field)
    (ha : ((fields.take i).map List.length).sum = a) (hb : a + field.length = b) :
    slice a b fields.flatten = field := by
  obtain ⟨hi, hf⟩ := List.getElem?_eq_some_iff.mp h
  have hs : fields.flatten =
      (fields.take i).flatten ++ field ++ (fields.drop (i + 1)).flatten := by
    have hl : fields = fields.take i ++ field :: fields.drop (i + 1) := by
      rw [← hf, getElem_cons_drop, take_append_drop]
    conv_lhs => rw [hl]
    simp
  rw [hs]
  exact slice_middle (by rw [length_flatten, ha]) hb

theorem drop_nth (i : ℕ) (ha : ((fields.take i).map List.length).sum = a) :
    fields.flatten.drop a = (fields.drop i).flatten := by
  have hl : fields.flatten = (fields.take i).flatten ++ (fields.drop i).flatten := by
    rw [← flatten_append, take_append_drop]
  have hn : (fields.take i).flatten.length = a := by rw [length_flatten, ha]
  rw [hl, ← hn, drop_left]

theorem slice_slice (h : c + b ≤ d) : slice a b (slice c d bs) = slice (c + a) (c + b) bs := by
  simp only [slice, drop_take, drop_drop, take_take]
  congr 1
  omega

theorem slice_append (bs : List Byte) (ha : a ≤ b) (hb : b ≤ c) :
    slice a b bs ++ slice b c bs = slice a c bs := by
  have hc : c - a = (b - a) + (c - b) := by omega
  have hd : bs.drop b = (bs.drop a).drop (b - a) := by
    rw [drop_drop]
    congr 1
    omega
  simp only [slice]
  rw [hc, take_add, hd]

theorem getElem?_of_slice (h : slice a b bs = field) (ha : a ≤ i) (hb : i < b) :
    bs[i]? = field[i - a]? := by
  have hi : i - a < b - a := by omega
  rw [← h, slice, getElem?_take_of_lt hi, getElem?_drop]
  congr 1
  omega

theorem slice_take (h : b ≤ n) : slice a b (bs.take n) = slice a b bs := by
  simp only [slice, drop_take, take_take]
  congr 1
  omega

/-- The bytes after a lead byte: `more` continuation bytes, the next one in `lo..hi`. -/
def isUtf8From : (more lo hi : ℕ) → List Byte → Bool
  | 0, _, _, [] => true
  | _ + 1, _, _, [] => false
  | more + 1, lo, hi, b :: bs => lo ≤ b.val && b.val ≤ hi && isUtf8From more 0x80 0xBF bs
  | 0, _, _, b :: bs =>
    if b.val < 0x80 then isUtf8From 0 0x80 0xBF bs
    else if 0xC2 ≤ b.val ∧ b.val ≤ 0xDF then isUtf8From 1 0x80 0xBF bs
    else if b.val = 0xE0 then isUtf8From 2 0xA0 0xBF bs
    else if b.val = 0xED then isUtf8From 2 0x80 0x9F bs
    else if 0xE1 ≤ b.val ∧ b.val ≤ 0xEF then isUtf8From 2 0x80 0xBF bs
    else if b.val = 0xF0 then isUtf8From 3 0x90 0xBF bs
    else if 0xF1 ≤ b.val ∧ b.val ≤ 0xF3 then isUtf8From 3 0x80 0xBF bs
    else if b.val = 0xF4 then isUtf8From 3 0x80 0x8F bs
    else false

/-- Well-formed UTF-8, with neither overlong forms nor surrogates. -/
def isUtf8 (bs : List Byte) : Bool := isUtf8From 0 0x80 0xBF bs

/-- A write over zeros that stopped part way: cut off, each byte left zero or as written. -/
structure Torn (written left : List Byte) : Prop where
  short : left.length ≤ written.length
  bytes : ∀ (i : ℕ) (b : Byte), left[i]? = some b → b = 0 ∨ written[i]? = some b

theorem Torn.refl (bs : List Byte) : Torn bs bs := ⟨le_rfl, fun _ _ h => .inr h⟩

theorem Torn.drop (h : Torn w l) (n : ℕ) : Torn (w.drop n) (l.drop n) := by
  constructor
  · have := h.short
    simp only [length_drop]
    omega
  intro i b hb
  rw [getElem?_drop] at hb ⊢
  exact h.bytes _ b hb

theorem Torn.take (h : Torn w l) (n : ℕ) : Torn w (l.take n) := by
  constructor
  · have := h.short
    simp only [length_take]
    omega
  intro i b hb
  rw [getElem?_take] at hb
  split at hb
  · exact h.bytes i b hb
  · cases hb

theorem Torn.of_issued (h : Torn w' l) (hp : w' <+: w) : Torn w l := by
  constructor
  · exact h.short.trans hp.length_le
  intro i b hb
  rcases h.bytes i b hb with hz | hw
  · exact .inl hz
  obtain ⟨t, rfl⟩ := hp
  obtain ⟨hi, -⟩ := List.getElem?_eq_some_iff.mp hw
  rw [getElem?_append_left hi]
  exact .inr hw

def Mixture (old new m : List Byte) : Prop :=
  m.length = new.length ∧ ∀ i : ℕ, m[i]? = old[i]? ∨ m[i]? = new[i]?

end ByteFields
