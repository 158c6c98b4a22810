import Kasumi.JsonText

/-! A text stands for one JSON value only: the value can be read off the front of any
continuation that does not go on with a digit. -/
namespace JsonUnique

open JsonText List

/-- Parts up to a byte that none of them starts with can be read off, when each part can be
read off what may follow it. -/
theorem flatMap_inj {f : α → List UInt8} {E : List UInt8 → Prop}
    (he : ∀ x, E (b :: x)) (hp : ∀ a x, E (f a ++ x)) (hb : ∀ a x y, f a ++ x ≠ b :: y)
    {m : List α} {y : List UInt8} (hf : ∀ a ∈ l, ∀ c x y, E x → E y → f a ++ x = f c ++ y →
    a = c ∧ x = y) (h : l.flatMap f ++ b :: x = m.flatMap f ++ b :: y) : l = m ∧ x = y := by
  have hr : ∀ (l : List α) x, E (l.flatMap f ++ b :: x) := by
    intro l x
    cases l with
    | nil => exact he x
    | cons a l =>
      rw [flatMap_cons, append_assoc]
      exact hp a _
  induction l generalizing m with
  | nil =>
    cases m with
    | nil => exact ⟨rfl, (List.cons.inj h).2⟩
    | cons c m =>
      rw [flatMap_cons, append_assoc] at h
      exact absurd h.symm (hb c _ _)
  | cons a l ih =>
    cases m with
    | nil =>
      rw [flatMap_cons, append_assoc] at h
      exact absurd h (hb a _ _)
    | cons c m =>
      rw [flatMap_cons, flatMap_cons, append_assoc, append_assoc] at h
      obtain ⟨rfl, hl⟩ := hf a mem_cons_self c _ _ (hr l x) (hr m y) h
      obtain ⟨rfl, hx⟩ := ih (fun d hd => hf d (mem_cons_of_mem a hd)) hl
      exact ⟨rfl, hx⟩

theorem utf8_head (h : String.utf8EncodeChar c ++ x = String.utf8EncodeChar d ++ y) : c = d := by
  have hb := congrArg toByteArray h
  rw [toByteArray_append, toByteArray_append] at hb
  have hc := ByteArray.utf8DecodeChar?_utf8EncodeChar_append (b := x.toByteArray) (c := c)
  rw [hb, ByteArray.utf8DecodeChar?_utf8EncodeChar_append] at hc
  exact (Option.some.inj hc).symm

def special : List Char := '"' :: '\\' :: (List.range 32).map Char.ofNat

theorem mem_special_of_lt (h : c.toNat < 32) : c ∈ special := by
  refine mem_cons_of_mem _ (mem_cons_of_mem _ (mem_map.mpr ?_))
  exact ⟨c.toNat, mem_range.mpr h, Char.ofNat_toNat c⟩

theorem escape_plain (h : c ∉ special) : escape c = String.utf8EncodeChar c := by
  have hq : c ≠ '"' := fun he => h (he ▸ by decide)
  have hs : c ≠ '\\' := fun he => h (he ▸ by decide)
  have hc : ¬ c.toNat < 32 := fun hl => h (mem_special_of_lt hl)
  rw [escape, if_neg hq, if_neg hs, if_neg (by omega), if_neg (by omega),
    if_neg (by omega), if_neg (by omega), if_neg (by omega), if_neg hc]

def hexByteValue (b : UInt8) : ℕ := if b.toNat < 58 then b.toNat - 48 else b.toNat - 87

def unescape : List UInt8 → Option Char
  | 92 :: 117 :: _ :: _ :: high :: low :: _ =>
    some (Char.ofNat (16 * hexByteValue high + hexByteValue low))
  | 92 :: 98 :: _ => some (Char.ofNat 8)
  | 92 :: 116 :: _ => some (Char.ofNat 9)
  | 92 :: 110 :: _ => some (Char.ofNat 10)
  | 92 :: 102 :: _ => some (Char.ofNat 12)
  | 92 :: 114 :: _ => some (Char.ofNat 13)
  | 92 :: b :: _ => some (Char.ofNat b.toNat)
  | _ => none

theorem hexByteValue_digits : ∀ n < 32,
    16 * hexByteValue (hexDigit (n / 16)) + hexByteValue (hexDigit (n % 16)) = n := by
  decide

theorem toNat_control : ∀ n < 32, (Char.ofNat n).toNat = n := by
  decide

theorem mem_special (h : c ∈ special) : c = '"' ∨ c = '\\' ∨ c.toNat < 32 := by
  rw [special, mem_cons, mem_cons, mem_map] at h
  obtain h | h | ⟨n, hn, rfl⟩ := h
  · exact .inl h
  · exact .inr (.inl h)
  have hl := mem_range.mp hn
  rw [toNat_control n hl]
  exact .inr (.inr hl)

theorem unescape_escape (hc : c ∈ special) (x : List UInt8) :
    (escape c ++ x).head? = some 92 ∧ unescape (escape c ++ x) = some c := by
  obtain rfl | rfl | hl := mem_special hc
  · exact ⟨rfl, rfl⟩
  · exact ⟨rfl, rfl⟩
  have hco : ∀ n, c.toNat = n → some (Char.ofNat n) = some c := by
    rintro n rfl
    rw [Char.ofNat_toNat]
  have hq : c ≠ '"' := by rintro rfl; exact absurd hl (by decide)
  have hs : c ≠ '\\' := by rintro rfl; exact absurd hl (by decide)
  rw [escape, if_neg hq, if_neg hs]
  by_cases h8 : c.toNat = 8
  · rw [if_pos h8]
    exact ⟨rfl, hco 8 h8⟩
  by_cases h9 : c.toNat = 9
  · rw [if_neg h8, if_pos h9]
    exact ⟨rfl, hco 9 h9⟩
  by_cases h10 : c.toNat = 10
  · rw [if_neg h8, if_neg h9, if_pos h10]
    exact ⟨rfl, hco 10 h10⟩
  by_cases h12 : c.toNat = 12
  · rw [if_neg h8, if_neg h9, if_neg h10, if_pos h12]
    exact ⟨rfl, hco 12 h12⟩
  by_cases h13 : c.toNat = 13
  · rw [if_neg h8, if_neg h9, if_neg h10, if_neg h12, if_pos h13]
    exact ⟨rfl, hco 13 h13⟩
  rw [if_neg h8, if_neg h9, if_neg h10, if_neg h12, if_neg h13, if_pos hl]
  exact ⟨rfl, hco _ (hexByteValue_digits _ hl).symm⟩

theorem plain_head (hd : d ∉ special) (h : (escape d ++ y).head? = some 92) : False := by
  rw [escape_plain hd] at h
  obtain ⟨rest, hr⟩ := head?_eq_some_iff.mp h
  exact absurd (utf8_head (d := '\\') hr) fun he => hd (he ▸ by decide)

theorem escape_inj (h : escape c ++ x = escape d ++ y) : c = d ∧ x = y := by
  have hch : c = d := by
    by_cases hc : c ∈ special
    · by_cases hd : d ∈ special
      · have hch := (unescape_escape hc x).2
        rw [h, (unescape_escape hd y).2] at hch
        exact (Option.some.inj hch).symm
      · exact (plain_head hd (h ▸ (unescape_escape hc x).1)).elim
    by_cases hd : d ∈ special
    · exact (plain_head hc (h ▸ (unescape_escape hd y).1)).elim
    · rw [escape_plain hc, escape_plain hd] at h
      exact utf8_head h
  subst hch
  exact ⟨rfl, append_cancel_left h⟩

theorem escape_ne_quote : escape c ++ x ≠ 34 :: y := by
  intro h
  by_cases hc : c ∈ special
  · have hh := (unescape_escape hc x).1
    rw [h] at hh
    exact absurd (Option.some.inj hh) (by decide)
  · rw [escape_plain hc] at h
    exact absurd (utf8_head (d := '"') h) fun he => hc (he ▸ by decide)

theorem quote_inj {t : String} (h : quote s ++ x = quote t ++ y) : s = t ∧ x = y := by
  simp only [quote, cons_append, append_assoc, List.cons.injEq, true_and] at h
  obtain ⟨hc, hr⟩ := flatMap_inj (E := fun _ => True) (fun _ => trivial)
    (fun _ _ => trivial) (fun _ _ _ => escape_ne_quote) (fun _ _ _ _ _ _ _ => escape_inj) h
  exact ⟨String.toList_inj.mp hc, hr⟩

def isDigitByte (b : UInt8) : Bool := 48 ≤ b && b ≤ 57

def Ends (x : List UInt8) : Prop := ∀ b ∈ x.head?, isDigitByte b = false

theorem digit_byte : ∀ n ∈ List.range' 48 10, isDigitByte n.toUInt8 = true ∧
    n.toUInt8.toNat = n := by
  decide

theorem digitChar_byte (h : c.isDigit = true) :
    isDigitByte c.toNat.toUInt8 = true ∧ Char.ofNat (c.toNat.toUInt8).toNat = c := by
  have hr : c.toNat ∈ List.range' 48 10 := by
    simp only [Char.isDigit, Bool.and_eq_true, decide_eq_true_eq] at h
    have hl : 48 ≤ c.toNat := UInt32.le_iff_toNat_le.mp h.1
    have hh : c.toNat ≤ 57 := UInt32.le_iff_toNat_le.mp h.2
    rw [mem_range'_1]
    omega
  obtain ⟨hd, hn⟩ := digit_byte _ hr
  exact ⟨hd, by rw [hn, Char.ofNat_toNat]⟩

theorem digits_all (n : ℕ) : ∀ b ∈ digits n, isDigitByte b = true := by
  intro b hb
  obtain ⟨c, hc, rfl⟩ := mem_map.mp hb
  exact (digitChar_byte (Nat.isDigit_of_mem_toDigits (by decide) (by decide) hc)).1

theorem digits_injective (h : digits n = digits m) : n = m := by
  have hch : ∀ k, (digits k).map (fun b => Char.ofNat b.toNat) = Nat.toDigits 10 k := by
    intro k
    rw [digits, map_map]
    conv_rhs => rw [← map_id (Nat.toDigits 10 k)]
    apply map_congr_left
    intro c hc
    exact (digitChar_byte (Nat.isDigit_of_mem_toDigits (by decide) (by decide) hc)).2
  rw [← Nat.ofDigitChars_ten_toDigits (n := n), ← hch, h, hch, Nat.ofDigitChars_ten_toDigits]

theorem takeWhile_digits (n : ℕ) (hx : Ends x) :
    (digits n ++ x).takeWhile isDigitByte = digits n := by
  rw [takeWhile_append_of_pos (digits_all n)]
  cases x with
  | nil => simp
  | cons b rest => simp [hx b rfl]

theorem digits_inj (hx : Ends x) (hy : Ends y)
    (h : digits n ++ x = digits m ++ y) : n = m ∧ x = y := by
  have hd : digits n = digits m := by
    rw [← takeWhile_digits n hx, h, takeWhile_digits m hy]
  rw [hd] at h
  exact ⟨digits_injective hd, append_cancel_left h⟩

theorem digits_head (n : ℕ) : ∃ b rest, digits n = b :: rest ∧ isDigitByte b = true := by
  cases h : digits n with
  | nil =>
    rw [digits, map_eq_nil_iff] at h
    exact absurd h Nat.toDigits_ne_nil
  | cons b rest => exact ⟨b, rest, rfl, digits_all n b (h ▸ mem_cons_self)⟩

theorem joined_cons (part : List UInt8) (parts : List (List UInt8)) :
    joined (part :: parts) = part ++ parts.flatMap (44 :: ·) := by
  induction parts generalizing part with
  | nil => rw [joined, flatMap_nil, append_nil]
  | cons next rest ih => rw [joined, ih, flatMap_cons, cons_append]

def lead : Json → UInt8
  | .null => 110
  | .bool true => 116
  | .bool false => 102
  | .num _ => 48
  | .str _ => 34
  | .arr _ => 91
  | .obj _ => 123

def leadOf (b : UInt8) : UInt8 := if isDigitByte b then 48 else b

theorem encode_lead (v : Json) (x : List UInt8) :
    ∃ b rest, encode v ++ x = b :: rest ∧ leadOf b = lead v := by
  match v with
  | .null => exact ⟨_, _, rfl, rfl⟩
  | .bool true => exact ⟨_, _, rfl, rfl⟩
  | .bool false => exact ⟨_, _, rfl, rfl⟩
  | .num n =>
    obtain ⟨b, rest, hd, hb⟩ := digits_head n
    refine ⟨b, rest ++ x, ?_, by rw [leadOf, if_pos hb]; rfl⟩
    rw [encode, hd, cons_append]
  | .str s => exact ⟨34, _, by rw [encode, quote, cons_append], rfl⟩
  | .arr items => exact ⟨91, _, by rw [encode, cons_append], rfl⟩
  | .obj members => exact ⟨123, _, by rw [encode, cons_append], rfl⟩

theorem lead_eq (h : encode v ++ x = encode w ++ y) : lead v = lead w := by
  obtain ⟨b, rest, hv, hb⟩ := encode_lead v x
  obtain ⟨b', rest', hw, hb'⟩ := encode_lead w y
  rw [hv, hw] at h
  rw [← hb, ← hb', (List.cons.inj h).1]

theorem encode_ne_close (h : b = 93 ∨ b = 125) : encode v ++ x ≠ b :: y := by
  intro he
  obtain ⟨b', rest, hv, hb'⟩ := encode_lead v x
  rw [hv] at he
  obtain rfl := (List.cons.inj he).1
  have hl : ∀ w, lead w ≠ 93 ∧ lead w ≠ 125 := by
    intro w
    match w with
    | .null | .bool true | .bool false | .num _ | .str _ | .arr _ | .obj _ => simp [lead]
  obtain rfl | rfl := h
  · exact (hl v).1 hb'.symm
  · exact (hl v).2 hb'.symm

theorem ends_cons (h : isDigitByte b = false) : Ends (b :: x) := by
  intro b' hb'
  obtain rfl := Option.some.inj hb'
  exact h

def Open (b : UInt8) (parts : List (List UInt8)) : Prop :=
  ∀ part ∈ parts, ∀ x y, part ++ x ≠ b :: y

theorem items_open : (l : List Json) → Open 93 (encodeItems l)
  | [] => fun _ h => nomatch h
  | _ :: l => forall_mem_cons.mpr ⟨fun _ _ => encode_ne_close (by simp), items_open l⟩

theorem members_open : (l : List (String × Json)) → Open 125 (encodeMembers l)
  | [] => fun _ h => nomatch h
  | _ :: l => forall_mem_cons.mpr
      ⟨fun _ _ h => absurd (List.cons.inj h).1 (by decide), members_open l⟩

/-- Whether parts were joined can be read off a bracket that none of them starts with. -/
theorem comma_of_joined (hp : Open b parts) (hp' : Open b parts')
    (h : joined parts ++ b :: x = joined parts' ++ b :: y) :
    parts.flatMap (44 :: ·) ++ b :: x = parts'.flatMap (44 :: ·) ++ b :: y := by
  cases parts with
  | nil =>
    cases parts' with
    | nil => exact h
    | cons q qs =>
      rw [joined_cons, append_assoc] at h
      exact absurd h.symm (hp' q mem_cons_self _ _)
  | cons p ps =>
    cases parts' with
    | nil =>
      rw [joined_cons, append_assoc] at h
      exact absurd h (hp p mem_cons_self _ _)
    | cons q qs =>
      rw [joined_cons, joined_cons] at h
      exact congrArg (44 :: ·) h

theorem encode_inj : (v w : Json) → ∀ {x y : List UInt8}, Ends x → Ends y →
    encode v ++ x = encode w ++ y → v = w ∧ x = y
  | .null, w, x, y, _, _, h => by
    cases w with
    | null => exact ⟨rfl, append_cancel_left h⟩
    | bool b => cases b <;> exact absurd (lead_eq h) (by simp [lead])
    | _ => exact absurd (lead_eq h) (by simp [lead])
  | .bool b, w, x, y, _, _, h => by
    cases w with
    | bool b' =>
      cases b <;> cases b'
      · exact ⟨rfl, append_cancel_left h⟩
      · exact absurd (lead_eq h) (by simp [lead])
      · exact absurd (lead_eq h) (by simp [lead])
      · exact ⟨rfl, append_cancel_left h⟩
    | _ => cases b <;> exact absurd (lead_eq h) (by simp [lead])
  | .num n, w, x, y, hx, hy, h => by
    cases w with
    | num m =>
      obtain ⟨rfl, hr⟩ := digits_inj hx hy h
      exact ⟨rfl, hr⟩
    | bool b => cases b <;> exact absurd (lead_eq h) (by simp [lead])
    | _ => exact absurd (lead_eq h) (by simp [lead])
  | .str s, w, x, y, _, _, h => by
    cases w with
    | str t =>
      obtain ⟨rfl, hr⟩ := quote_inj h
      exact ⟨rfl, hr⟩
    | bool b => cases b <;> exact absurd (lead_eq h) (by simp [lead])
    | _ => exact absurd (lead_eq h) (by simp [lead])
  | .arr items, w, x, y, _, _, h => by
    cases w with
    | arr items' =>
      rw [encode, encode, cons_append, cons_append, append_assoc, append_assoc] at h
      have hc := comma_of_joined (items_open items) (items_open items') (List.cons.inj h).2
      rw [encodeItems_eq, encodeItems_eq, flatMap_map, flatMap_map] at hc
      obtain ⟨rfl, hr⟩ := flatMap_inj (fun _ => ends_cons (by decide))
        (fun _ _ => ends_cons (by decide)) (fun _ _ _ h => absurd (List.cons.inj h).1 (by decide))
        (fun a _ b _ _ hx hy h => encode_inj a b hx hy (List.cons.inj h).2) hc
      exact ⟨rfl, hr⟩
    | bool b => cases b <;> exact absurd (lead_eq h) (by simp [lead])
    | _ => exact absurd (lead_eq h) (by simp [lead])
  | .obj members, w, x, y, _, _, h => by
    cases w with
    | obj members' =>
      rw [encode, encode, cons_append, cons_append, append_assoc, append_assoc] at h
      have hc := comma_of_joined (members_open members) (members_open members')
        (List.cons.inj h).2
      rw [encodeMembers_eq, encodeMembers_eq, flatMap_map, flatMap_map] at hc
      obtain ⟨rfl, hr⟩ := flatMap_inj (fun _ => ends_cons (by decide))
        (fun _ _ => ends_cons (by decide)) (fun _ _ _ h => absurd (List.cons.inj h).1 (by decide))
        (fun a ha b _ _ hx hy h => by
          have hp : sizeOf a = 1 + sizeOf a.1 + sizeOf a.2 := rfl
          rw [cons_append, cons_append, append_assoc, append_assoc] at h
          obtain ⟨hk, hv⟩ := quote_inj (List.cons.inj h).2
          obtain ⟨hv, hr⟩ := encode_inj a.2 b.2 hx hy (List.cons.inj hv).2
          exact ⟨Prod.ext hk hv, hr⟩) hc
      exact ⟨rfl, hr⟩
    | bool b => cases b <;> exact absurd (lead_eq h) (by simp [lead])
    | _ => exact absurd (lead_eq h) (by simp [lead])
termination_by v => sizeOf v
decreasing_by all_goals simp_wf; have := List.sizeOf_lt_of_mem ‹_›; omega

theorem encode_injective (h : encode v = encode w) : v = w := by
  have hn : Ends [] := fun b hb => nomatch hb
  have ha : encode v ++ [] = encode w ++ [] := by rw [h]
  exact (encode_inj v w hn hn ha).1

end JsonUnique
