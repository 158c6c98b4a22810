import Mathlib

/-! JSON values and their compact text: members in the order given, no blanks, strings with
the short escapes and every other character in UTF-8. The byte length of a text is computed
from the lengths of its parts. -/
namespace JsonText

open List

inductive Json where
  | null
  | bool (b : Bool)
  | num (n : ℕ)
  | str (s : String)
  | arr (items : List Json)
  | obj (members : List (String × Json))

def hexDigit (n : ℕ) : UInt8 := if n < 10 then (48 + n).toUInt8 else (87 + n).toUInt8

/-- The escape of one character: quotation mark, backslash and the control characters below
the blank are escaped, nothing else is. -/
def escape (c : Char) : List UInt8 :=
  if c = '"' then [92, 34]
  else if c = '\\' then [92, 92]
  else if c.toNat = 8 then [92, 98]
  else if c.toNat = 9 then [92, 116]
  else if c.toNat = 10 then [92, 110]
  else if c.toNat = 12 then [92, 102]
  else if c.toNat = 13 then [92, 114]
  else if c.toNat < 32 then
    [92, 117, 48, 48, hexDigit (c.toNat / 16), hexDigit (c.toNat % 16)]
  else String.utf8EncodeChar c

def quote (s : String) : List UInt8 := 34 :: (s.toList.flatMap escape ++ [34])

def joined : List (List UInt8) → List UInt8
  | [] => []
  | [part] => part
  | part :: next :: rest => part ++ 44 :: joined (next :: rest)

def digits (n : ℕ) : List UInt8 := (Nat.toDigits 10 n).map fun c => c.toNat.toUInt8

mutual

def encode : Json → List UInt8
  | .null => [110, 117, 108, 108]
  | .bool true => [116, 114, 117, 101]
  | .bool false => [102, 97, 108, 115, 101]
  | .num n => digits n
  | .str s => quote s
  | .arr items => 91 :: (joined (encodeItems items) ++ [93])
  | .obj members => 123 :: (joined (encodeMembers members) ++ [125])

def encodeItems : List Json → List (List UInt8)
  | [] => []
  | item :: rest => encode item :: encodeItems rest

def encodeMembers : List (String × Json) → List (List UInt8)
  | [] => []
  | (key, value) :: rest => (quote key ++ 58 :: encode value) :: encodeMembers rest

end

def size (j : Json) : ℕ := (encode j).length

theorem length_joined (parts : List (List UInt8)) :
    (joined parts).length = (parts.map List.length).sum + (parts.length - 1) := by
  induction parts with
  | nil => rfl
  | cons part rest ih =>
    cases rest with
    | nil => simp [joined]
    | cons next rest =>
      rw [joined, length_append, length_cons, ih]
      simp only [map_cons, sum_cons, length_cons]
      omega

theorem encodeItems_eq (items : List Json) : encodeItems items = items.map encode := by
  induction items with
  | nil => rfl
  | cons item rest ih => rw [encodeItems, ih, map_cons]

theorem encodeMembers_eq (members : List (String × Json)) :
    encodeMembers members = members.map fun m => quote m.1 ++ 58 :: encode m.2 := by
  induction members with
  | nil => rfl
  | cons m rest ih => rw [encodeMembers, ih, map_cons]

def memberSize (m : String × Json) : ℕ := (quote m.1).length + 1 + size m.2

theorem size_arr (items : List Json) :
    size (.arr items) = 2 + (items.map size).sum + (items.length - 1) := by
  rw [size, encode, length_cons, length_append, length_joined, encodeItems_eq, map_map, length_map]
  have : (List.map (List.length ∘ encode) items) = items.map size := rfl
  rw [this, length_singleton]
  omega

theorem size_obj (members : List (String × Json)) :
    size (.obj members) = 2 + (members.map memberSize).sum + (members.length - 1) := by
  rw [size, encode, length_cons, length_append, length_joined, encodeMembers_eq,
    map_map, length_map]
  have : (List.map (List.length ∘ fun m : String × Json => quote m.1 ++ 58 :: encode m.2)
      members) = members.map memberSize := by
    apply map_congr_left
    intro m _
    simp only [Function.comp_apply, length_append, length_cons, memberSize, size]
    omega
  rw [this, length_singleton]
  omega

theorem size_num_le (hk : 0 < k) (h : n < 10 ^ k) : size (.num n) ≤ k := by
  rw [size, encode, digits, length_map]
  exact Nat.toDigits_length 10 n k hk h

theorem escape_length_le (h : 32 ≤ c.toNat) : (escape c).length ≤ 2 * c.utf8Size := by
  have hp : 0 < c.utf8Size := Char.utf8Size_pos c
  unfold escape
  split
  · simp only [length_cons, length_nil]
    omega
  split
  · simp only [length_cons, length_nil]
    omega
  -- no control character remains, so the character stands for itself
  rw [if_neg (by omega), if_neg (by omega), if_neg (by omega), if_neg (by omega),
    if_neg (by omega), if_neg (by omega), String.length_utf8EncodeChar]
  omega

theorem utf8ByteSize_eq_sum (s : String) : s.utf8ByteSize = (s.toList.map Char.utf8Size).sum := by
  conv_lhs => rw [← String.ofList_toList (s := s)]
  rw [String.utf8ByteSize_ofList]
  induction s.toList with
  | nil => rfl
  | cons c rest ih => rw [String.utf8Len_cons, ih, map_cons, sum_cons, Nat.add_comm]

theorem quote_length_le (h : ∀ c ∈ s.toList, 32 ≤ c.toNat) :
    (quote s).length ≤ 2 * s.utf8ByteSize + 2 := by
  have hb : (s.toList.flatMap escape).length ≤ 2 * (s.toList.map Char.utf8Size).sum := by
    revert h
    generalize s.toList = chars
    intro h
    induction chars with
    | nil => exact Nat.le_refl 0
    | cons c rest ih =>
      have hc := escape_length_le (h c (mem_cons_self))
      have hr := ih fun d hd => h d (mem_cons_of_mem c hd)
      rw [flatMap_cons, length_append, map_cons, sum_cons]
      omega
  rw [quote, length_cons, length_append, length_singleton, utf8ByteSize_eq_sum]
  omega

end JsonText
