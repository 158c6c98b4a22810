import Mathlib

/-! Bytes as hexadecimal text: two lower-case digits a byte when writing, either case when
reading. -/
namespace HexText

def digit (n : ℕ) : Char := if n < 10 then Char.ofNat (48 + n) else Char.ofNat (87 + n)

def digitValue (c : Char) : Option ℕ :=
  if '0' ≤ c ∧ c ≤ '9' then some (c.toNat - 48)
  else if 'a' ≤ c ∧ c ≤ 'f' then some (c.toNat - 87)
  else if 'A' ≤ c ∧ c ≤ 'F' then some (c.toNat - 55)
  else none

def encodeChars : List UInt8 → List Char
  | [] => []
  | b :: rest => digit (b.toNat / 16) :: digit (b.toNat % 16) :: encodeChars rest

def encode (bytes : List UInt8) : String := String.ofList (encodeChars bytes)

def decodeChars : List Char → Option (List UInt8)
  | [] => some []
  | [_] => none
  | a :: b :: rest => do
    let high ← digitValue a
    let low ← digitValue b
    let bytes ← decodeChars rest
    pure (UInt8.ofNat (16 * high + low) :: bytes)

def decode (s : String) : Option (List UInt8) := decodeChars s.toList

theorem digitValue_digit (h : n < 16) : digitValue (digit n) = some n := by
  revert n
  decide

theorem utf8Size_digit (h : n < 16) : (digit n).utf8Size = 1 := by
  revert n
  decide

theorem decodeChars_encodeChars (bs : List UInt8) : decodeChars (encodeChars bs) = some bs := by
  induction bs with
  | nil => rfl
  | cons b rest ih =>
    have hb := b.toNat_lt
    rw [encodeChars, decodeChars, digitValue_digit (by omega), digitValue_digit (by omega), ih]
    have hs : 16 * (b.toNat / 16) + b.toNat % 16 = b.toNat := by omega
    change some (UInt8.ofNat (16 * (b.toNat / 16) + b.toNat % 16) :: rest) = some (b :: rest)
    rw [hs, UInt8.ofNat_toNat]

@[simp] theorem decode_encode (bs : List UInt8) : decode (encode bs) = some bs := by
  rw [decode, encode, String.toList_ofList, decodeChars_encodeChars]

@[simp] theorem utf8ByteSize_encode (bs : List UInt8) :
    (encode bs).utf8ByteSize = 2 * bs.length := by
  rw [encode, String.utf8ByteSize_ofList]
  induction bs with
  | nil => rfl
  | cons b rest ih =>
    have hb := b.toNat_lt
    rw [encodeChars, String.utf8Len_cons, String.utf8Len_cons, ih, utf8Size_digit (by omega),
      utf8Size_digit (by omega), List.length_cons]
    omega

end HexText
