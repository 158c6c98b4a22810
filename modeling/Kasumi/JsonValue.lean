import Kasumi.JsonText
import Kasumi.TenantTypes

/-! The value a JSON text stands for, and the readers that decoders of records are made of.
Objects of a value list their members in key order; the members of a record that is encoded
are read back whatever order they were written in. -/
namespace JsonValue

open JsonText TenantTypes SortedAssoc List

mutual

def valueOf : Json → Value
  | .null => .null
  | .bool b => .bool b
  | .num n => .number (Nat.repr n)
  | .str s => .string s
  | .arr items => .array (valuesOf items)
  | .obj members => .object (membersOf members)

def valuesOf : List Json → List Value
  | [] => []
  | item :: rest => valueOf item :: valuesOf rest

def membersOf : List (String × Json) → List (String × Value)
  | [] => []
  | (key, value) :: rest => edit key (some (valueOf value)) (membersOf rest)

end

def member (v : Value) (key : String) : Option Value :=
  match v with
  | .object members => toMap members key
  | _ => none

def onlyMembers (v : Value) (fields : List String) : Bool :=
  match v with
  | .object members => members.all fun m => fields.contains m.1
  | _ => false

def text : Value → Option String
  | .string s => some s
  | _ => none

def number (bound : ℕ) : Value → Option ℕ
  | .number t =>
    if !t.isEmpty && t.toList.all Char.isDigit then
      let n := Nat.ofDigitChars 10 t.toList 0
      if n < bound then some n else none
    else none
  | _ => none

def textMember (v : Value) (key : String) : Option String := (member v key).bind text

def numberMember (bound : ℕ) (v : Value) (key : String) : Option ℕ :=
  (member v key).bind (number bound)

theorem membersOf_sorted (members : List (String × Json)) : Sorted (membersOf members) := by
  induction members with
  | nil => exact List.Pairwise.nil
  | cons m rest ih => exact edit_sorted ih m.1 _

@[simp] theorem member_valueOf (members : List (String × Json)) (key : String) :
    member (valueOf (.obj members)) key = (members.lookup key).map valueOf := by
  change toMap (membersOf members) key = _
  induction members with
  | nil => rfl
  | cons m rest ih =>
    obtain ⟨k, j⟩ := m
    rw [membersOf, toMap_edit (membersOf_sorted rest)]
    by_cases h : key = k
    · subst h
      simp
    · rw [Function.update_of_ne h, ih, lookup_cons, beq_eq_false_iff_ne.mpr h]

theorem onlyMembers_valueOf
    (h : ∀ m ∈ members, m.1 ∈ fields) : onlyMembers (valueOf (.obj members)) fields = true := by
  change (membersOf members).all _ = true
  rw [all_eq_true]
  induction members with
  | nil => exact fun e he => nomatch he
  | cons m rest ih =>
    intro e he
    obtain hr | ⟨hk, -⟩ := mem_edit he
    · exact ih (fun m' hm => h m' (mem_cons_of_mem m hm)) e hr
    · rw [hk]
      exact contains_iff_mem.mpr (h m mem_cons_self)

@[simp] theorem text_str (s : String) : text (valueOf (.str s)) = some s := rfl

theorem number_num (h : n < bound) : number bound (valueOf (.num n)) = some n := by
  have ha : (Nat.repr n).toList.all Char.isDigit = true := by
    rw [all_eq_true, Nat.toList_repr]
    exact fun c hc => Nat.isDigit_of_mem_toDigits (by decide) (by decide) hc
  have hne : (Nat.repr n).isEmpty = false := by
    rw [Bool.eq_false_iff]
    intro he
    have hn : (Nat.repr n).toList = [] := by
      rw [String.isEmpty_iff.mp he]
      rfl
    rw [Nat.toList_repr] at hn
    exact Nat.toDigits_ne_nil hn
  rw [valueOf, number, hne, ha, Nat.toList_repr, Nat.ofDigitChars_ten_toDigits]
  simp [h]

end JsonValue
