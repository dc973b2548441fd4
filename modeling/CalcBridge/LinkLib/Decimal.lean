import Mathlib.Algebra.Order.Field.Rat
import Mathlib.Tactic.FieldSimp
import CalcBridge.LinkLib.Text
/-!
# Decimal literals

Digits as numbers, and the value of a literal: an optional sign, digits with an
optional point among them, and an optional exponent.
-/
open LinkLib.Text

namespace LinkLib.Decimal

/-! ## Digits -/

def IsDigit (c : Nat) : Prop := 0x30 ≤ c ∧ c ≤ 0x39

instance (c : Nat) : Decidable (IsDigit c) := inferInstanceAs (Decidable (_ ∧ _))

def Digits (s : Str) : Prop := s ≠ [] ∧ ∀ c ∈ s, IsDigit c

instance (s : Str) : Decidable (Digits s) := inferInstanceAs (Decidable (_ ∧ _))

/-- The number that digits write. -/
def value (s : Str) : Nat := s.foldl (fun n c => n * 10 + (c - 0x30)) 0

theorem foldl_value (s : Str) (n : Nat) : s.foldl (fun n c => n * 10 + (c - 0x30)) n = n * 10 ^ s.length + value s := by
  induction s generalizing n with
  | nil => simp [value]
  | cons c s ih =>
    rw [value, List.foldl_cons, List.foldl_cons, ih, ih (0 * 10 + _), List.length_cons, pow_succ]
    ring

@[simp] theorem value_nil : value [] = 0 := rfl

theorem value_append (s t : Str) : value (s ++ t) = value s * 10 ^ t.length + value t := by
  rw [value, List.foldl_append, foldl_value]
  rfl

@[simp] theorem value_zeros (k : Nat) : value (List.replicate k 0x30) = 0 := by
  induction k with
  | zero => rfl
  | succ k ih =>
    rw [List.replicate_succ', value_append, ih]
    rfl

theorem value_decimal (n : Nat) : value (decimal n) = n := by
  rw [value, decimal, List.foldl_map]
  have h := Nat.ofDigitChars_ten_toDigits (n := n)
  rw [Nat.ofDigitChars_eq_foldl] at h
  simp only [Nat.mul_comm] at h
  exact h

theorem digits_decimal (n : Nat) : Digits (decimal n) := by
  refine ⟨?_, fun c hc => decimal_digit hc⟩
  rw [decimal, ne_eq, List.map_eq_nil_iff]
  exact Nat.toDigits_ne_nil

theorem Digits.append {s t : Str} (hs : Digits s) (ht : ∀ c ∈ t, IsDigit c) : Digits (s ++ t) :=
  ⟨List.append_ne_nil_of_left_ne_nil hs.1 t, List.forall_mem_append.2 ⟨hs.2, ht⟩⟩

theorem Digits.take {s : Str} (h : Digits s) {k : Nat} (hk : 0 < k) : Digits (s.take k) := by
  refine ⟨?_, fun c hc => h.2 c (List.mem_of_mem_take hc)⟩
  rw [ne_eq, List.take_eq_nil_iff, not_or]
  exact ⟨Nat.ne_of_gt hk, h.1⟩

theorem Digits.drop {s : Str} (h : Digits s) {k : Nat} (hk : k < s.length) : Digits (s.drop k) := by
  refine ⟨?_, fun c hc => h.2 c (List.mem_of_mem_drop hc)⟩
  rw [ne_eq, List.drop_eq_nil_iff]
  exact Nat.not_le_of_lt hk

theorem isDigit_zeros (k : Nat) : ∀ c ∈ List.replicate k 0x30, IsDigit c := by
  intro c hc
  rw [List.eq_of_mem_replicate hc]
  decide

theorem Digits.not_mem {s : Str} (hs : ∀ c ∈ s, IsDigit c) {c : Nat} (hc : ¬IsDigit c) : c ∉ s := hc ∘ hs c

/-! ## Literals -/

abbrev point : Nat := 0x2E
abbrev minus : Nat := 0x2D
/-- `e`, in front of an exponent. -/
abbrev letterE : Nat := 0x65

def readNat (s : Str) : Option Nat := if Digits s then some (value s) else none

def readInt (s : Str) : Option Int :=
  match s with
  | 0x2D :: t => (readNat t).map fun n => -n
  | 0x2B :: t => (readNat t).map Nat.cast
  | t => (readNat t).map Nat.cast

/-- Digits, or digits with a point among them. -/
def readFixed (s : Str) : Option ℚ :=
  match s.splitOn point with
  | [a] => (readNat a).map Nat.cast
  | [a, b] => if Digits a ∧ Digits b then some (value (a ++ b) / 10 ^ b.length) else none
  | _ => none

/-- With an exponent, or without. -/
def readUnsigned (s : Str) : Option ℚ :=
  match s.splitOn letterE with
  | [m] => readFixed m
  | [m, e] => (readFixed m).bind fun q => (readInt e).map fun n => q * 10 ^ n
  | _ => none

def readLiteral (s : Str) : Option ℚ :=
  match s with
  | 0x2D :: t => (readUnsigned t).map (- ·)
  | t => readUnsigned t

example : readLiteral (str "-12.50e-1") = some (-5 / 4) := by decide +kernel

theorem readNat_digits {s : Str} (h : Digits s) : readNat s = some (value s) := if_pos h

theorem readInt_digits {s : Str} (h : Digits s) : readInt s = some (value s : Int) := by
  unfold readInt
  split
  · exact absurd (h.2 _ List.mem_cons_self) (by decide)
  · exact absurd (h.2 _ List.mem_cons_self) (by decide)
  · rw [readNat_digits h]
    rfl

theorem readInt_minus {s : Str} (h : Digits s) : readInt (minus :: s) = some (-(value s : Int)) := by
  rw [readInt, readNat_digits h]
  rfl

theorem readFixed_digits {s : Str} (h : Digits s) : readFixed s = some (value s : ℚ) := by
  rw [readFixed, List.splitOn_eq_singleton (Digits.not_mem h.2 (by decide))]
  dsimp only
  rw [readNat_digits h]
  rfl

theorem readFixed_point {a b : Str} (ha : Digits a) (hb : Digits b) :
    readFixed (a ++ point :: b) = some (value (a ++ b) / 10 ^ b.length : ℚ) := by
  rw [readFixed, List.splitOn_append_cons_self_of_not_mem (Digits.not_mem ha.2 (by decide)),
    List.splitOn_eq_singleton (Digits.not_mem hb.2 (by decide))]
  exact if_pos ⟨ha, hb⟩

theorem letterE_not_mem_fixed {a b : Str} (ha : Digits a) (hb : Digits b) : letterE ∉ a ++ point :: b := by
  rw [List.mem_append, List.mem_cons, not_or, not_or]
  exact ⟨Digits.not_mem ha.2 (by decide), by decide, Digits.not_mem hb.2 (by decide)⟩

theorem readUnsigned_fixed {m : Str} (h : letterE ∉ m) : readUnsigned m = readFixed m := by
  rw [readUnsigned, List.splitOn_eq_singleton h]

theorem readUnsigned_exponent {m e : Str} (hm : letterE ∉ m) (he : letterE ∉ e) {q : ℚ} {n : Int}
    (hq : readFixed m = some q) (hn : readInt e = some n) : readUnsigned (m ++ letterE :: e) = some (q * 10 ^ n) := by
  rw [readUnsigned, List.splitOn_append_cons_self_of_not_mem hm, List.splitOn_eq_singleton he]
  dsimp only
  rw [hq, hn]
  rfl

theorem readLiteral_minus (s : Str) : readLiteral (minus :: s) = (readUnsigned s).map (- ·) := rfl

theorem readLiteral_unsigned {s : Str} (h : s.head? ≠ some minus) : readLiteral s = readUnsigned s := by
  unfold readLiteral
  split
  · exact absurd rfl h
  · rfl

end LinkLib.Decimal
