import CalcBridge.LinkLib.Bytes
import Mathlib.Data.List.DropRight
/-!
# Text as code points

A string is its list of code points, so any text a Python `str` can hold,
lone surrogates included, is a value here. The operations are Python's.
-/

namespace LinkLib

abbrev Str := List Nat

/-- A literal's code points. -/
def str (s : String) : Str := s.toList.map Char.toNat

namespace Text

abbrev space : Nat := 0x20
abbrev newline : Nat := 0x0A

def Printable (c : Nat) : Prop := 0x20 ≤ c ∧ c < 0x7F

instance (c : Nat) : Decidable (Printable c) := inferInstanceAs (Decidable (_ ∧ _))

/-- `str(n)` for a natural number. -/
def decimal (n : Nat) : Str := (Nat.toDigits 10 n).map Char.toNat

/-! ## ASCII -/

/-- `s.encode("ascii")`; `none` is the UnicodeEncodeError. -/
def encodeAscii (s : Str) : Option Bytes :=
  if ∀ c ∈ s, c < 128 then some (s.map UInt8.ofNat) else none

/-- `s.encode("ascii", errors="replace")`. -/
def encodeAsciiReplace (s : Str) : Bytes :=
  s.map fun c => if c < 128 then UInt8.ofNat c else 0x3F

/-- `b.decode("ascii")`; `none` is the UnicodeDecodeError. -/
def decodeAscii (b : Bytes) : Option Str :=
  if b.all fun x => x.toNat < 128 then some (b.map UInt8.toNat) else none

theorem toNat_ofNat {c : Nat} (h : c < 128) : (UInt8.ofNat c).toNat = c := by
  simp only [UInt8.toNat_ofNat']
  omega

theorem encodeAscii_of {s : Str} (h : ∀ c ∈ s, c < 128) : encodeAscii s = some (s.map UInt8.ofNat) := if_pos h

theorem encodeAsciiReplace_of {s : Str} (h : ∀ c ∈ s, c < 128) : encodeAsciiReplace s = s.map UInt8.ofNat :=
  List.map_congr_left fun c hc => if_pos (h c hc)

theorem map_toNat_ofNat {s : Str} (h : ∀ c ∈ s, c < 128) : (s.map UInt8.ofNat).map UInt8.toNat = s := by
  rw [List.map_map]
  conv_rhs => rw [← List.map_id s]
  exact List.map_congr_left fun c hc => toNat_ofNat (h c hc)

/-- Decoding what was encoded gives the text back. -/
theorem decodeAscii_encode {s : Str} (h : ∀ c ∈ s, c < 128) : decodeAscii (s.map UInt8.ofNat) = some s := by
  have hb : (s.map UInt8.ofNat).all fun x => x.toNat < 128 := by
    rw [List.all_eq_true]
    intro x hx
    obtain ⟨c, hc, rfl⟩ := List.mem_map.1 hx
    rw [toNat_ofNat (h c hc)]
    exact decide_eq_true (h c hc)
  rw [decodeAscii, if_pos hb, map_toNat_ofNat h]

theorem printable_lt {c : Nat} (h : Printable c) : c < 128 := by unfold Printable at h; omega

/-- A rendered number is made of digits. -/
theorem decimal_digit {n c : Nat} (h : c ∈ decimal n) : 0x30 ≤ c ∧ c ≤ 0x39 := by
  obtain ⟨d, hd, rfl⟩ := List.mem_map.1 h
  have := Nat.isDigit_of_mem_toDigits (by decide) (by decide) hd
  simp only [Char.isDigit, Bool.and_eq_true, decide_eq_true_eq, ge_iff_le, UInt32.le_iff_toNat_le] at this
  exact this

/-! ## Lines and words -/

/-- `str.isspace` of one character. -/
def isSpace (c : Nat) : Bool :=
  (0x09 ≤ c && c ≤ 0x0D) || (0x1C ≤ c && c ≤ 0x20) || c == 0x85 || c == 0xA0 || c == 0x1680 ||
    (0x2000 ≤ c && c ≤ 0x200A) || c == 0x2028 || c == 0x2029 || c == 0x202F || c == 0x205F || c == 0x3000

/-- `s.rstrip()`. -/
def rstrip (s : Str) : Str := s.rdropWhile isSpace

/-- `s.ljust(n)`. -/
def ljust (s : Str) (n : Nat) : Str := s ++ List.replicate (n - s.length) space

theorem mem_of_mem_rstrip {s : Str} {c : Nat} (h : c ∈ rstrip s) : c ∈ s :=
  (List.rdropWhile_prefix isSpace s).subset h

theorem rstrip_last (s : Str) : (rstrip s).getLast? ≠ some space := by
  intro h
  have hne : s.rdropWhile isSpace ≠ [] := by
    intro hnil
    rw [rstrip, hnil] at h
    cases h
  have hend := Option.some.inj ((List.getLast?_eq_some_getLast hne).symm.trans h)
  exact List.rdropWhile_last_not isSpace s hne (by rw [hend]; rfl)

@[simp] theorem length_ljust (s : Str) (n : Nat) : (ljust s n).length = max s.length n := by
  simp [ljust]; omega

theorem mem_ljust {s : Str} {n c : Nat} (h : c ∈ ljust s n) : c ∈ s ∨ c = space := by
  rcases List.mem_append.1 h with h | h
  · exact .inl h
  · exact .inr (List.eq_of_mem_replicate h)

theorem lookup_mem {α β : Type} [BEq α] [LawfulBEq α] {l : List (α × β)} {k : α} {v : β} (h : l.lookup k = some v) :
    (k, v) ∈ l := by
  obtain ⟨l₁, l₂, rfl, -⟩ := List.lookup_eq_some_iff.1 h
  simp

/-- The fields of a split hold only elements of the whole. -/
theorem mem_of_mem_splitOn {α : Type} [DecidableEq α] {sep : α} {l w : List α} (hw : w ∈ l.splitOn sep)
    {x : α} (hx : x ∈ w) : x ∈ l := by
  induction l generalizing w with
  | nil => simp at hw; simp [hw] at hx
  | cons a l ih =>
    rw [List.splitOn_cons_eq_if_modifyHead] at hw
    split at hw
    · rcases List.mem_cons.1 hw with rfl | hw
      · cases hx
      · exact List.mem_cons_of_mem _ (ih hw hx)
    · -- `a` is no separator: it goes in front of the first field.
      cases hl : l.splitOn sep with
      | nil => simp [hl] at hw
      | cons u us =>
        rw [hl, List.modifyHead_cons] at hw
        rcases List.mem_cons.1 hw with rfl | hw
        · rcases List.mem_cons.1 hx with rfl | hx
          · simp
          · exact List.mem_cons_of_mem _ (ih (by simp [hl]) hx)
        · exact List.mem_cons_of_mem _ (ih (by simp [hl, hw]) hx)

/-- The fields of a split are free of the separator. -/
theorem not_mem_of_mem_splitOn {α : Type} [DecidableEq α] {sep : α} {l w : List α} (hw : w ∈ l.splitOn sep) : sep ∉ w := by
  induction l generalizing w with
  | nil =>
    rw [List.splitOn_nil, List.mem_singleton] at hw
    rw [hw]
    exact List.not_mem_nil
  | cons a l ih =>
    rw [List.splitOn_cons_eq_if_modifyHead] at hw
    split at hw
    · rcases List.mem_cons.1 hw with rfl | hw
      · exact List.not_mem_nil
      · exact ih hw
    · rename_i ha
      obtain ⟨u, us, hl⟩ := List.exists_cons_of_ne_nil (List.splitOn_ne_nil sep l)
      rw [hl, List.modifyHead_cons] at hw
      rw [hl] at ih
      rcases List.mem_cons.1 hw with rfl | hw
      · rw [List.mem_cons, not_or]
        exact ⟨fun h => ha (by rw [h, beq_self_eq_true]), ih List.mem_cons_self⟩
      · exact ih (List.mem_cons_of_mem u hw)

end Text

end LinkLib
