import Mathlib.Data.List.DropRight
import CalcBridge.LinkLib.Decimal
import CalcBridge.Packet
import CalcBridge.Vartypes
/-!
# Reals as text and as bytes (`src/vartypes.py`)

A real is a sign bit, a biased decimal exponent and 14 BCD digits.
-/
open LinkLib LinkLib.Text LinkLib.Decimal

namespace CalcBridge.Vartypes

/-! ## The functions -/

/-- `str(n)`. -/
def strInt (n : Int) : Str := if n < 0 then minus :: decimal n.natAbs else decimal n.natAbs

/-- `"{:014d}".format(n)`. -/
def format014d (n : Nat) : Str := List.replicate (14 - (decimal n).length) 0x30 ++ decimal n

/-- `parse_real_str`, of 9 bytes. -/
def parseRealStr (b : Bytes) : Str :=
  let (sign, exp, digits) := parseRealParts b
  if digits = 0 then str "0"
  else
    let s := (format014d digits).rdropWhile (· == 0x30)
    let s := if s = [] then str "0" else s
    let body :=
      if 0 ≤ exp ∧ exp < 14 ∧ s.length ≤ exp + 1 then s ++ List.replicate (exp + 1 - s.length).toNat 0x30
      else if 0 ≤ exp ∧ exp < 14 then s.take (exp + 1).toNat ++ point :: s.drop (exp + 1).toNat
      else if exp < 0 ∧ -5 < exp then str "0." ++ List.replicate (-exp - 1).toNat 0x30 ++ s
      else s.take 1 ++ (if 1 < s.length then point :: s.drop 1 else []) ++ letterE :: strInt exp
    (if sign < 0 then [minus] else []) ++ body

/-- `parse_real_list_str`. `none` is the IndexError when the data ends in the count or in a real. -/
def parseRealListStr (data : Bytes) : Option (List Str) :=
  if data.length < 2 then none
  else
    let n := word (data.getD 0 0) (data.getD 1 0)
    (List.range n).mapM fun i =>
      let b := (data.drop (2 + i * 9)).take 9
      if b.length < 9 then none else some (parseRealStr b)

/-- Nine bytes with 14 BCD digits behind the sign and the exponent. -/
structure TiReal where
  bytes : Bytes
  length : bytes.length = 9
  bcd : (bytes.drop 2).all fun b => b.toNat >>> 4 ≤ 9 ∧ b.toNat &&& 0x0F ≤ 9

/-- `sign * digits * 10^(exp-13)`. -/
def TiReal.value (r : TiReal) : ℚ :=
  let (sign, exp, digits) := parseRealParts r.bytes
  sign * digits * 10 ^ (exp - 13)

example : parseRealStr [0x80, 0x7B, 0x10, 0, 0, 0, 0, 0, 0] = str "-1e-5" := by decide

/-! ## Displaying -/

theorem length_decimal_le {n k : Nat} (hk : 0 < k) : (decimal n).length ≤ k ↔ n < 10 ^ k := by
  rw [decimal, List.length_map, Nat.length_toDigits_le_iff (by decide) hk]

theorem format014d_spec {n : Nat} (h : n < 10 ^ 14) :
    (format014d n).length = 14 ∧ (∀ c ∈ format014d n, IsDigit c) ∧ value (format014d n) = n := by
  refine ⟨?_, ?_, ?_⟩
  · have := (length_decimal_le (by decide)).2 h
    rw [format014d, List.length_append, List.length_replicate]
    omega
  · exact List.forall_mem_append.2 ⟨isDigit_zeros _, (digits_decimal n).2⟩
  · rw [format014d, value_append, value_zeros, value_decimal, Nat.zero_mul, Nat.zero_add]

/-- The digits without the zeros at their end. -/
def stripped (n : Nat) : Str := (format014d n).rdropWhile (· == 0x30)

/-- Stripping the zeros at the end divides by as many tens. -/
theorem stripped_spec {n : Nat} (h : n < 10 ^ 14) :
    (stripped n).length ≤ 14 ∧ (∀ c ∈ stripped n, IsDigit c) ∧ value (stripped n) * 10 ^ (14 - (stripped n).length) = n := by
  obtain ⟨hlen, hdigits, hvalue⟩ := format014d_spec h
  have hsplit : stripped n ++ (format014d n).rtakeWhile (· == 0x30) = format014d n := List.rdropWhile_append_rtakeWhile ..
  have hzeros : (format014d n).rtakeWhile (· == 0x30) = List.replicate ((format014d n).rtakeWhile (· == 0x30)).length 0x30 := by
    rw [List.eq_replicate_iff]
    refine ⟨rfl, ?_⟩
    intro c hc
    have := List.mem_rtakeWhile_imp hc
    exact eq_of_beq this
  have hsum := congrArg List.length hsplit
  rw [List.length_append, hlen] at hsum
  refine ⟨by omega, ?_, ?_⟩
  · intro c hc
    exact hdigits c (hsplit ▸ List.mem_append_left _ hc)
  · have hv := congrArg value hsplit
    rw [hzeros, value_append, value_zeros, List.length_replicate, hvalue, Nat.add_zero] at hv
    rwa [show 14 - (stripped n).length = ((format014d n).rtakeWhile (· == 0x30)).length by omega]

/-- Pairs of digits fill the places of the mantissa. -/
theorem pairs_lt (hi lo : Nat → Nat) (k : Nat) (h : ∀ i < k, hi i * 10 + lo i < 100) :
    (List.range k).foldl (fun acc i => acc * 100 + hi i * 10 + lo i) 0 < 100 ^ k := by
  induction k with
  | zero => exact Nat.one_pos
  | succ k ih =>
    have hlast := h k (Nat.lt_succ_self k)
    have hinit := ih fun i hi => h i (Nat.lt_succ_of_lt hi)
    rw [List.range_succ, List.foldl_append, List.foldl_cons, List.foldl_nil, pow_succ]
    omega

theorem TiReal.digits_lt (r : TiReal) : (parseRealParts r.bytes).2.2 < 10 ^ 14 := by
  have hpair : ∀ i < 7, ((r.bytes.getD (2 + i) 0).toNat >>> 4) * 10 + ((r.bytes.getD (2 + i) 0).toNat &&& 0x0F) < 100 := by
    intro i hi
    have hlen : 2 + i < r.bytes.length := by
      rw [r.length]
      omega
    have hmem : r.bytes.getD (2 + i) 0 ∈ r.bytes.drop 2 := by
      rw [List.mem_iff_getElem?]
      refine ⟨i, ?_⟩
      rw [List.getElem?_drop, List.getD_eq_getElem?_getD, List.getElem?_eq_getElem hlen, Option.getD_some]
    have := List.all_eq_true.1 r.bcd _ hmem
    rw [decide_eq_true_eq] at this
    omega
  have hlt := pairs_lt (fun i => (r.bytes.getD (2 + i) 0).toNat >>> 4) (fun i => (r.bytes.getD (2 + i) 0).toNat &&& 0x0F)
    7 hpair
  exact Nat.lt_of_lt_of_eq hlt (by norm_num)

theorem strInt_reads (n : Int) : readInt (strInt n) = some n := by
  unfold strInt
  split
  · rw [readInt_minus (digits_decimal _), value_decimal]
    rw [Option.some.injEq]
    omega
  · rw [readInt_digits (digits_decimal _), value_decimal]
    rw [Option.some.injEq]
    omega

theorem letterE_not_mem_strInt (n : Int) : letterE ∉ strInt n := by
  have hdigits : letterE ∉ decimal n.natAbs := Digits.not_mem (digits_decimal _).2 (by decide)
  unfold strInt
  split
  · exact List.not_mem_cons_of_ne_of_not_mem (by decide) hdigits
  · exact hdigits

/-- The body of the text, from the stripped digits. -/
def bodyOf (s : Str) (exp : Int) : Str :=
  if 0 ≤ exp ∧ exp < 14 ∧ s.length ≤ exp + 1 then s ++ List.replicate (exp + 1 - s.length).toNat 0x30
  else if 0 ≤ exp ∧ exp < 14 then s.take (exp + 1).toNat ++ point :: s.drop (exp + 1).toNat
  else if exp < 0 ∧ -5 < exp then str "0." ++ List.replicate (-exp - 1).toNat 0x30 ++ s
  else s.take 1 ++ (if 1 < s.length then point :: s.drop 1 else []) ++ letterE :: strInt exp

theorem mul_ten_pow {v : ℚ} {k : Nat} {n : Int} (h : n = k) : v * 10 ^ k = v * 10 ^ n := by
  rw [h, zpow_natCast]

theorem div_ten_pow {v : ℚ} {k : Nat} {n : Int} (h : n = -k) : v / 10 ^ k = v * 10 ^ n := by
  rw [h, zpow_neg, zpow_natCast, div_eq_mul_inv]

/-- The first digit, and the others behind the point. -/
theorem readFixed_first {s : Str} (hs : Digits s) :
    letterE ∉ s.take 1 ++ (if 1 < s.length then point :: s.drop 1 else []) ∧
      readFixed (s.take 1 ++ if 1 < s.length then point :: s.drop 1 else []) = some (value s / 10 ^ (s.length - 1) : ℚ) := by
  split
  · rename_i h
    have ha := hs.take Nat.one_pos
    have hb := hs.drop h
    refine ⟨letterE_not_mem_fixed ha hb, ?_⟩
    rw [readFixed_point ha hb, List.take_append_drop, List.length_drop]
  · rename_i h
    have hone : s.take 1 = s := List.take_of_length_le (by omega)
    rw [List.append_nil, hone]
    refine ⟨Digits.not_mem hs.2 (by decide), ?_⟩
    rw [readFixed_digits hs, Nat.sub_eq_zero_of_le (by omega), pow_zero, div_one]

/-- Each form of the body moves the point to the place the exponent tells. -/
theorem readUnsigned_bodyOf {s : Str} (hs : Digits s) (exp : Int) :
    readUnsigned (bodyOf s exp) = some ((value s : ℚ) * 10 ^ (exp + 1 - s.length)) := by
  unfold bodyOf
  split
  · rename_i h
    have hbody := hs.append (isDigit_zeros (exp + 1 - s.length).toNat)
    rw [readUnsigned_fixed (Digits.not_mem hbody.2 (by decide)), readFixed_digits hbody, value_append, value_zeros,
      List.length_replicate, Nat.add_zero, Nat.cast_mul, Nat.cast_pow]
    exact congrArg some (mul_ten_pow (by omega))
  · split
    · rename_i h h'
      have ha : Digits (s.take (exp + 1).toNat) := hs.take (by omega)
      have hb : Digits (s.drop (exp + 1).toNat) := hs.drop (by omega)
      rw [readUnsigned_fixed (letterE_not_mem_fixed ha hb), readFixed_point ha hb, List.take_append_drop, List.length_drop]
      exact congrArg some (div_ten_pow (by omega))
    · split
      · rename_i h
        have hb : Digits (List.replicate (-exp - 1).toNat 0x30 ++ s) :=
          ⟨List.append_ne_nil_of_right_ne_nil _ hs.1, List.forall_mem_append.2 ⟨isDigit_zeros _, hs.2⟩⟩
        have hbody : str "0." ++ List.replicate (-exp - 1).toNat 0x30 ++ s =
            [0x30] ++ point :: (List.replicate (-exp - 1).toNat 0x30 ++ s) := rfl
        have ha : Digits [0x30] := by decide
        have hvalue : value ([0x30] ++ (List.replicate (-exp - 1).toNat 0x30 ++ s)) = value s := by
          rw [value_append, value_append, value_zeros, Nat.zero_mul, Nat.zero_add]
          exact Nat.add_eq_right.2 (Nat.zero_mul _)
        rw [hbody, readUnsigned_fixed (letterE_not_mem_fixed ha hb), readFixed_point ha hb, hvalue, List.length_append,
          List.length_replicate]
        exact congrArg some (div_ten_pow (by omega))
      · obtain ⟨hmem, hread⟩ := readFixed_first hs
        have hlen := List.length_pos_iff.2 hs.1
        rw [readUnsigned_exponent hmem (letterE_not_mem_strInt exp) hread (strInt_reads exp),
          div_ten_pow (n := 1 - s.length) (by omega), mul_assoc, ← zpow_add₀ (by norm_num)]
        refine congrArg (fun k : Int => some ((value s : ℚ) * 10 ^ k)) ?_
        omega

theorem head_bodyOf {s : Str} (hs : Digits s) (exp : Int) : (bodyOf s exp).head? ≠ some minus := by
  obtain ⟨c, t, rfl⟩ := List.exists_cons_of_ne_nil hs.1
  have hc : some c ≠ some minus := by
    intro h
    have := hs.2 c List.mem_cons_self
    rw [Option.some.inj h] at this
    exact absurd this (by decide)
  unfold bodyOf
  split
  · exact hc
  · split
    · rename_i h
      obtain ⟨k, hk⟩ : ∃ k, (exp + 1).toNat = k + 1 := ⟨exp.toNat, by omega⟩
      rw [hk]
      exact hc
    · split
      · exact nofun
      · exact hc

theorem parseRealParts_sign (b : Bytes) : (parseRealParts b).1 = 1 ∨ (parseRealParts b).1 = -1 := by
  unfold parseRealParts
  dsimp only
  split
  · exact Or.inr rfl
  · exact Or.inl rfl

theorem digits_stripped {n : Nat} (h : n < 10 ^ 14) (h0 : n ≠ 0) : Digits (stripped n) := by
  obtain ⟨-, hdigits, hvalue⟩ := stripped_spec h
  refine ⟨?_, hdigits⟩
  intro hnil
  rw [hnil, value_nil, Nat.zero_mul] at hvalue
  exact h0 hvalue.symm

/-- The text of a real is its value. -/
theorem readLiteral_parseRealStr (r : TiReal) : readLiteral (parseRealStr r.bytes) = some r.value := by
  have hlt := r.digits_lt
  have hsign := parseRealParts_sign r.bytes
  unfold parseRealStr TiReal.value
  generalize parseRealParts r.bytes = parts at hlt hsign
  obtain ⟨sign, exp, digits⟩ := parts
  dsimp only at hlt hsign ⊢
  split
  · rename_i h
    rw [h, Nat.cast_zero, mul_zero, zero_mul]
    decide +kernel
  · rename_i h
    have hs := digits_stripped hlt h
    obtain ⟨hlen, -, hvalue⟩ := stripped_spec hlt
    have hread := readUnsigned_bodyOf hs exp
    have hscale : (value (stripped digits) : ℚ) * 10 ^ (exp + 1 - (stripped digits).length) = digits * 10 ^ (exp - 13) := by
      have hcast : (digits : ℚ) = value (stripped digits) * 10 ^ (14 - (stripped digits).length) := by
        exact_mod_cast hvalue.symm
      rw [hcast, mul_ten_pow (n := 14 - (stripped digits).length) (by omega), mul_assoc, ← zpow_add₀ (by norm_num)]
      refine congrArg (fun k : Int => (value (stripped digits) : ℚ) * 10 ^ k) ?_
      omega
    have hs' : (if stripped digits = [] then str "0" else stripped digits) = stripped digits := if_neg hs.1
    show readLiteral ((if sign < 0 then [minus] else []) ++
      bodyOf (if stripped digits = [] then str "0" else stripped digits) exp) = _
    rw [hs']
    rcases hsign with rfl | rfl
    · rw [if_neg (by decide), List.nil_append, readLiteral_unsigned (head_bodyOf hs exp), hread, hscale, Int.cast_one, one_mul]
    · rw [if_pos (by decide), List.singleton_append, readLiteral_minus, hread, hscale, Option.map_some, Int.cast_neg,
        Int.cast_one, neg_one_mul, neg_mul]

/-! ## Lists -/

/-- The bytes of a real in a list of them, whatever follows. -/
theorem slice_reals (reals : List TiReal) (rest : Bytes) {i : Nat} (hi : i < reals.length) :
    (((reals.map TiReal.bytes).flatten ++ rest).drop (i * 9)).take 9 = reals[i].bytes := by
  induction reals generalizing i with
  | nil => exact absurd hi (Nat.not_lt_zero i)
  | cons r reals ih =>
    rw [List.map_cons, List.flatten_cons, List.append_assoc]
    cases i with
    | zero => exact List.take_left' r.length
    | succ i =>
      rw [show (i + 1) * 9 = r.bytes.length + i * 9 by rw [r.length]; omega, ← List.drop_drop, List.drop_left]
      exact ih (Nat.lt_of_succ_lt_succ hi)

theorem mapM_some {α β : Type} {f : α → Option β} {g : α → β} {l : List α} (h : ∀ a ∈ l, f a = some (g a)) :
    l.mapM f = some (l.map g) := by
  induction l with
  | nil => rfl
  | cons a l ih =>
    rw [List.forall_mem_cons] at h
    rw [List.mapM_cons, h.1, ih h.2]
    rfl

/-- The payload of a list: the count and the reals. -/
def listPayload (reals : List TiReal) : Bytes := wordBytes reals.length ++ (reals.map TiReal.bytes).flatten

/-- What follows the reals is not looked at. -/
theorem parseRealListStr_append {reals : List TiReal} (h : reals.length < 65536) (rest : Bytes) :
    parseRealListStr (listPayload reals ++ rest) = some (reals.map fun r => parseRealStr r.bytes) := by
  have hlen : ¬(listPayload reals ++ rest).length < 2 := by
    rw [listPayload, List.length_append, List.length_append, Nat.add_assoc]
    exact Nat.not_lt_of_le (Nat.le_add_right 2 _)
  have hcount : word ((listPayload reals ++ rest).getD 0 0) ((listPayload reals ++ rest).getD 1 0) = reals.length :=
    Bytes.word_split h
  have hslice : ∀ i (hi : i < reals.length), ((listPayload reals ++ rest).drop (2 + i * 9)).take 9 = reals[i].bytes := by
    intro i hi
    rw [← List.drop_drop]
    exact slice_reals reals rest hi
  rw [parseRealListStr, if_neg hlen]
  dsimp only
  rw [hcount, mapM_some (g := fun i => parseRealStr (((listPayload reals ++ rest).drop (2 + i * 9)).take 9))]
  · congr 1
    apply List.ext_getElem
    · rw [List.length_map, List.length_map, List.length_range]
    · intro i hi hi'
      rw [List.length_map] at hi'
      rw [List.getElem_map, List.getElem_map, List.getElem_range, hslice i hi']
  · intro i hi
    rw [hslice i (List.mem_range.1 hi)]
    exact if_neg (by rw [TiReal.length]; decide)

theorem parseRealListStr_payload {reals : List TiReal} (h : reals.length < 65536) :
    parseRealListStr (listPayload reals) = some (reals.map fun r => parseRealStr r.bytes) := by
  simpa using parseRealListStr_append h []

/-- `text` displays `r` without loss. -/
def Shows (r : TiReal) (text : Str) : Prop := text = parseRealStr r.bytes ∧ readLiteral text = some r.value

/-- Displaying is lossless: the text of a real is a literal for its value, and
that of a list has one such text for each real. -/
theorem display_lossless :
    (∀ r : TiReal, Shows r (parseRealStr r.bytes)) ∧
      ∀ reals : List TiReal, reals.length < 65536 →
        ∃ texts, parseRealListStr (listPayload reals) = some texts ∧ List.Forall₂ Shows reals texts := by
  have hshows : ∀ r : TiReal, Shows r (parseRealStr r.bytes) := fun r => ⟨rfl, readLiteral_parseRealStr r⟩
  refine ⟨hshows, ?_⟩
  intro reals h
  refine ⟨_, parseRealListStr_payload h, ?_⟩
  rw [List.forall₂_map_right_iff, List.forall₂_same]
  intro r _
  exact hshows r

def onePointFive : TiReal := ⟨[0x00, 0x80, 0x15, 0, 0, 0, 0, 0, 0], rfl, by decide⟩

def minusTiny : TiReal := ⟨[0x80, 0x7B, 0x10, 0, 0, 0, 0, 0, 0], rfl, by decide⟩

theorem display_lossless_two :
    Shows minusTiny (parseRealStr minusTiny.bytes) ∧ ∃ texts,
      parseRealListStr (listPayload [onePointFive, minusTiny]) = some texts ∧ List.Forall₂ Shows [onePointFive, minusTiny] texts :=
  ⟨display_lossless.1 _, display_lossless.2 _ (by decide)⟩

/-! ## Encoding -/

/-- The digit of `m` with 13 others behind the first one. -/
def digitOf (m i : Nat) : Nat := m / 10 ^ (13 - i) % 10

/-- Taking the digits two by two gives the number again. -/
theorem pairs_eq {m : Nat} (h : m < 10 ^ 14) {k : Nat} (hk : k ≤ 7) :
    (List.range k).foldl (fun acc i => acc * 100 + digitOf m (2 * i) * 10 + digitOf m (2 * i + 1)) 0 =
      m / 10 ^ (14 - 2 * k) := by
  induction k with
  | zero => exact (Nat.div_eq_of_lt h).symm
  | succ k ih =>
    rw [List.range_succ, List.foldl_append, ih (Nat.le_of_succ_le hk), List.foldl_cons, List.foldl_nil, digitOf, digitOf]
    obtain ⟨j, hj⟩ : ∃ j, 14 - 2 * k = j + 2 := ⟨12 - 2 * k, by omega⟩
    rw [show 14 - 2 * (k + 1) = j by omega, show 13 - 2 * k = j + 1 by omega, show 13 - (2 * k + 1) = j by omega, hj,
      pow_succ, pow_succ, ← Nat.div_div_eq_div_mul, ← Nat.div_div_eq_div_mul]
    omega

/-- The exponent as `format13e` writes it: two digits at least. -/
def exponentText (e : Int) : Str :=
  (if e < 0 then str "-" else str "+") ++ (if (decimal e.natAbs).length < 2 then str "0" else []) ++ decimal e.natAbs

theorem parseInt_exponentText (e : Int) : parseInt (exponentText e) = e := by
  have hpad : value ((if (decimal e.natAbs).length < 2 then str "0" else []) ++ decimal e.natAbs) = e.natAbs := by
    rw [value_append, value_decimal]
    split <;> exact (congrArg (· + _) (Nat.zero_mul _)).trans (Nat.zero_add _)
  rw [exponentText, List.append_assoc]
  generalize (if (decimal e.natAbs).length < 2 then str "0" else []) ++ decimal e.natAbs = t at hpad ⊢
  split
  · show -((value t : Nat) : Int) = e
    omega
  · show ((value t : Nat) : Int) = e
    omega

theorem letterE_not_mem_exponentText (e : Int) : letterE ∉ exponentText e := by
  have hdigits : letterE ∉ decimal e.natAbs := Digits.not_mem (digits_decimal _).2 (by decide)
  unfold exponentText
  rw [List.mem_append, List.mem_append, not_or, not_or]
  refine ⟨⟨?_, ?_⟩, hdigits⟩
  · split <;> decide
  · split <;> decide

/-- The 14 digits as characters. -/
def digitText (m : Nat) : Str := (List.range 14).map fun i => 0x30 + digitOf m i

theorem isDigit_digitText (m : Nat) : ∀ c ∈ digitText m, IsDigit c := by
  intro c hc
  obtain ⟨i, -, rfl⟩ := List.mem_map.1 hc
  have : digitOf m i < 10 := Nat.mod_lt _ (by decide)
  constructor <;> omega

theorem format13e_eq (m : Nat) (e : Int) :
    format13e m e = ((digitText m).take 1 ++ point :: (digitText m).drop 1) ++ letterE :: exponentText e := by
  simp only [format13e, exponentText, List.append_assoc]
  rfl

/-- What `encode_real` finds in the text: the digits and the exponent. -/
theorem format13e_parts (m : Nat) (e : Int) :
    (format13e m e).splitOn 0x65 = [(digitText m).take 1 ++ point :: (digitText m).drop 1, exponentText e] ∧
      ((digitText m).take 1 ++ point :: (digitText m).drop 1).filter (· ≠ 0x2E) = digitText m := by
  have hd : Digits (digitText m) := ⟨List.cons_ne_nil _ _, isDigit_digitText m⟩
  have hmem : letterE ∉ (digitText m).take 1 ++ point :: (digitText m).drop 1 :=
    letterE_not_mem_fixed (hd.take Nat.one_pos) (hd.drop (by rw [digitText, List.length_map, List.length_range]; decide))
  refine ⟨?_, ?_⟩
  · rw [format13e_eq, List.splitOn_append_cons_self_of_not_mem hmem,
      List.splitOn_eq_singleton (letterE_not_mem_exponentText e)]
  · have hfree : ∀ c ∈ digitText m, decide (c ≠ 0x2E) = true := by
      intro c hc
      have := (isDigit_digitText m c hc).1
      rw [decide_eq_true_eq]
      omega
    rw [List.filter_append, List.filter_cons_of_neg (by decide), ← List.filter_append, List.take_append_drop,
      List.filter_eq_self.2 hfree]

theorem getD_digitText (m : Nat) {i : Nat} (hi : i < 14) : (digitText m).getD i 0 - 0x30 = digitOf m i := by
  rw [digitText, List.getD_eq_getElem?_getD, List.getElem?_map, List.getElem?_range hi, Option.map_some, Option.getD_some,
    Nat.add_sub_cancel_left]

/-- The byte with two digits in it. -/
def pairByte (m i : Nat) : UInt8 := UInt8.ofNat (digitOf m (2 * i) <<< 4 ||| digitOf m (2 * i + 1))

theorem encodeReal_sci (neg : Bool) (m : Nat) (e : Int) :
    encodeReal (.sci neg m e) =
      [if neg then 0x80 else 0x00, UInt8.ofNat ((e + 0x80) % 256).toNat] ++ (List.range 7).map (pairByte m) := by
  obtain ⟨hsplit, hfilter⟩ := format13e_parts m e
  have hlen : (digitText m).length = 14 := by rw [digitText, List.length_map, List.length_range]
  have hdigits : (if (digitText m).length < 14 then digitText m ++ List.replicate (14 - (digitText m).length) 0x30
      else (digitText m).take 14) = digitText m := by
    rw [if_neg (by omega), List.take_of_length_le (by omega)]
  simp only [encodeReal, hsplit, List.getD_cons_zero, List.getD_cons_succ, hfilter, hdigits, parseInt_exponentText]
  congr 1
  apply List.map_congr_left
  intro i hi
  have := List.mem_range.1 hi
  rw [getD_digitText m (by omega), getD_digitText m (by omega)]
  rfl

theorem pairByte_split (m i : Nat) :
    (pairByte m i).toNat >>> 4 = digitOf m (2 * i) ∧ (pairByte m i).toNat &&& 0x0F = digitOf m (2 * i + 1) := by
  have hhi : digitOf m (2 * i) < 10 := Nat.mod_lt _ (by decide)
  have hlo : digitOf m (2 * i + 1) < 10 := Nat.mod_lt _ (by decide)
  rw [pairByte]
  generalize digitOf m (2 * i) = a at hhi ⊢
  generalize digitOf m (2 * i + 1) = b at hlo ⊢
  rw [← Nat.shiftLeft_add_eq_or_of_lt (show b < 2 ^ 4 by omega), Nat.shiftLeft_eq, UInt8.toNat_ofNat',
    Nat.shiftRight_eq_div_pow, Nat.and_two_pow_sub_one_eq_mod _ 4]
  omega

/-- The digits come back, and the exponent as far as one byte holds it. -/
theorem parseRealParts_encodeReal {m : Nat} (h : m < 10 ^ 14) (neg : Bool) (e : Int) :
    parseRealParts (encodeReal (.sci neg m e)) = (if neg then -1 else 1, (e + 0x80) % 256 - 0x80, m) := by
  rw [encodeReal_sci]
  have hexp : ((UInt8.ofNat ((e + 0x80) % 256).toNat).toNat : Int) = (e + 0x80) % 256 := by
    rw [UInt8.toNat_ofNat']
    omega
  have hpair : ∀ i < 7, ([if neg then 0x80 else 0x00, UInt8.ofNat ((e + 0x80) % 256).toNat] ++
      (List.range 7).map (pairByte m)).getD (2 + i) 0 = pairByte m i := by
    intro i hi
    rw [Nat.add_comm, List.getD_eq_getElem?_getD]
    show (((List.range 7).map (pairByte m))[i]?).getD 0 = _
    rw [List.getElem?_map, List.getElem?_range hi]
    rfl
  have hdigits := (pairs_eq h (Nat.le_refl 7)).trans (Nat.div_one m)
  refine Prod.ext ?_ (Prod.ext ?_ ?_)
  · cases neg with
    | false => exact if_neg (by decide : ¬((0x00 : UInt8) &&& 0x80 ≠ 0))
    | true => exact if_pos (by decide : (0x80 : UInt8) &&& 0x80 ≠ 0)
  · exact congrArg (· - (0x80 : Int)) hexp
  · refine Eq.trans ?_ hdigits
    apply List.foldl_ext
    intro acc i hi
    obtain ⟨hhi, hlo⟩ := pairByte_split m i
    rw [hpair i (List.mem_range.1 hi), hhi, hlo]

/-- The nine bytes of a number give back its sign, exponent and digits. -/
def Recovers (neg : Bool) (m : Nat) (e : Int) : Prop :=
  (encodeReal (.sci neg m e)).length = 9 ∧
    parseRealParts (encodeReal (.sci neg m e)) = (if neg then -1 else 1, e, m)

/-- A number comes back from its bytes exactly when its exponent fits in the byte. -/
theorem recovers_iff {m : Nat} (h : m < 10 ^ 14) (neg : Bool) (e : Int) : Recovers neg m e ↔ -128 ≤ e ∧ e ≤ 127 := by
  rw [Recovers, parseRealParts_encodeReal h, encodeReal_sci, Prod.mk.injEq, Prod.mk.injEq]
  constructor
  · rintro ⟨-, -, he, -⟩
    omega
  · intro he
    exact ⟨rfl, rfl, by omega, rfl⟩

theorem recovers_iff_1e100 : Recovers false (10 ^ 13) 100 ↔ -128 ≤ (100 : Int) ∧ (100 : Int) ≤ 127 :=
  recovers_iff (by decide) false 100

/-- 1e200 becomes 1e-56. -/
theorem not_recovers_1e200 :
    parseRealParts (encodeReal (.sci false (10 ^ 13) 200)) = (1, -56, 10 ^ 13) ∧ ¬Recovers false (10 ^ 13) 200 := by
  have hparts : parseRealParts (encodeReal (.sci false (10 ^ 13) 200)) = (1, -56, 10 ^ 13) := by decide
  refine ⟨hparts, ?_⟩
  rintro ⟨-, h⟩
  rw [hparts] at h
  exact absurd h (by decide)

end CalcBridge.Vartypes
