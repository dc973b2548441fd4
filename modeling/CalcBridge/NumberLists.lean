import CalcBridge.Reals
/-!
# Lists of numbers (`src/vartypes.py`)

`encode_real_list` writes what `parse_real_list_str` reads, as far as the count
fits in two bytes and every exponent in one.
-/
open LinkLib LinkLib.Decimal

namespace CalcBridge.Vartypes

/-- `encode_real_list`. -/
def encodeRealList (values : List Number) : Bytes := wordBytes values.length ++ values.flatMap encodeReal

/-! ## Numbers and their bytes -/

/-- What `"{:.13e}"` writes: 14 digits, the first of them not 0. -/
def Number.Normal : Number → Prop
  | .zero => True
  | .sci _ m _ => 10 ^ 13 ≤ m ∧ m < 10 ^ 14

/-- The exponent fits in its byte. -/
def Number.Fits : Number → Prop
  | .zero => True
  | .sci _ _ e => -128 ≤ e ∧ e ≤ 127

def Number.value : Number → ℚ
  | .zero => 0
  | .sci neg m e => (if neg then -1 else 1) * m * 10 ^ (e - 13)

instance : DecidablePred Number.Normal
  | .zero => inferInstanceAs (Decidable True)
  | .sci .. => inferInstanceAs (Decidable (_ ∧ _))

instance : DecidablePred Number.Fits
  | .zero => inferInstanceAs (Decidable True)
  | .sci .. => inferInstanceAs (Decidable (_ ∧ _))

theorem length_encodeReal (v : Number) : (encodeReal v).length = 9 := by
  cases v with
  | zero => rfl
  | sci neg m e => rw [encodeReal_sci]; rfl

theorem bcd_encodeReal (v : Number) :
    ((encodeReal v).drop 2).all fun b => b.toNat >>> 4 ≤ 9 ∧ b.toNat &&& 0x0F ≤ 9 := by
  cases v with
  | zero => decide
  | sci neg m e =>
    rw [encodeReal_sci]
    show ((List.range 7).map (pairByte m)).all _ = true
    rw [List.all_map, List.all_eq_true]
    intro i _
    obtain ⟨hhi, hlo⟩ := pairByte_split m i
    have hhi' : digitOf m (2 * i) < 10 := Nat.mod_lt _ (by decide)
    have hlo' : digitOf m (2 * i + 1) < 10 := Nat.mod_lt _ (by decide)
    rw [Function.comp_apply, decide_eq_true_eq, hhi, hlo]
    omega

/-- The bytes of a number, as `parse_real_str` reads them. -/
def Number.real (v : Number) : TiReal := ⟨encodeReal v, length_encodeReal v, bcd_encodeReal v⟩

theorem encodeRealList_eq (values : List Number) : encodeRealList values = listPayload (values.map Number.real) := by
  rw [encodeRealList, listPayload, List.length_map, List.map_map]
  rfl

/-- The bytes stand for the number exactly when its exponent fits. -/
theorem Number.real_value_iff {v : Number} (h : v.Normal) : v.real.value = v.value ↔ v.Fits := by
  cases v with
  | zero =>
    refine iff_of_true ?_ trivial
    have hparts : parseRealParts (encodeReal .zero) = (1, 0, 0) := by decide
    simp [TiReal.value, Number.real, hparts, Number.value]
  | sci neg m e =>
    obtain ⟨hpos, hlt⟩ := h
    have hm : (m : ℚ) ≠ 0 := by
      rw [Nat.cast_ne_zero]
      omega
    have hneg : (if neg then -1 else 1 : ℚ) ≠ 0 := by split <;> norm_num
    simp only [TiReal.value, Number.real, parseRealParts_encodeReal hlt, Number.value, Number.Fits]
    have hcast : (((if neg then -1 else 1 : Int) : Int) : ℚ) = if neg then -1 else 1 := by split <;> norm_num
    rw [hcast, mul_right_inj' (mul_ne_zero hneg hm), zpow_right_inj₀ (by norm_num) (by norm_num)]
    omega

/-! ## Lists -/

/-- Each text reads as its number. -/
def ReadsBack (values : List Number) (texts : List Str) : Prop :=
  List.Forall₂ (fun v text => readLiteral text = some v.value) values texts

theorem wordBytes_mod (n : Nat) : wordBytes n = wordBytes (n % 65536) := by
  simp only [wordBytes, Nat.shiftRight_eq_div_pow, Nat.and_two_pow_sub_one_eq_mod _ 8]
  congr 2
  · omega
  · congr 1
    omega

/-- The numbers that the count tells of are read, and no others. -/
theorem parseRealListStr_encodeRealList (values : List Number) :
    parseRealListStr (encodeRealList values) =
      some ((values.take (values.length % 65536)).map fun v => parseRealStr (encodeReal v)) := by
  have hlt : values.length % 65536 < 65536 := Nat.mod_lt _ (by decide)
  have hlen : (values.take (values.length % 65536)).length = values.length % 65536 :=
    List.length_take_of_le (Nat.mod_le _ _)
  have hsplit : encodeRealList values = listPayload ((values.take (values.length % 65536)).map Number.real) ++
      (values.drop (values.length % 65536)).flatMap encodeReal := by
    rw [← encodeRealList_eq, encodeRealList, encodeRealList, hlen, ← wordBytes_mod, List.append_assoc, ← List.flatMap_append,
      List.take_append_drop]
  rw [hsplit, parseRealListStr_append (by rwa [List.length_map, hlen]), List.map_map]
  rfl

theorem readsBack_texts_iff {values : List Number} (h : ∀ v ∈ values, v.Normal) :
    ReadsBack values (values.map fun v => parseRealStr (encodeReal v)) ↔ ∀ v ∈ values, v.Fits := by
  rw [ReadsBack, List.forall₂_map_right_iff, List.forall₂_same]
  refine forall₂_congr ?_
  intro v hv
  have hread : readLiteral (parseRealStr (encodeReal v)) = some v.real.value := readLiteral_parseRealStr v.real
  rw [hread, Option.some_inj, Number.real_value_iff (h v hv)]

/-- A list of numbers is read back from its payload, number by number, exactly
when its length fits in two bytes and every exponent in one. -/
theorem list_reads_back_iff (values : List Number) (h : ∀ v ∈ values, v.Normal) :
    (∃ texts, parseRealListStr (encodeRealList values) = some texts ∧ ReadsBack values texts) ↔
      values.length < 65536 ∧ ∀ v ∈ values, v.Fits := by
  rw [parseRealListStr_encodeRealList]
  simp only [Option.some.injEq, exists_eq_left']
  constructor
  · intro hreads
    have hlen : values.length = values.length % 65536 := by
      have := hreads.length_eq
      rwa [List.length_map, List.length_take_of_le (Nat.mod_le _ _)] at this
    refine ⟨hlen ▸ Nat.mod_lt _ (by decide), ?_⟩
    rw [← hlen, List.take_length] at hreads
    exact (readsBack_texts_iff h).1 hreads
  · rintro ⟨hlen, hfits⟩
    rw [Nat.mod_eq_of_lt hlen, List.take_length]
    exact (readsBack_texts_iff h).2 hfits

theorem list_reads_back_iff_mixed :
    (∃ texts, parseRealListStr (encodeRealList [.zero, .sci true (15 * 10 ^ 12) 3]) = some texts ∧
        ReadsBack [.zero, .sci true (15 * 10 ^ 12) 3] texts) ↔
      [Number.zero, .sci true (15 * 10 ^ 12) 3].length < 65536 ∧
        ∀ v ∈ [Number.zero, .sci true (15 * 10 ^ 12) 3], v.Fits :=
  list_reads_back_iff _ (by decide)

end CalcBridge.Vartypes
