import CalcBridge.LinkLib.Glue
import CalcBridge.Tokens
/-!
# Decoding as a join of pieces (`src/tokens.py`)

`tokens_to_ascii` cuts the stream into tokens, renders each on its own and
puts a `*` into some of the gaps. Where one goes depends on the two renderings
beside the gap only, so what holds of whole streams is shown gap by gap.
-/
open LinkLib LinkLib.Glue LinkLib.Text

namespace CalcBridge.Tokens

/-! ## The tokens of a stream -/

/-- What one turn of the loop consumes: a byte, a prefix and the byte after
it, or a prefix at the very end, which misses its second byte. -/
inductive Token where
  | single (b : UInt8) (h : b ∉ twoBytePrefixes)
  | pair (b sub : UInt8) (h : b ∈ twoBytePrefixes)
  | cut (b : UInt8) (h : b ∈ twoBytePrefixes)
  deriving DecidableEq, Repr

def Token.bytes : Token → Bytes
  | .single b _ => [b]
  | .pair b sub _ => [b, sub]
  | .cut b _ => [b]

/-- What the token renders as. -/
def Token.piece : Token → Str
  | .single b _ => singlePiece b
  | .pair b sub _ => twoBytePiece b (some sub)
  | .cut b _ => twoBytePiece b none

def tokens : Bytes → List Token
  | [] => []
  | [b] => if h : b ∈ twoBytePrefixes then [.cut b h] else [.single b h]
  | b :: sub :: rest =>
    if h : b ∈ twoBytePrefixes then .pair b sub h :: tokens rest else .single b h :: tokens (sub :: rest)

/-- No prefix without its second byte. -/
def Token.whole : Token → Bool
  | .cut _ _ => false
  | _ => true

/-- Scanning `bs` does not end on a prefix that misses its second byte. -/
def Complete (bs : Bytes) : Prop := ∀ t ∈ tokens bs, t.whole

instance (bs : Bytes) : Decidable (Complete bs) := inferInstanceAs (Decidable (∀ t ∈ tokens bs, t.whole = true))

/-- The rendered pieces of a stream. -/
def pieces (bs : Bytes) : List Str := (tokens bs).map Token.piece

@[simp] theorem tokens_nil : tokens [] = [] := rfl

theorem tokens_pair {b : UInt8} (h : b ∈ twoBytePrefixes) (sub : UInt8) (rest : Bytes) :
    tokens (b :: sub :: rest) = .pair b sub h :: tokens rest := by
  rw [tokens, dif_pos h]

theorem tokens_single {b : UInt8} (h : b ∉ twoBytePrefixes) (rest : Bytes) :
    tokens (b :: rest) = .single b h :: tokens rest := by
  cases rest with
  | nil => rw [tokens_nil, tokens, dif_neg h]
  | cons sub rest => rw [tokens, dif_neg h]

theorem tokens_cut {b : UInt8} (h : b ∈ twoBytePrefixes) : tokens [b] = [.cut b h] := by
  rw [tokens, dif_pos h]

/-- No byte is lost or read twice. -/
theorem tokens_bytes (bs : Bytes) : (tokens bs).flatMap Token.bytes = bs := by
  induction bs using tokens.induct with
  | case1 => rfl
  | case2 b h => rw [tokens_cut h]; rfl
  | case3 b h => rw [tokens_single h]; rfl
  | case4 b sub rest h ih => rw [tokens_pair h, List.flatMap_cons, ih]; rfl
  | case5 b sub rest h ih => rw [tokens_single h, List.flatMap_cons, ih]; rfl

theorem tokens_eq_nil {bs : Bytes} : tokens bs = [] ↔ bs = [] := by
  constructor
  · intro h
    rw [← tokens_bytes bs, h]
    rfl
  · rintro rfl
    rfl

/-- A complete stream leaves the scan where the next one starts. -/
theorem tokens_append {a : Bytes} (ha : Complete a) (b : Bytes) : tokens (a ++ b) = tokens a ++ tokens b := by
  unfold Complete at ha
  induction a using tokens.induct with
  | case1 => rfl
  | case2 p h => exact absurd (ha (.cut p h) (by rw [tokens_cut h]; simp)) Bool.false_ne_true
  | case3 p h => rw [List.singleton_append, tokens_single h, tokens_single h]; rfl
  | case4 p sub rest h ih =>
    rw [tokens_pair h] at ha
    have hrest := ih fun t ht => ha t (List.mem_cons_of_mem _ ht)
    rw [List.cons_append, List.cons_append, tokens_pair h, tokens_pair h, hrest, List.cons_append]
  | case5 p sub rest h ih =>
    rw [tokens_single h] at ha
    have hrest := ih fun t ht => ha t (List.mem_cons_of_mem _ ht)
    rw [List.cons_append, tokens_single h, tokens_single h, hrest, List.cons_append]

/-- The tokens up to a point are those of the bytes up to there. -/
theorem tokens_prefix {bs : Bytes} {ts us : List Token} (h : tokens bs = ts ++ us) :
    tokens (ts.flatMap Token.bytes) = ts := by
  induction bs using tokens.induct generalizing ts with
  | case1 =>
    obtain ⟨rfl, rfl⟩ := List.append_eq_nil_iff.1 h.symm
    rfl
  | case2 b hb =>
    rw [tokens_cut hb] at h
    rcases List.append_eq_singleton_iff.1 h.symm with ⟨rfl, -⟩ | ⟨rfl, -⟩
    · rfl
    · exact tokens_cut hb
  | case3 b hb =>
    rw [tokens_single hb] at h
    rcases List.append_eq_singleton_iff.1 h.symm with ⟨rfl, -⟩ | ⟨rfl, -⟩
    · rfl
    · exact tokens_single hb []
  | case4 b sub rest hb ih =>
    rw [tokens_pair hb] at h
    rcases List.cons_eq_append_iff.1 h with ⟨rfl, -⟩ | ⟨ts', rfl, h'⟩
    · rfl
    · rw [List.flatMap_cons]
      exact (tokens_pair hb sub _).trans (congrArg _ (ih h'))
  | case5 b sub rest hb ih =>
    rw [tokens_single hb] at h
    rcases List.cons_eq_append_iff.1 h with ⟨rfl, -⟩ | ⟨ts', rfl, h'⟩
    · rfl
    · rw [List.flatMap_cons]
      exact (tokens_single hb _).trans (congrArg _ (ih h'))

/-! ## The loop joins the pieces -/

theorem lookup_getD_ne_nil {l : List (UInt8 × Str)} (hl : ∀ p ∈ l, p.2 ≠ []) (b : UInt8) :
    (l.lookup b).getD (str "?") ≠ [] := by
  cases h : l.lookup b with
  | none => decide
  | some v => exact hl _ (lookup_mem h)

theorem singlePiece_ne_nil (b : UInt8) : singlePiece b ≠ [] := by
  unfold singlePiece
  split
  · exact List.cons_ne_nil _ _
  · exact lookup_getD_ne_nil (by decide) b

theorem twoBytePiece_ne_nil (b : UInt8) (sub : Option UInt8) : twoBytePiece b sub ≠ [] := by
  have htab : ∀ t ∈ twoByteToAscii, ∀ p ∈ t.2, p.2 ≠ [] := by decide
  unfold twoBytePiece
  split
  · rename_i t s ht
    exact lookup_getD_ne_nil (htab _ (lookup_mem ht)) s
  · decide

theorem Token.piece_ne_nil (t : Token) : t.piece ≠ [] := by
  cases t with
  | single b h => exact singlePiece_ne_nil b
  | pair b sub h => exact twoBytePiece_ne_nil b (some sub)
  | cut b h => exact twoBytePiece_ne_nil b none

/-- Whether a `*` goes between two pieces. -/
def star (m : Mode) (p q : Str) : Bool := needsStar m p.getLast? q

theorem append_emit (m : Mode) (p q : Str) : p ++ emit m p.getLast? q = p ++ between (str "*") (star m) p q ++ q := by
  rw [emit, List.append_assoc]
  rfl

theorem lastAfter_of_ne_nil {q : Str} (hq : q ≠ []) (last : Option Nat) : lastAfter last q = q.getLast? := by
  rw [lastAfter, List.getLast?_eq_getLast_of_ne_nil hq]
  rfl

/-- What the loop emits after the piece `p`. -/
theorem decodeFrom_after (m : Mode) (p : Str) (bs : Bytes) :
    p ++ decodeFrom m p.getLast? bs = glue (str "*") (star m) (p :: pieces bs) := by
  induction bs using tokens.induct generalizing p with
  | case1 => exact List.append_nil p
  | case2 b h =>
    rw [decodeFrom, if_pos h, pieces, tokens_cut h, append_emit]
    rfl
  | case3 b h =>
    rw [decodeFrom, if_neg h, pieces, tokens_single h, append_emit]
    rfl
  | case4 b sub rest h ih =>
    rw [decodeFrom, if_pos h, pieces, tokens_pair h, List.map_cons, glue_cons_cons]
    dsimp only
    rw [lastAfter_of_ne_nil (twoBytePiece_ne_nil b (some sub)), ← List.append_assoc, append_emit, List.append_assoc, ih]
    rfl
  | case5 b sub rest h ih =>
    rw [decodeFrom, if_neg h, pieces, tokens_single h, List.map_cons, glue_cons_cons]
    dsimp only
    rw [lastAfter_of_ne_nil (singlePiece_ne_nil b), ← List.append_assoc, append_emit, List.append_assoc, ih]
    rfl

/-- `tokens_to_ascii` is the join of its pieces. -/
theorem tokensToAscii_eq (bs : Bytes) (m : Mode) : tokensToAscii bs m = glue (str "*") (star m) (pieces bs) := by
  have hfirst : ∀ q : Str, emit m none q = q := by
    intro q
    unfold emit needsStar
    cases q <;> rfl
  cases bs with
  | nil => rfl
  | cons b rest =>
    by_cases h : b ∈ twoBytePrefixes
    · cases rest with
      | nil => rw [tokensToAscii, decodeFrom, if_pos h, hfirst, pieces, tokens_cut h]; rfl
      | cons sub rest =>
        rw [tokensToAscii, decodeFrom, if_pos h, pieces, tokens_pair h]
        dsimp only
        rw [hfirst, lastAfter_of_ne_nil (twoBytePiece_ne_nil b (some sub)), decodeFrom_after]
        rfl
    · cases rest with
      | nil => rw [tokensToAscii, decodeFrom, if_neg h, hfirst, pieces, tokens_single h]; rfl
      | cons sub rest =>
        rw [tokensToAscii, decodeFrom, if_neg h, pieces, tokens_single h]
        dsimp only
        rw [hfirst, lastAfter_of_ne_nil (singlePiece_ne_nil b), decodeFrom_after]
        rfl

/-! ## The two modes -/

theorem producer_of_text {last : Option Nat} (h : isProducer .text last) : isProducer .math last := by
  cases last with
  | none => exact h
  | some c =>
    simp only [isProducer] at h ⊢
    simp [isAsciiAlnum, h]

/-- Where the text mode puts a `*`, the math mode does. -/
theorem star_text_math (p q : Str) (h : star .text p q) : star .math p q := by
  unfold star needsStar at h ⊢
  cases q with
  | nil => exact h
  | cons c q =>
    simp only [Bool.and_eq_true] at h ⊢
    exact ⟨⟨producer_of_text h.1.1, h.1.2⟩, h.2⟩

/-- Both modes join the same pieces, and the gaps that hold a `*` in text mode
hold one in math mode, so the text output is a subsequence of the math output. -/
theorem modes_differ_in_stars (bs : Bytes) :
    tokensToAscii bs .text = glue (str "*") (star .text) (pieces bs) ∧
    tokensToAscii bs .math = glue (str "*") (star .math) (pieces bs) ∧
    (∀ p q, star .text p q → star .math p q) ∧ (tokensToAscii bs .text).Sublist (tokensToAscii bs .math) := by
  refine ⟨tokensToAscii_eq bs .text, tokensToAscii_eq bs .math, star_text_math, ?_⟩
  rw [tokensToAscii_eq, tokensToAscii_eq]
  exact glue_sublist star_text_math (pieces bs)

/-! ## Decoding in two parts -/

/-- A `*` is due between two texts: the first ends in a value producer of the
mode, the second begins with a value starter, and they are not both digits. -/
def starDue (m : Mode) (x y : Str) : Bool :=
  match x.getLast?, y.head? with
  | some c, some d => isProducer m (some c) && isValueStarter d && !(isDigit c && isDigit d)
  | _, _ => false

theorem star_eq_starDue (m : Mode) (p q : Str) : star m p q = starDue m p q := by
  unfold star needsStar starDue
  cases q with
  | nil => cases p.getLast? <;> rfl
  | cons d q => cases p.getLast? <;> rfl

theorem pieces_ne_nil {bs : Bytes} {p : Str} (h : p ∈ pieces bs) : p ≠ [] := by
  obtain ⟨t, -, rfl⟩ := List.mem_map.1 h
  exact t.piece_ne_nil

/-- Between two complete streams only the gap between them is decided anew. -/
theorem decode_append {a : Bytes} (ha : Complete a) (b : Bytes) (m : Mode) :
    tokensToAscii (a ++ b) m = tokensToAscii a m ++
      (if a ≠ [] ∧ b ≠ [] ∧ starDue m (tokensToAscii a m) (tokensToAscii b m) then str "*" else []) ++
      tokensToAscii b m := by
  by_cases hna : a = []
  · rw [hna, if_neg (by simp)]
    rfl
  by_cases hnb : b = []
  · rw [hnb, if_neg (by simp), List.append_nil, List.append_nil]
    exact (List.append_nil _).symm
  -- Both sides have pieces: the gap is between the last of `a` and the first of `b`.
  have hpa : pieces a ≠ [] := fun h => hna (tokens_eq_nil.1 (List.map_eq_nil_iff.1 h))
  have hpb : pieces b ≠ [] := fun h => hnb (tokens_eq_nil.1 (List.map_eq_nil_iff.1 h))
  obtain ⟨ps, p, hp⟩ := List.eq_nil_or_concat' (pieces a) |>.resolve_left hpa
  obtain ⟨q, qs, hq⟩ := List.exists_cons_of_ne_nil hpb
  have hjoin : pieces (a ++ b) = ps ++ p :: q :: qs := by
    rw [pieces, tokens_append ha, List.map_append]
    change pieces a ++ pieces b = _
    rw [hp, hq, List.append_assoc]
    rfl
  have hpne : p ≠ [] := pieces_ne_nil (show p ∈ pieces a by rw [hp]; simp)
  have hqne : q ≠ [] := pieces_ne_nil (show q ∈ pieces b by rw [hq]; simp)
  have hstar : star m p q = starDue m (tokensToAscii a m) (tokensToAscii b m) := by
    rw [star_eq_starDue, starDue, starDue, tokensToAscii_eq, tokensToAscii_eq, hp, hq,
      getLast?_glue hpne, head?_glue hqne]
  rw [tokensToAscii_eq (a ++ b), hjoin, glue_append, ← hp, ← hq, ← tokensToAscii_eq, ← tokensToAscii_eq, between, hstar]
  simp [hna, hnb]

/-- `2X` and `(5)`, cut between the value and the bracket. -/
theorem decode_append_at_bracket :
    tokensToAscii ([0x32, 0x58] ++ [0x10, 0x35, 0x11]) .math = str "2*X" ++ str "*" ++ str "(5)" :=
  decode_append (by decide) [0x10, 0x35, 0x11] .math

/-! ## Products in math mode -/

/-- A digit of a number. -/
def Token.IsDigit : Token → Prop
  | .single b _ => 0x30 ≤ b ∧ b ≤ 0x39
  | _ => False

/-- The two bytes of L1..L6, or of a picture, a GDB or a Str. -/
def NumberedName (b sub : UInt8) : Prop := b = 0x5D ∧ sub ≤ 0x05 ∨ b ∈ ([0x60, 0x61, 0xAA] : List UInt8) ∧ sub ≤ 0x09

instance (b sub : UInt8) : Decidable (NumberedName b sub) := inferInstanceAs (Decidable (_ ∨ _))

/-- A squared or cubed sign, or a numbered name. -/
def Token.IsNumbered : Token → Prop
  | .single b _ => b = 0x0D ∨ b = 0x0F
  | .pair b sub _ => NumberedName b sub
  | .cut _ _ => False

/-- The text ends in a digit, a letter, `)` or `]`. -/
def EndsValue (s : Str) : Prop := ∃ c, s.getLast? = some c ∧ (isAsciiAlnum c ∨ c = 0x29 ∨ c = 0x5D)

/-- The text starts with a digit, a letter, `(` or `[`. -/
def OpensValue (s : Str) : Prop := ∃ c, s.head? = some c ∧ (isAsciiAlnum c ∨ c = 0x28 ∨ c = 0x5B)

/-- Every two neighbours of which the first closes a value and the second opens
one have a `*` between their renderings, digits of one number excepted. -/
def NeverFuses (bs : Bytes) : Prop :=
  ∀ pre t u post, tokens bs = pre ++ t :: u :: post → EndsValue t.piece → OpensValue u.piece → ¬ (t.IsDigit ∧ u.IsDigit) →
    ∃ rest, tokensToAscii bs .math =
      tokensToAscii ((pre ++ [t]).flatMap Token.bytes) .math ++ str "*" ++ u.piece ++ rest

/-- The text ends in a digit. -/
def endsInDigit (s : Str) : Bool := s.getLast?.any isDigit

/-- The text starts with a digit. -/
def startsWithDigit (s : Str) : Bool := s.head?.any isDigit

theorem isDigit_toNat {b : UInt8} : isDigit b.toNat = true ↔ 0x30 ≤ b ∧ b ≤ 0x39 := by
  simp [isDigit, UInt8.le_iff_toNat_le]

/-- Which single bytes render with a digit at an end. -/
theorem singlePiece_digit (b : UInt8) :
    (startsWithDigit (singlePiece b) = true ↔ 0x30 ≤ b ∧ b ≤ 0x39) ∧
    (endsInDigit (singlePiece b) = true ↔ (0x30 ≤ b ∧ b ≤ 0x39) ∨ b = 0x0D ∨ b = 0x0F) := by
  have htab : ∀ p ∈ tokToAscii, startsWithDigit p.2 = false ∧ ¬ (0x30 ≤ p.1 ∧ p.1 ≤ 0x39) ∧
      (endsInDigit p.2 = true ↔ p.1 = 0x0D ∨ p.1 = 0x0F) := by decide
  unfold singlePiece
  split
  · rename_i h
    have hne : b ≠ 0x0D ∧ b ≠ 0x0F := by
      constructor
      · rintro rfl; revert h; decide
      · rintro rfl; revert h; decide
    simp only [startsWithDigit, endsInDigit, List.head?_cons, List.getLast?_singleton, Option.any_some, isDigit_toNat]
    simp [hne]
  · rename_i h
    have hdigit : ¬ (0x30 ≤ b ∧ b ≤ 0x39) := fun hd => h (.inr hd)
    cases hb : tokToAscii.lookup b with
    | some v =>
      obtain ⟨hstart, -, hend⟩ := htab _ (lookup_mem hb)
      simp only [Option.getD_some, hstart, hend, hdigit]
      simp
    | none =>
      -- An unmapped byte is neither power sign.
      have hne : b ≠ 0x0D ∧ b ≠ 0x0F := by
        constructor
        · rintro rfl; revert hb; decide
        · rintro rfl; revert hb; decide
      have hmark : startsWithDigit (str "?") = false ∧ endsInDigit (str "?") = false := by decide
      simp [hmark, hdigit, hne]

/-- Which two bytes do. -/
theorem twoBytePiece_digit (b sub : UInt8) :
    startsWithDigit (twoBytePiece b (some sub)) = false ∧
    (endsInDigit (twoBytePiece b (some sub)) = true ↔ NumberedName b sub) := by
  have hmark : startsWithDigit (str "?") = false ∧ endsInDigit (str "?") = false := by decide
  have htab : ∀ t ∈ twoByteToAscii, ∀ p ∈ t.2, startsWithDigit p.2 = false ∧
      (endsInDigit p.2 = true ↔ NumberedName t.1 p.1) := by decide
  have hfull : ∀ t ∈ twoByteToAscii, ∀ n ∈ List.range 10, NumberedName t.1 (UInt8.ofNat n) →
      (t.2.lookup (UInt8.ofNat n)).isSome = true := by decide
  have hlists : ([0x5D, 0x60, 0x61, 0xAA] : List UInt8).all fun b => (twoByteToAscii.lookup b).isSome := by decide
  have hlead : NumberedName b sub → (twoByteToAscii.lookup b).isSome = true := by
    rintro (⟨rfl, -⟩ | ⟨hb, -⟩)
    · exact List.all_eq_true.1 hlists _ List.mem_cons_self
    · exact List.all_eq_true.1 hlists b (List.mem_cons_of_mem _ hb)
  have hsub : NumberedName b sub → sub.toNat ∈ List.range 10 := by
    rintro (⟨-, h⟩ | ⟨-, h⟩)
    · rw [UInt8.le_iff_toNat_le] at h
      exact List.mem_range.2 (Nat.lt_of_le_of_lt h (by decide))
    · rw [UInt8.le_iff_toNat_le] at h
      exact List.mem_range.2 (Nat.lt_of_le_of_lt h (by decide))
  unfold twoBytePiece
  cases hb : twoByteToAscii.lookup b with
  | none =>
    refine ⟨hmark.1, ?_⟩
    dsimp only
    rw [hmark.2]
    refine iff_of_false Bool.false_ne_true fun h => ?_
    have hfound := hlead h
    rw [hb] at hfound
    cases hfound
  | some t =>
    dsimp only
    cases hs : t.lookup sub with
    | some v => exact htab _ (lookup_mem hb) _ (lookup_mem hs)
    | none =>
      refine ⟨hmark.1, ?_⟩
      rw [Option.getD_none, hmark.2]
      refine iff_of_false Bool.false_ne_true fun h => ?_
      have hfound := hfull _ (lookup_mem hb) sub.toNat (hsub h)
      rw [UInt8.ofNat_toNat] at hfound
      have := hfound h
      rw [hs] at this
      cases this

theorem twoBytePiece_none (b : UInt8) : twoBytePiece b none = str "?" := by
  unfold twoBytePiece
  cases twoByteToAscii.lookup b <;> rfl

theorem Token.startsWithDigit_piece (t : Token) : startsWithDigit t.piece = true ↔ t.IsDigit := by
  cases t with
  | single b h => exact (singlePiece_digit b).1
  | pair b sub h =>
    rw [Token.piece, (twoBytePiece_digit b sub).1]
    exact iff_of_false Bool.false_ne_true id
  | cut b h =>
    rw [Token.piece, twoBytePiece_none]
    exact iff_of_false (by decide) id

theorem Token.endsInDigit_piece (t : Token) : endsInDigit t.piece = true ↔ t.IsDigit ∨ t.IsNumbered := by
  cases t with
  | single b h => exact (singlePiece_digit b).2
  | pair b sub h => exact (twoBytePiece_digit b sub).2.trans (or_iff_right id).symm
  | cut b h =>
    rw [Token.piece, twoBytePiece_none]
    exact iff_of_false (by decide) (or_self_iff.not.2 id)

theorem Token.IsNumbered.not_digit {t : Token} (h : t.IsNumbered) : ¬ t.IsDigit := by
  cases t with
  | single b hb =>
    rcases h with rfl | rfl
    · simp [Token.IsDigit]
    · simp [Token.IsDigit]
  | pair b sub hb => exact id
  | cut b hb => exact id

/-- In math mode the gap holds a `*` unless a digit meets a digit. -/
theorem star_math_iff (p q : Str) :
    star .math p q = true ↔ EndsValue p ∧ OpensValue q ∧ ¬ (endsInDigit p = true ∧ startsWithDigit q = true) := by
  rw [star_eq_starDue, starDue, EndsValue, OpensValue, endsInDigit, startsWithDigit]
  cases p.getLast? with
  | none => simp
  | some c =>
    cases q.head? with
    | none => simp
    | some d =>
      simp only [isProducer, isValueStarter, Option.some.injEq, exists_eq_left', Option.any_some, Bool.and_eq_true,
        Bool.or_eq_true, beq_iff_eq, Bool.not_eq_true', ← Bool.not_eq_true, and_assoc, or_assoc]

theorem alnum_of_digit {c : Nat} (h : isDigit c = true) : isAsciiAlnum c = true := by
  rw [isAsciiAlnum, h]
  rfl

theorem endsValue_of_digit {s : Str} (h : endsInDigit s = true) : EndsValue s := by
  obtain ⟨c, hc, hd⟩ := (Option.any_eq_true _ _).1 h
  exact ⟨c, hc, .inl (alnum_of_digit hd)⟩

theorem opensValue_of_digit {s : Str} (h : startsWithDigit s = true) : OpensValue s := by
  obtain ⟨c, hc, hd⟩ := (Option.any_eq_true _ _).1 h
  exact ⟨c, hc, .inl (alnum_of_digit hd)⟩

/-- A stream's text up to a token, the gap after it, and the next token's rendering. -/
theorem decode_at {bs : Bytes} {pre post : List Token} {t u : Token} (h : tokens bs = pre ++ t :: u :: post) (m : Mode) :
    ∃ rest, tokensToAscii bs m = tokensToAscii ((pre ++ [t]).flatMap Token.bytes) m ++
      between (str "*") (star m) t.piece u.piece ++ u.piece ++ rest := by
  have hsplit : tokens bs = (pre ++ [t]) ++ u :: post := by
    rw [h, List.append_assoc]
    rfl
  have hpre : tokens ((pre ++ [t]).flatMap Token.bytes) = pre ++ [t] := tokens_prefix hsplit
  obtain ⟨rest, hrest⟩ := glue_cons_prefix (str "*") (star m) u.piece (post.map Token.piece)
  refine ⟨rest, ?_⟩
  rw [tokensToAscii_eq, tokensToAscii_eq, pieces, pieces, h, hpre, List.map_append, List.map_append, List.map_cons,
    List.map_cons, glue_append, hrest]
  simp only [List.map_cons, List.map_nil, List.append_assoc]

/-- No value runs into the next exactly when no power sign and no numbered
name stands directly before a digit. -/
theorem never_fuses_iff (bs : Bytes) :
    NeverFuses bs ↔ ∀ pre t u post, tokens bs = pre ++ t :: u :: post → t.IsNumbered → ¬ u.IsDigit := by
  constructor
  · intro hnf pre t u post h hnum hdig
    have hend : endsInDigit t.piece = true := t.endsInDigit_piece.2 (.inr hnum)
    have hstart : startsWithDigit u.piece = true := u.startsWithDigit_piece.2 hdig
    obtain ⟨rest, hrest⟩ := hnf pre t u post h (endsValue_of_digit hend) (opensValue_of_digit hstart) fun hd =>
      hnum.not_digit hd.1
    -- The code puts nothing into the gap, so the digit would have to be a `*`.
    have hstar : ¬ star .math t.piece u.piece = true := fun hs => ((star_math_iff _ _).1 hs).2.2 ⟨hend, hstart⟩
    obtain ⟨rest', hrest'⟩ := decode_at h .math
    rw [between, if_neg hstar, List.append_nil, List.append_assoc] at hrest'
    rw [hrest', List.append_assoc, List.append_assoc, List.append_cancel_left_eq] at hrest
    obtain ⟨c, s, hu⟩ := List.exists_cons_of_ne_nil u.piece_ne_nil
    rw [hu] at hrest hstart
    obtain rfl := (List.cons.inj hrest).1
    exact Bool.false_ne_true hstart
  · intro hsep pre t u post h hend hopen hnot
    have hstar : star .math t.piece u.piece = true := by
      refine (star_math_iff _ _).2 ⟨hend, hopen, ?_⟩
      rw [Token.endsInDigit_piece, Token.startsWithDigit_piece]
      rintro ⟨ht | ht, hu⟩
      · exact hnot ⟨ht, hu⟩
      · exact hsep pre t u post h ht hu
    obtain ⟨rest, hrest⟩ := decode_at h .math
    rw [between, if_pos hstar] at hrest
    exact ⟨rest, hrest⟩

/-- X squared, then 3: the text says X to the power 23. -/
theorem square_runs_into_digit : ¬ NeverFuses [0x58, 0x0D, 0x33] ∧ tokensToAscii [0x58, 0x0D, 0x33] .math = str "X^23" := by
  refine ⟨fun h => ?_, by decide⟩
  obtain ⟨rest, hrest⟩ := h [.single 0x58 (by decide)] (.single 0x0D (by decide)) (.single 0x33 (by decide)) [] (by decide)
    ⟨0x32, by decide⟩ ⟨0x33, by decide⟩ (by simp [Token.IsDigit])
  have hfused : tokensToAscii [0x58, 0x0D, 0x33] .math = str "X^2" ++ str "3" := by decide
  have hfront : tokensToAscii ([.single 0x58 (by decide), .single 0x0D (by decide)].flatMap Token.bytes) .math =
      str "X^2" := by
    decide
  rw [hfused, List.append_assoc, List.append_assoc] at hrest
  have := List.append_cancel_left (hrest.trans (congrArg (· ++ _) hfront))
  cases this

/-! ## Encoding, then decoding -/

def isLetter (c : Nat) : Bool := (0x41 ≤ c && c ≤ 0x5A) || (0x61 ≤ c && c ≤ 0x7A)

/-- A digit and then a letter or `(`. -/
def textProduct (c d : Nat) : Bool := isDigit c && (isLetter d || d == 0x28)

/-- A letter, a digit or `)` and then a letter, a digit or `(`, but not two digits. -/
def mathProduct (c d : Nat) : Bool :=
  (isLetter c || isDigit c || c == 0x29) && (isLetter d || isDigit d || d == 0x28) && !(isDigit c && isDigit d)

/-- `ch` has a token. -/
def Encodable (ch : Nat) : Prop := ∃ t, asciiToTok.lookup (upcase ch) = some t

/-- The text `ascii_to_tokens` accepts, and what it returns then. -/
theorem asciiToTokens_eq_ok {s : Str} {bs : Bytes} (h : asciiToTokens s = .ok bs) :
    (∀ ch ∈ s, Encodable ch) ∧ bs = s.map tokenOrSpace := by
  induction s generalizing bs with
  | nil =>
    cases h
    exact ⟨nofun, rfl⟩
  | cons ch s ih =>
    rw [asciiToTokens, List.mapM_cons] at h
    cases hch : asciiToTok.lookup (upcase ch) with
    | none =>
      rw [hch] at h
      cases h
    | some t =>
      rw [hch] at h
      cases hs : asciiToTokens s with
      | error e =>
        unfold asciiToTokens at hs
        rw [hs] at h
        cases h
      | ok ts =>
        obtain ⟨henc, rfl⟩ := ih hs
        unfold asciiToTokens at hs
        rw [hs] at h
        cases h
        refine ⟨List.forall_mem_cons.2 ⟨⟨t, hch⟩, henc⟩, ?_⟩
        rw [List.map_cons, tokenOrSpace, hch]
        rfl

/-- With a token for every character there is nothing to drop or to replace. -/
theorem lossy_of_encodable {s : Str} (h : ∀ ch ∈ s, Encodable ch) (dropUnknown : Bool) :
    asciiToTokensLossy s dropUnknown = s.map tokenOrSpace := by
  have hch : ∀ ch ∈ s, lossyToken dropUnknown ch = some (tokenOrSpace ch) := by
    intro ch hmem
    obtain ⟨t, ht⟩ := h ch hmem
    simp [lossyToken, tokenOrSpace, ht]
  rw [asciiToTokensLossy, List.filterMap_congr hch]
  exact congrFun (List.filterMap_eq_map (f := tokenOrSpace)) s

/-- The encoder's bytes are tokens of one byte that render as the character. -/
theorem piece_tokenOrSpace {ch : Nat} (h : Encodable ch) : singlePiece (tokenOrSpace ch) = [upcase ch] := by
  have htab : ∀ p ∈ asciiToTok, singlePiece p.2 = [p.1] := by decide
  obtain ⟨t, ht⟩ := h
  rw [tokenOrSpace, ht]
  exact htab _ (lookup_mem ht)

theorem pieces_encoded {s : Str} (h : ∀ ch ∈ s, Encodable ch) : pieces (s.map tokenOrSpace) = (s.map upcase).map ([·]) := by
  induction s with
  | nil => rfl
  | cons ch s ih =>
    have hs := ih fun c hc => h c (List.mem_cons_of_mem _ hc)
    rw [pieces, List.map_cons, tokens_single (tokenOrSpace_single ch), List.map_cons, Token.piece,
      piece_tokenOrSpace (h ch (by simp))]
    exact congrArg _ hs

/-- An encodable character is no square bracket, upcased or not. -/
theorem upcase_ne_bracket {ch : Nat} (h : Encodable ch) : upcase ch ≠ 0x5B ∧ upcase ch ≠ 0x5D := by
  have htab : ∀ p ∈ asciiToTok, p.1 ≠ 0x5B ∧ p.1 ≠ 0x5D := by decide
  obtain ⟨t, ht⟩ := h
  exact htab _ (lookup_mem ht)

theorem alnum_eq (c : Nat) : isAsciiAlnum c = (isLetter c || isDigit c) := by
  rw [isAsciiAlnum, isLetter, Bool.or_assoc, Bool.or_comm]

theorem not_letter_of_digit {c : Nat} (h : isDigit c = true) : isLetter c = false ∧ (c == 0x28) = false := by
  simp only [isDigit, Bool.and_eq_true, decide_eq_true_eq] at h
  constructor
  · simp only [isLetter, Bool.or_eq_false_iff, Bool.and_eq_false_iff, decide_eq_false_iff_not]
    omega
  · exact beq_false_of_ne (by omega)

/-- Between two characters other than brackets a `*` is due where the mode's rule says. -/
theorem star_chars {c d : Nat} (hc : c ≠ 0x5D) (hd : d ≠ 0x5B) :
    star .text [c] [d] = textProduct c d ∧ star .math [c] [d] = mathProduct c d := by
  have hd' : (d == 0x5B) = false := beq_false_of_ne hd
  have hc' : (c == 0x5D) = false := beq_false_of_ne hc
  constructor
  · rw [star_eq_starDue, textProduct]
    simp only [starDue, List.getLast?_singleton, List.head?_cons, isProducer, isValueStarter, alnum_eq, hd', Bool.or_false]
    cases hdig : isDigit d with
    | false => rw [Bool.or_false, Bool.and_false, Bool.not_false, Bool.and_true]
    | true =>
      obtain ⟨hletter, hopen⟩ := not_letter_of_digit hdig
      rw [hletter, hopen, Bool.and_true, Bool.or_self, Bool.and_false]
      cases isDigit c <;> rfl
  · rw [star_eq_starDue, mathProduct]
    simp only [starDue, List.getLast?_singleton, List.head?_cons, isProducer, isValueStarter, alnum_eq, hc', hd',
      Bool.or_false]

/-- What was encoded decodes to the upcased text with a `*` in every product of
the mode, and the lossy encoder agrees on it. -/
theorem encoded_text_decodes {s : Str} {bs : Bytes} (h : asciiToTokens s = .ok bs) :
    tokensToAscii bs .text = insertBetween (str "*") textProduct (s.map upcase) ∧
    tokensToAscii bs .math = insertBetween (str "*") mathProduct (s.map upcase) ∧
    ∀ dropUnknown, asciiToTokensLossy s dropUnknown = bs := by
  obtain ⟨henc, rfl⟩ := asciiToTokens_eq_ok h
  -- Neither `[` nor `]` has a token, so the decoder's rules agree with the two above.
  have hchars : ∀ c ∈ s.map upcase, c ≠ 0x5B ∧ c ≠ 0x5D := by
    intro c hc
    obtain ⟨ch, hch, rfl⟩ := List.mem_map.1 hc
    exact upcase_ne_bracket (henc ch hch)
  refine ⟨?_, ?_, lossy_of_encodable henc⟩
  · rw [tokensToAscii_eq, pieces_encoded henc]
    exact glue_singletons (fun c d hc hd => (star_chars hc.2 hd.1).1) hchars
  · rw [tokensToAscii_eq, pieces_encoded henc]
    exact glue_singletons (fun c d hc hd => (star_chars hc.2 hd.1).2) hchars

/-- `2x(y)3`. -/
theorem encoded_product_decodes :
    let bs : Bytes := [0x32, 0x58, 0x10, 0x59, 0x11, 0x33]
    tokensToAscii bs .text = str "2*X(Y)3" ∧ tokensToAscii bs .math = str "2*X*(Y)*3" ∧
      ∀ dropUnknown, asciiToTokensLossy (str "2x(y)3") dropUnknown = bs :=
  encoded_text_decodes (s := str "2x(y)3") (by decide)

end CalcBridge.Tokens
