import CalcBridge.LinkLib.Text
/-!
# Token bytes and text (`src/tokens.py`)

A TI String is a stream of token bytes. `tokensToAscii` renders one as text,
`asciiToTokens` and `asciiToTokensLossy` go the other way.
-/
open LinkLib LinkLib.Text

namespace CalcBridge.Tokens

/-! ## Tables -/

/-- `_TOK_TO_ASCII`: what a single-byte token renders as. -/
def tokToAscii : List (UInt8 × Str) :=
  [(0x0D, str "^2"), (0x0F, str "^3"), (0x10, str "("), (0x11, str ")"), (0x29, str " "), (0x2A, str "\""),
   (0x2B, str ","), (0x3A, str "."), (0x3E, str ":"), (0x5B, str "theta"), (0x6A, str "="), (0x6B, str "<"),
   (0x6C, str ">"), (0x70, str "+"), (0x71, str "-"), (0x82, str "*"), (0x83, str "/"), (0xAC, str "pi"),
   (0xB0, str "-"), (0xBC, str "sqrt("), (0xBE, str "ln("), (0xBF, str "e^("), (0xC0, str "log("),
   (0xC2, str "sin("), (0xC4, str "cos("), (0xC6, str "tan("), (0xF0, str "^")]

/-- `_TWO_BYTE_PREFIXES`: lead bytes that take the next byte with them. -/
def twoBytePrefixes : List UInt8 := [0x5C, 0x5D, 0x60, 0x61, 0xAA, 0x7E, 0xBB, 0xEF]

def numberedWithZeroLast (pfx : Str) : List (UInt8 × Str) :=
  (List.range 9).map (fun i => (UInt8.ofNat i, pfx ++ decimal (i + 1))) ++ [(0x09, pfx ++ str "0")]

def listTable : List (UInt8 × Str) :=
  (List.range 6).map fun i => (UInt8.ofNat i, str "L" ++ decimal (i + 1))

def matrixTable : List (UInt8 × Str) :=
  (List.range 10).map fun i => (UInt8.ofNat i, str "[Mat" ++ [0x41 + i] ++ str "]")

/-- `_TWO_BYTE_TO_ASCII`: the sub-byte tables. `0x7E`, `0xBB` and `0xEF` have none. -/
def twoByteToAscii : List (UInt8 × List (UInt8 × Str)) :=
  [(0x5D, listTable), (0x5C, matrixTable), (0x60, numberedWithZeroLast (str "Pic")),
   (0x61, numberedWithZeroLast (str "GDB")), (0xAA, numberedWithZeroLast (str "Str"))]

/-- `_ASCII_TO_TOK`. -/
def asciiToTok : List (Nat × UInt8) :=
  [(0x28, 0x10), (0x29, 0x11), (0x20, 0x29), (0x22, 0x2A), (0x2C, 0x2B), (0x2E, 0x3A), (0x3A, 0x3E), (0x3D, 0x6A),
   (0x3C, 0x6B), (0x3E, 0x6C), (0x2B, 0x70), (0x2D, 0x71), (0x2A, 0x82), (0x2F, 0x83), (0x5E, 0xF0)] ++
  (List.range 26).map (fun i => (0x41 + i, UInt8.ofNat (0x41 + i))) ++
  (List.range 10).map (fun i => (0x30 + i, UInt8.ofNat (0x30 + i)))

/-! ## Decoding -/

def isDigit (c : Nat) : Bool := 0x30 ≤ c && c ≤ 0x39

def isAsciiAlnum (c : Nat) : Bool := isDigit c || (0x41 ≤ c && c ≤ 0x5A) || (0x61 ≤ c && c ≤ 0x7A)

inductive Mode where
  | text
  | math
  deriving DecidableEq, Repr

/-- `_is_math_value_producer` and `_is_text_value_producer`. The last emitted
character is `none` (the source's `""`) before the first piece. -/
def isProducer : Mode → Option Nat → Bool
  | _, none => false
  | .math, some c => isAsciiAlnum c || c == 0x29 || c == 0x5D
  | .text, some c => isDigit c

def isValueStarter (c : Nat) : Bool := isAsciiAlnum c || c == 0x28 || c == 0x5B

def twoBytePiece (b : UInt8) (sub : Option UInt8) : Str :=
  match twoByteToAscii.lookup b, sub with
  | some subTable, some s => (subTable.lookup s).getD (str "?")
  | _, _ => str "?"

def singlePiece (b : UInt8) : Str :=
  if (0x41 ≤ b ∧ b ≤ 0x5A) ∨ (0x30 ≤ b ∧ b ≤ 0x39) then [b.toNat] else (tokToAscii.lookup b).getD (str "?")

/-- Whether a `*` goes between the last emitted character and `piece`. -/
def needsStar (m : Mode) (last : Option Nat) (piece : Str) : Bool :=
  match piece with
  | [] => false
  | c :: _ => isProducer m last && isValueStarter c && !(last.any isDigit && isDigit c)

def emit (m : Mode) (last : Option Nat) (piece : Str) : Str :=
  (if needsStar m last piece then str "*" else []) ++ piece

/-- The last emitted character after `piece`. -/
def lastAfter (last : Option Nat) (piece : Str) : Option Nat := piece.getLast?.or last

/-- The loop of `tokens_to_ascii`, from `last_emitted` on. -/
def decodeFrom (m : Mode) : Option Nat → Bytes → Str
  | _, [] => []
  | last, [b] => emit m last (if b ∈ twoBytePrefixes then twoBytePiece b none else singlePiece b)
  | last, b :: sub :: rest =>
    if b ∈ twoBytePrefixes then
      let piece := twoBytePiece b (some sub)
      emit m last piece ++ decodeFrom m (lastAfter last piece) rest
    else
      let piece := singlePiece b
      emit m last piece ++ decodeFrom m (lastAfter last piece) (sub :: rest)

/-- `tokens_to_ascii`. The mode is one of the two, so its ValueError is not reached. -/
def tokensToAscii (tokBytes : Bytes) (m : Mode) : Str := decodeFrom m none tokBytes

example : tokensToAscii [0x32, 0xC2, 0x58, 0x11] .math = str "2*sin(X)" := by decide

/-! Every piece is printable ASCII, so no token content ends a line. -/

theorem lookup_getD_printable {l : List (UInt8 × Str)} (hl : ∀ p ∈ l, ∀ c ∈ p.2, Printable c) (b : UInt8) :
    ∀ c ∈ (l.lookup b).getD (str "?"), Printable c := by
  cases h : l.lookup b with
  | none => decide
  | some v => exact hl _ (lookup_mem h)

theorem singlePiece_printable (b : UInt8) : ∀ c ∈ singlePiece b, Printable c := by
  unfold singlePiece
  split
  · rename_i h
    simp only [List.mem_singleton, forall_eq, Printable]
    simp only [UInt8.le_iff_toNat_le, UInt8.reduceToNat] at h
    omega
  · exact lookup_getD_printable (by decide) b

theorem twoBytePiece_printable (b : UInt8) (sub : Option UInt8) : ∀ c ∈ twoBytePiece b sub, Printable c := by
  have htab : ∀ t ∈ twoByteToAscii, ∀ p ∈ t.2, ∀ c ∈ p.2, Printable c := by decide
  unfold twoBytePiece
  split
  · rename_i t s ht
    exact lookup_getD_printable (htab _ (lookup_mem ht)) s
  · decide

theorem emit_printable {m : Mode} {last : Option Nat} {piece : Str} (h : ∀ c ∈ piece, Printable c) :
    ∀ c ∈ emit m last piece, Printable c := by
  have hstar : ∀ c ∈ str "*", Printable c := by decide
  intro c hc
  rcases List.mem_append.1 hc with hc | hc
  · split at hc
    · exact hstar c hc
    · cases hc
  · exact h c hc

theorem decodeFrom_printable (m : Mode) (last : Option Nat) (bs : Bytes) : ∀ c ∈ decodeFrom m last bs, Printable c := by
  induction last, bs using decodeFrom.induct with
  | case1 => simp [decodeFrom]
  | case2 last b =>
    apply emit_printable
    split
    · exact twoBytePiece_printable b none
    · exact singlePiece_printable b
  | case3 last b sub rest hb piece ih =>
    rw [decodeFrom, if_pos hb]
    intro c hc
    rcases List.mem_append.1 hc with hc | hc
    · exact emit_printable (twoBytePiece_printable b (some sub)) c hc
    · exact ih c hc
  | case4 last b sub rest hb piece ih =>
    rw [decodeFrom, if_neg hb]
    intro c hc
    rcases List.mem_append.1 hc with hc | hc
    · exact emit_printable (singlePiece_printable b) c hc
    · exact ih c hc

theorem tokensToAscii_printable (bs : Bytes) (m : Mode) : ∀ c ∈ tokensToAscii bs m, Printable c :=
  decodeFrom_printable m none bs

/-! No piece is long. -/

theorem lookup_getD_length {l : List (UInt8 × Str)} {n : Nat} (hl : ∀ p ∈ l, p.2.length ≤ n) (hn : 1 ≤ n) (b : UInt8) :
    ((l.lookup b).getD (str "?")).length ≤ n := by
  cases h : l.lookup b with
  | none => exact hn
  | some v => exact hl _ (lookup_mem h)

theorem singlePiece_length (b : UInt8) : (singlePiece b).length ≤ 6 := by
  unfold singlePiece
  split
  · exact Nat.le_add_left 1 5
  · exact lookup_getD_length (by decide) (by decide) b

theorem twoBytePiece_length (b : UInt8) (sub : Option UInt8) : (twoBytePiece b sub).length ≤ 6 := by
  have htab : ∀ t ∈ twoByteToAscii, ∀ p ∈ t.2, p.2.length ≤ 6 := by decide
  unfold twoBytePiece
  split
  · rename_i t s ht
    exact lookup_getD_length (htab _ (lookup_mem ht)) (by decide) s
  · decide

theorem emit_length {m : Mode} {last : Option Nat} {piece : Str} (h : piece.length ≤ 6) : (emit m last piece).length ≤ 7 := by
  have hstar : (if needsStar m last piece then str "*" else []).length ≤ 1 := by
    split
    · exact Nat.le_refl 1
    · exact Nat.zero_le 1
  rw [emit, List.length_append]
  omega

theorem decodeFrom_length (m : Mode) (last : Option Nat) (bs : Bytes) : (decodeFrom m last bs).length ≤ 7 * bs.length := by
  induction last, bs using decodeFrom.induct with
  | case1 => simp [decodeFrom]
  | case2 last b =>
    apply emit_length
    split
    · exact twoBytePiece_length b none
    · exact singlePiece_length b
  | case3 last b sub rest hb piece ih =>
    have hpiece : (emit m last (twoBytePiece b (some sub))).length ≤ 7 := emit_length (twoBytePiece_length b (some sub))
    have hrest : (decodeFrom m (lastAfter last (twoBytePiece b (some sub))) rest).length ≤ 7 * rest.length := ih
    rw [decodeFrom, if_pos hb, List.length_append, List.length_cons, List.length_cons]
    omega
  | case4 last b sub rest hb piece ih =>
    have hpiece : (emit m last (singlePiece b)).length ≤ 7 := emit_length (singlePiece_length b)
    have hrest : (decodeFrom m (lastAfter last (singlePiece b)) (sub :: rest)).length ≤ 7 * (sub :: rest).length := ih
    rw [decodeFrom, if_neg hb, List.length_append, List.length_cons]
    exact Nat.le_trans (Nat.add_le_add hpiece hrest) (by rw [Nat.mul_add_one]; omega)

theorem tokensToAscii_length (bs : Bytes) (m : Mode) : (tokensToAscii bs m).length ≤ 7 * bs.length :=
  decodeFrom_length m none bs

/-! ## Encoding -/

/-- `ch.upper()` where the loops apply it: to `a`..`z`. -/
def upcase (c : Nat) : Nat := if 0x61 ≤ c ∧ c ≤ 0x7A then c - 0x20 else c

inductive TokenError where
  /-- `no token mapping for ASCII char` -/
  | noMapping (ch : Nat)
  deriving DecidableEq, Repr

/-- `ascii_to_tokens`. -/
def asciiToTokens (s : Str) : Except TokenError Bytes :=
  s.mapM fun ch => match asciiToTok.lookup (upcase ch) with
    | some t => .ok t
    | none => .error (.noMapping (upcase ch))

def lossyToken (dropUnknown : Bool) (ch : Nat) : Option UInt8 :=
  match asciiToTok.lookup (upcase ch) with
  | some t => some t
  | none => if dropUnknown then none else some 0x29

/-- `ascii_to_tokens_lossy`. -/
def asciiToTokensLossy (s : Str) (dropUnknown : Bool) : Bytes := s.filterMap (lossyToken dropUnknown)

/-- The token for a character when unknown ones become `tSpace`. -/
def tokenOrSpace (ch : Nat) : UInt8 := (asciiToTok.lookup (upcase ch)).getD 0x29

theorem lossyToken_false (ch : Nat) : lossyToken false ch = some (tokenOrSpace ch) := by
  unfold lossyToken tokenOrSpace
  cases asciiToTok.lookup (upcase ch) <;> rfl

/-- Without dropping, every character becomes exactly one token. -/
theorem lossy_false_eq_map (s : Str) : asciiToTokensLossy s false = s.map tokenOrSpace := by
  rw [asciiToTokensLossy, funext lossyToken_false]
  exact congrFun (List.filterMap_eq_map (f := tokenOrSpace)) s

/-- No encoder byte is a two-byte prefix. -/
theorem tokenOrSpace_single (ch : Nat) : tokenOrSpace ch ∉ twoBytePrefixes := by
  unfold tokenOrSpace
  cases h : asciiToTok.lookup (upcase ch) with
  | none => decide
  | some t =>
    have htab : ∀ p ∈ asciiToTok, p.2 ∉ twoBytePrefixes := by decide
    exact htab _ (lookup_mem h)

end CalcBridge.Tokens
