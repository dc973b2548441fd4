import CalcBridge.LinkLib.Text
/-!
# Variable names, headers and reals (`src/vartypes.py`)
-/
open LinkLib LinkLib.Text

namespace CalcBridge.Vartypes

/-! ## Types and names -/

def tReal : UInt8 := 0x00
def tList : UInt8 := 0x01
def tString : UInt8 := 0x04
def tProg : UInt8 := 0x05
def tProgLocked : UInt8 := 0x06

def tVarStrng : UInt8 := 0xAA

/-- `STR_INDEX`: user-visible digit to table index. -/
def strIndex : List (Nat × UInt8) :=
  [(1, 0), (2, 1), (3, 2), (4, 3), (5, 4), (6, 5), (7, 6), (8, 7), (9, 8), (0, 9)]

/-- `str_name`. The error is the text of the ValueError. -/
def strName (n : Nat) : Except String Bytes :=
  match strIndex.lookup n with
  | some i => .ok ([tVarStrng, i] ++ List.replicate 6 0)
  | none => .error "Str number must be 0..9"

/-- `list_name_82`. -/
def listName82 (idx : UInt8) : Bytes := [0x5D, idx] ++ List.replicate 6 0

/-- `real_name`. -/
def realName (letter : Str) : Except String Bytes :=
  match letter with
  | [c] => if 0x41 ≤ c ∧ c ≤ 0x5A then .ok ([UInt8.ofNat c] ++ List.replicate 7 0)
           else .error "letter must be a single uppercase A..Z"
  | _ => .error "letter must be a single uppercase A..Z"

/-- `prog_name`. -/
def progName (name : Str) : Except String Bytes :=
  if ¬(1 ≤ name.length ∧ name.length ≤ 8) then .error "prog name must be 1..8 chars"
  else if ∃ c ∈ name, ¬((0x41 ≤ c ∧ c ≤ 0x5A) ∨ (0x30 ≤ c ∧ c ≤ 0x39)) then
    .error "prog name must be uppercase A..Z or 0..9"
  else .ok (name.map UInt8.ofNat ++ List.replicate (8 - name.length) 0)

/-- `make_var_header`. `proto` 82 gives the 11-byte form, any other the 13-byte one. -/
def makeVarHeader (dataSize : Nat) (typeId : UInt8) (name8 : Bytes) (proto : Nat) : Except String Bytes :=
  if name8.length ≠ 8 then .error "name must be exactly 8 bytes"
  else
    let base := [UInt8.ofNat (dataSize &&& 0xFF), UInt8.ofNat ((dataSize >>> 8) &&& 0xFF), typeId] ++ name8
    .ok (if proto = 82 then base else base ++ [0, 0])

/-! ## Reals -/

/-- `parse_real_parts`: sign, unbiased exponent and the 14-digit mantissa. -/
def parseRealParts (b : Bytes) : Int × Int × Nat :=
  let sign : Int := if b.getD 0 0 &&& 0x80 ≠ 0 then -1 else 1
  let exp : Int := (b.getD 1 0).toNat - 0x80
  let digits := (List.range 7).foldl
    (fun acc i => acc * 100 + (((b.getD (2 + i) 0).toNat >>> 4) * 10) + ((b.getD (2 + i) 0).toNat &&& 0x0F)) 0
  (sign, exp, digits)

/-- A number as `encode_real` sees it: zero, or the sign, the 14 significant
digits and the exponent that `"{:.13e}".format` writes. -/
inductive Number where
  | zero
  | sci (neg : Bool) (m : Nat) (e : Int)
  deriving DecidableEq, Repr

/-- The int `n`, exact below `10 ^ 14`. -/
def Number.ofNat (n : Nat) : Number :=
  if n = 0 then .zero
  else
    let e := (decimal n).length - 1
    .sci false (n * 10 ^ 13 / 10 ^ e) e

/-- `"{:.13e}".format` of a number with digits `m` and exponent `e`. -/
def format13e (m : Nat) (e : Int) : Str :=
  let ds := (List.range 14).map fun i => 0x30 + m / 10 ^ (13 - i) % 10
  let exp := decimal e.natAbs
  ds.take 1 ++ str "." ++ ds.drop 1 ++ str "e" ++ (if e < 0 then str "-" else str "+") ++
    (if exp.length < 2 then str "0" else []) ++ exp

/-- `int(s)` of an optional sign and digits. -/
def parseInt (s : Str) : Int :=
  let digits (t : Str) : Nat := t.foldl (fun acc c => acc * 10 + (c - 0x30)) 0
  match s with
  | 0x2D :: t => -(digits t)
  | 0x2B :: t => digits t
  | t => digits t

/-- `encode_real`: sign byte, biased exponent, then seven BCD pairs. -/
def encodeReal (value : Number) : Bytes :=
  match value with
  | .zero => [0x00, 0x80] ++ List.replicate 7 0
  | .sci neg m e =>
    let parts := (format13e m e).splitOn 0x65
    let exp := parseInt (parts.getD 1 [])
    let digits := (parts.getD 0 []).filter (· ≠ 0x2E)
    let digits := if digits.length < 14 then digits ++ List.replicate (14 - digits.length) 0x30
                  else digits.take 14
    [if neg then 0x80 else 0x00, UInt8.ofNat ((exp + 0x80) % 256).toNat] ++
      (List.range 7).map fun i =>
        UInt8.ofNat (((digits.getD (2 * i) 0 - 0x30) <<< 4) ||| (digits.getD (2 * i + 1) 0 - 0x30))

example : encodeReal (.sci true (31415926535898) 0) = [0x80, 0x80, 0x31, 0x41, 0x59, 0x26, 0x53, 0x58, 0x98] := by
  decide

end CalcBridge.Vartypes
