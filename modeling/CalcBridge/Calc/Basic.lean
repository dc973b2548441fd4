import CalcBridge.Bridge.Pages
import CalcBridge.LinkLib.Lines
/-!
# The TI-BASIC the reply pager is written in (`programs/basic_view/VIEW.basic`)

The statements of the program, over the calculator's memory, its screen of 8
rows of 16 cells and the keys it has yet to read. How the calculator draws a
token is a parameter: `glyph` gives the characters, one a cell.
-/
open LinkLib LinkLib.Text LinkLib.Lines CalcBridge.Bridge

namespace CalcBridge.Calc

/-- The real variables the program uses. -/
inductive Var where
  | P
  | K
  | N
  deriving DecidableEq, Repr

inductive Label where
  | A | B | C | D | E | F | G | H | I | Z
  deriving DecidableEq, Repr

inductive Num where
  | lit (n : Int)
  | var (v : Var)
  | plus (a b : Num)
  | minus (a b : Num)
  deriving DecidableEq, Repr

inductive Cond where
  | eq (a b : Num)
  | gt (a b : Num)
  | lt (a b : Num)
  | and (a b : Cond)
  | or (a b : Cond)
  deriving DecidableEq, Repr

/-- What `Output(` is given: a number, a quoted string or `sub(StrK,start,len`. -/
inductive Shown where
  | num (e : Num)
  | quote (s : Str)
  | sub (k start len : Nat)
  deriving DecidableEq, Repr

inductive Act where
  | store (e : Num) (v : Var)
  | getKey (v : Var)
  | clrHome
  | output (row col : Nat) (x : Shown)
  deriving DecidableEq, Repr

/-! ## Memory and screen -/

def screenRows : Nat := 8
def screenCols : Nat := 16

def blank : Str := List.replicate (screenRows * screenCols) 0x20

structure State where
  /-- The token body of `StrK`, if the variable exists. -/
  strs : Nat → Option Bytes
  nums : Var → Int
  /-- The cells row by row. -/
  screen : Str
  /-- What the polls of the keypad will read: 0 when no key is down. -/
  keys : List Int

/-- Why the calculator stops in a statement. It waits when the keys ran out. -/
inductive Halt where
  | waits
  | errUndefined
  | errInvalidDim
  | errDomain
  deriving DecidableEq, Repr

/-- `Output(` writes on over the right edge and drops what is past the last cell. -/
def writeAt (screen : Str) (pos : Nat) (s : Str) : Str :=
  let s := s.take (screen.length - pos)
  screen.take pos ++ s ++ screen.drop (pos + s.length)

section Run
variable (glyph : Bytes → Str)

def Num.eval (s : State) : Num → Int
  | .lit n => n
  | .var v => s.nums v
  | .plus a b => a.eval s + b.eval s
  | .minus a b => a.eval s - b.eval s

def Cond.test (s : State) : Cond → Bool
  | .eq a b => a.eval s == b.eval s
  | .gt a b => decide (b.eval s < a.eval s)
  | .lt a b => decide (a.eval s < b.eval s)
  | .and a b => a.test s && b.test s
  | .or a b => a.test s || b.test s

/-- A whole number as the calculator shows it, below its ten-digit limit. -/
def showNum (n : Int) : Str := if n < 0 then 0x2D :: decimal n.natAbs else decimal n.natAbs

def Shown.text (s : State) : Shown → Except Halt Str
  | .num e => .ok (showNum (e.eval s))
  | .quote q => .ok q
  | .sub k start len =>
    match s.strs k with
    | none => .error .errUndefined
    | some body =>
      match Bridge.sub body start len with
      | none => .error .errInvalidDim
      | some toks => .ok (toks.flatMap glyph)

def Act.exec : Act → State → Except Halt State
  | .store e v, s => .ok { s with nums := Function.update s.nums v (e.eval s) }
  | .getKey v, s =>
    match s.keys with
    | [] => .error .waits
    | k :: keys => .ok { s with nums := Function.update s.nums v k, keys }
  | .clrHome, s => .ok { s with screen := blank }
  | .output row col x, s =>
    match x.text glyph s with
    | .error e => .error e
    | .ok t =>
      if 1 ≤ row ∧ row ≤ screenRows ∧ 1 ≤ col ∧ col ≤ screenCols then
        .ok { s with screen := writeAt s.screen (screenCols * (row - 1) + (col - 1)) t }
      else .error .errDomain

def meaning : Meaning Act Cond State Halt where
  exec := Act.exec glyph
  test b s := b.test s

end Run

abbrev Program := List (Line Label Act Cond)

/-! ## Writing on the screen -/

theorem writeAt_fits {screen s : Str} {pos : Nat} (h : pos + s.length ≤ screen.length) :
    writeAt screen pos s = screen.take pos ++ s ++ screen.drop (pos + s.length) := by
  have ht : s.take (screen.length - pos) = s := List.take_of_length_le (by omega)
  simp only [writeAt, ht]

/-- Text written right behind what is there, over cells that are still blank. -/
theorem writeAt_next {l s : Str} {pos n k : Nat} (hpos : l.length = pos) (hn : s.length + k = n) :
    writeAt (l ++ List.replicate n 0x20) pos s = l ++ s ++ List.replicate k 0x20 := by
  subst hpos hn
  rw [writeAt_fits (by simp), List.take_left, ← List.drop_drop, List.drop_left, List.drop_replicate,
    Nat.add_sub_cancel_left]

end CalcBridge.Calc
