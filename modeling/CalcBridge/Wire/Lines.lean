import CalcBridge.LinkLib.Runs
import Mathlib.Data.Bool.Basic
import Mathlib.Data.List.Basic
import Mathlib.Logic.Function.Basic
/-!
# The two lines (`src/wire.py`)

Two ends share two open-collector lines: a line reads low when an end pulls it.
`send_bit` and `recv_bit` become the places an end can be at between two of its
pin accesses, and a step of the link is one access of one end. Deadlines never
pass.
-/
open LinkLib LinkLib.Runs

namespace CalcBridge.Wire

inductive Line where
  | tip
  | ring
  deriving DecidableEq, Repr

/-- The line of a bit: a 0 is sent on `tip` and a 1 on `ring`. -/
def Line.ofBit (b : Bool) : Line := if b then .ring else .tip

/-- The lines an end pulls low. -/
structure Pins where
  tip : Bool
  ring : Bool
  deriving DecidableEq, Repr

/-- `idle`: both released. -/
def Pins.idle : Pins := ⟨false, false⟩

def Pins.pulls (p : Pins) : Line → Bool
  | .tip => p.tip
  | .ring => p.ring

def Pins.set (p : Pins) (v : Bool) : Line → Pins
  | .tip => { p with tip := v }
  | .ring => { p with ring := v }

def Pins.pullLow (p : Pins) (l : Line) : Pins := p.set true l

def Pins.release (p : Pins) (l : Line) : Pins := p.set false l

/-- Before which pin access an end is. The first four are `send_bit`, with its
bit, the next five `recv_bit`, with the sampled level or the bit it makes out. -/
inductive At where
  | pull (b : Bool)
  | awaitAck (b : Bool)
  | release (b : Bool)
  | awaitFree (b : Bool)
  | readTip
  | readRing (t : Bool)
  | pullAck (b : Bool)
  | awaitRelease (b : Bool)
  | releaseAck (b : Bool)
  | done
  deriving DecidableEq, Repr

/-- A call of `send_bit` or `recv_bit`. -/
inductive Job where
  | sendBit (b : Bool)
  | recvBit
  deriving DecidableEq, Repr

def Job.start : Job → At
  | .sendBit b => .pull b
  | .recvBit => .readTip

/-- One end: where it is, the calls after this one, the bits its `recv_bit`
calls returned, and what it pulls. -/
structure End where
  place : At
  jobs : List Job
  got : List Bool
  pins : Pins
  deriving DecidableEq, Repr

/-- The call has returned: the next one, if there is one. -/
def End.next (e : End) : End :=
  match e.jobs with
  | [] => { e with place := .done }
  | j :: js => { e with place := j.start, jobs := js }

/-- One pin access of an end that reads the levels `value` (`true` is high). A
wait whose condition fails is tried again. -/
def End.move (e : End) (value : Line → Bool) : End :=
  match e.place with
  | .pull b => { e with place := .awaitAck b, pins := e.pins.pullLow (.ofBit b) }
  | .awaitAck b => if value (.ofBit !b) then e else { e with place := .release b }
  | .release b => { e with place := .awaitFree b, pins := e.pins.release (.ofBit b) }
  | .awaitFree b => if value (.ofBit !b) then e.next else e
  | .readTip => { e with place := .readRing (value .tip) }
  | .readRing t =>
    if t = false then { e with place := .pullAck false }
    else if value .ring = false then { e with place := .pullAck true }
    else { e with place := .readTip }
  | .pullAck b => { e with place := .awaitRelease b, pins := e.pins.pullLow (.ofBit !b) }
  | .awaitRelease b => if value (.ofBit b) then { e with place := .releaseAck b } else e
  | .releaseAck b => { e with got := e.got ++ [b], pins := e.pins.release (.ofBit !b) }.next
  | .done => e

inductive Side where
  | a
  | b
  deriving DecidableEq, Repr

def Side.other : Side → Side
  | .a => .b
  | .b => .a

abbrev Link := Side → End

/-- The level of a line: low when at least one end pulls it. -/
def Link.value (s : Link) (l : Line) : Bool := !((s .a).pins.pulls l || (s .b).pins.pulls l)

def Link.move (s : Link) (w : Side) : Link := Function.update s w ((s w).move s.value)

/-- One end takes a step. -/
def Link.step (s : Link) (w : Side) : Link × Unit := (s.move w, ())

/-! ## Waiting -/

/-- The end is in a wait whose condition does not hold. -/
def End.Waits (e : End) (value : Line → Bool) : Prop :=
  match e.place with
  | .awaitAck b => value (.ofBit !b) = true
  | .awaitFree b => value (.ofBit !b) = false
  | .readTip => value .tip = true ∧ value .ring = true
  | .readRing t => t = true ∧ value .tip = true ∧ value .ring = true
  | .awaitRelease b => value (.ofBit b) = false
  | _ => False

def Link.Finished (s : Link) : Prop := ∀ w, (s w).place = .done

/-- Both ends wait, or one does and the other has finished. -/
def Link.Stuck (s : Link) : Prop := ¬ s.Finished ∧ ∀ w, (s w).place = .done ∨ (s w).Waits s.value

/-- A step of a waiting end changes nothing but, in `recv_bit`, the line it looks at next. -/
theorem End.Waits.move {e : End} {value : Line → Bool} (h : e.Waits value) :
    (e.move value).pins = e.pins ∧ (e.move value).got = e.got ∧ (e.move value).Waits value ∧
      (e.move value).place ≠ .done := by
  obtain ⟨place, js, got, pins⟩ := e
  cases place with
  | awaitAck b =>
    have h : value (.ofBit !b) = true := h
    simp [End.move, End.Waits, h]
  | awaitFree b =>
    have h : value (.ofBit !b) = false := h
    simp [End.move, End.Waits, h]
  | readTip =>
    obtain ⟨htip, hring⟩ : value .tip = true ∧ value .ring = true := h
    simp [End.move, End.Waits, htip, hring]
  | readRing t =>
    obtain ⟨rfl, htip, hring⟩ : t = true ∧ value .tip = true ∧ value .ring = true := h
    simp [End.move, End.Waits, htip, hring]
  | awaitRelease b =>
    have h : value (.ofBit b) = false := h
    simp [End.move, End.Waits, h]
  | _ => exact absurd h id

/-- Once both ends wait they wait for ever, and nothing more is received. -/
theorem Link.Stuck.move {s : Link} (h : s.Stuck) (w : Side) : (s.move w).Stuck ∧ ∀ v, ((s.move w) v).got = (s v).got := by
  obtain ⟨hfin, hwait⟩ := h
  rcases hwait w with hdone | hw
  · have hsame : s.move w = s := by
      have hend : (s w).move s.value = s w := by
        unfold End.move
        rw [hdone]
      rw [Link.move, hend, Function.update_eq_self]
    rw [hsame]
    exact ⟨⟨hfin, hwait⟩, fun _ => rfl⟩
  · obtain ⟨hpins, hgot, hw', hplace⟩ := hw.move
    have hself : (s.move w) w = (s w).move s.value := Function.update_self ..
    have hother : ∀ v, v ≠ w → (s.move w) v = s v := fun v hv => Function.update_of_ne hv ..
    have hallpins : ∀ v, ((s.move w) v).pins = (s v).pins := by
      intro v
      by_cases hv : v = w
      · rw [hv, hself, hpins]
      · rw [hother v hv]
    -- No pin changes, so the other end sees the same levels.
    have hvalue : (s.move w).value = s.value := by
      funext l
      rw [Link.value, Link.value, hallpins, hallpins]
    refine ⟨⟨fun hf => hplace (by rw [← hself]; exact hf w), fun v => ?_⟩, fun v => ?_⟩
    · rw [hvalue]
      by_cases hv : v = w
      · rw [hv, hself]
        exact .inr hw'
      · rw [hother v hv]
        exact hwait v
    · by_cases hv : v = w
      · rw [hv, hself, hgot]
      · rw [hother v hv]

theorem Link.Stuck.run {s : Link} (h : s.Stuck) (es : List Side) : (Runs.run Link.step s es).1.Stuck := by
  induction es generalizing s with
  | nil => exact h
  | cons w es ih => exact ih (h.move w).1

/-- The line the end's next step pulls. -/
def At.pulling : At → Option Line
  | .pull b => some (.ofBit b)
  | .pullAck b => some (.ofBit !b)
  | _ => none

/-- The line the end waits to see high. -/
def At.freeing : At → Option Line
  | .awaitFree b => some (.ofBit !b)
  | .awaitRelease b => some (.ofBit b)
  | _ => none

/-- The step pulls a line that the other end is still waiting to see high. -/
def Link.Clashes (s : Link) (w : Side) : Prop :=
  ∃ l, (s w).place.pulling = some l ∧ (s w.other).place.freeing = some l

/-! ## Bytes -/

/-- The bits `send_byte` sends. -/
def byteBits (b : UInt8) : List Bool := (List.range 8).map fun i => (b.toNat >>> i) &&& 1 = 1

def sendByte (b : UInt8) : List Job := (byteBits b).map .sendBit

/-- `recv_byte`, from the bits its eight calls returned. -/
def recvByte (bits : List Bool) : UInt8 :=
  UInt8.ofNat (bits.zipIdx.foldl (fun b x => b ||| (x.1.toNat <<< x.2)) 0)

/-- `n` calls of `recv_byte`. -/
def recvBytes : Nat → List Bool → List UInt8
  | 0, _ => []
  | n + 1, bits => recvByte (bits.take 8) :: recvBytes n (bits.drop 8)

theorem recvByte_byteBits (b : UInt8) : recvByte (byteBits b) = b := by
  have h : ∀ n < 256, recvByte (byteBits (UInt8.ofNat n)) = UInt8.ofNat n := by decide +kernel
  simpa using h b.toNat b.toNat_lt

theorem length_byteBits (bytes : List UInt8) : (bytes.flatMap byteBits).length = 8 * bytes.length := by
  rw [List.length_flatMap]
  induction bytes with
  | nil => rfl
  | cons b bytes ih =>
    rw [List.map_cons, List.sum_cons, ih, List.length_cons, Nat.mul_succ, Nat.add_comm]
    rfl

theorem recvBytes_flatMap (bytes : List UInt8) : recvBytes bytes.length (bytes.flatMap byteBits) = bytes := by
  induction bytes with
  | nil => rfl
  | cons b bytes ih =>
    have hlen : (byteBits b).length = 8 := rfl
    rw [List.flatMap_cons, List.length_cons, recvBytes, List.take_left' hlen, List.drop_left' hlen, recvByte_byteBits, ih]

end CalcBridge.Wire
