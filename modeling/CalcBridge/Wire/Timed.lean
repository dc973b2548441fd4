import Mathlib.Tactic.Tauto
import CalcBridge.LinkLib.Polling
import CalcBridge.LinkLib.Ticks
import CalcBridge.Packet
import CalcBridge.Wire.Lines
/-!
# Bits, bytes and deadlines (`src/wire.py`, `src/packet.py`)

One end's calls, with their deadlines, against any levels on the two lines and
any clock. A moment is between two operations of the Pico on a pin or the clock.
-/
open LinkLib LinkLib.Polling LinkLib.Ticks

namespace CalcBridge.Wire.Timed

/-! ## Operations -/

inductive Op where
  | value (l : Line)
  | ticksMs
  | pullLow (l : Line)
  | release (l : Line)
  deriving DecidableEq, Repr

def Op.Ans : Op → Type
  | .value _ => Bool
  | .ticksMs => Nat
  | .pullLow _ => Unit
  | .release _ => Unit

/-- The samples and clock readings to come, in order, and what the Pico pulls. -/
structure World where
  levels : Line → Nat → Bool
  clock : Nat → Nat
  pins : Pins

/-- The next sample of a line (`true` is high), the next reading of the clock, or a pin set. -/
def World.perform : (o : Op) → World → o.Ans × World
  | .value l, w => (w.levels l 0, { w with levels := Function.update w.levels l fun n => w.levels l (n + 1) })
  | .ticksMs, w => (w.clock 0, { w with clock := fun n => w.clock (n + 1) })
  | .pullLow l, w => ((), { w with pins := w.pins.pullLow l })
  | .release l, w => ((), { w with pins := w.pins.release l })

abbrev Call : Type → Type 1 := Prog Op Op.Ans

def value (l : Line) : Call Bool := Prog.perform (Op.value l)
def ticksMs : Call Nat := Prog.perform Op.ticksMs
def pullLow (l : Line) : Call Unit := Prog.perform (Op.pullLow l)
def release (l : Line) : Call Unit := Prog.perform (Op.release l)

/-! ## Receiving -/

/-- A turn of the first wait in `recv_bit`: the levels when a line is low, or `none` at the deadline. -/
def edgeBody (deadline : Nat) : Call (Option (Option (Bool × Bool))) := do
  let t ← value .tip
  let r ← value .ring
  if t = false ∨ r = false then return some (some (t, r))
  else
    let now ← ticksMs
    return if ticksDiff deadline now ≤ 0 then some none else none

def edge (deadline : Nat) : Call (Option (Bool × Bool)) := Prog.loop (edgeBody deadline)

/-- `while l.value() == v: pass`. -/
def waitWhile (l : Line) (v : Bool) : Call Unit := Prog.loop do
  let x ← value l
  return if x = v then none else some ()

/-- Pull the other line until the sender of bit `b` lets go of its own. -/
def acknowledge (b : Bool) : Call Unit := do
  pullLow (.ofBit !b)
  waitWhile (.ofBit b) false
  release (.ofBit !b)

/-- `recv_bit`. -/
def recvBit (timeoutMs : Nat) : Call (Option Bool) := do
  let start ← ticksMs
  match ← edge (ticksAdd start timeoutMs) with
  | none => return none
  | some (t, _) =>
    if t = false then
      acknowledge false
      return some false
    else
      acknowledge true
      return some true

/-- A turn of the loop in `recv_byte_traced`, which trusts no edge that both lines show. -/
def recvBitTraced (timeoutMs : Nat) : Call (Option Bool) := do
  let start ← ticksMs
  match ← edge (ticksAdd start timeoutMs) with
  | none => return none
  | some (t, r) =>
    if t = false ∧ r = true then
      acknowledge false
      return some false
    else if r = false ∧ t = true then
      acknowledge true
      return some true
    else return none

/-- `if x is None: return None`. -/
def orNone {α β : Type} (p : Call (Option α)) (next : α → Call (Option β)) : Call (Option β) := do
  match ← p with
  | none => return none
  | some a => next a

/-- `for i in range(8)`: the bits go into the byte, low bit first. -/
def recvBits (recv : Call (Option Bool)) : List Nat → Nat → Call (Option UInt8)
  | [], b => return some (UInt8.ofNat b)
  | i :: is, b => orNone recv fun bit => recvBits recv is (b ||| (bit.toNat <<< i))

/-- `recv_byte`. -/
def recvByte (timeoutMs : Nat) : Call (Option UInt8) := recvBits (recvBit timeoutMs) (List.range 8) 0

/-- `recv_byte_traced`, without its prints. -/
def recvByteTraced (timeoutMs : Nat) : Call (Option UInt8) := recvBits (recvBitTraced timeoutMs) (List.range 8) 0

/-- The body loop of `recv_packet`. -/
def recvBody (timeoutMs : Nat) : Nat → Call (Option Bytes)
  | 0 => return some []
  | n + 1 => orNone (recvByte timeoutMs) fun b => orNone (recvBody timeoutMs n) fun bs => return some (b :: bs)

/-- `recv_packet`. -/
def recvPacket (timeoutMs : Nat) : Call (Option Packet) :=
  orNone (recvByte timeoutMs) fun machine =>
  orNone (recvByte timeoutMs) fun cmd =>
  orNone (recvByte timeoutMs) fun lo =>
  orNone (recvByte timeoutMs) fun hi =>
  let n := lo.toNat ||| (hi.toNat <<< 8)
  if cmd ∈ Cmd.headerOnly then return some ⟨machine, cmd, []⟩
  else if n = 0 then return some ⟨machine, cmd, []⟩
  else orNone (recvBody timeoutMs n) fun data => do
    let csLo ← recvByte timeoutMs
    let csHi ← recvByte timeoutMs
    -- A checksum that differs is printed, and nothing else.
    if csLo = none ∨ csHi = none then return none
    else return some ⟨machine, cmd, data⟩

/-! ## Sending -/

/-- `while l.value() == v`, given up with `false` at the deadline. -/
def awaitLevel (l : Line) (v : Bool) (deadline : Nat) : Call Bool := Prog.loop do
  let x ← value l
  if x ≠ v then return some true
  else
    let now ← ticksMs
    return if ticksDiff deadline now ≤ 0 then some false else none

/-- `send_bit`. -/
def sendBit (b : Bool) (timeoutMs : Nat) : Call Bool := do
  let start ← ticksMs
  let deadline := ticksAdd start timeoutMs
  pullLow (.ofBit b)
  if ← awaitLevel (.ofBit !b) true deadline then
    release (.ofBit b)
    awaitLevel (.ofBit !b) false deadline
  else
    release (.ofBit b)
    return false

def sendBits (b timeoutMs : Nat) : List Nat → Call Bool
  | [] => return true
  | i :: is => do
    if ← sendBit ((b >>> i) &&& 1 ≠ 0) timeoutMs then sendBits b timeoutMs is
    else return false

/-- `send_byte`. -/
def sendByte (b timeoutMs : Nat) : Call Bool := sendBits b timeoutMs (List.range 8)

/-! ## The pins -/

/-- Both lines pulled at once. -/
def Both (P : Pins) : Prop := P.tip = true ∧ P.ring = true

instance (P : Pins) : Decidable (Both P) := inferInstanceAs (Decidable (_ ∧ _))

/-- From pins `P`, at no moment both lines are pulled, and at the return the pins are `P'`. -/
def Takes {α : Type} (P : Pins) (p : Call α) (P' : Pins) : Prop :=
  ∀ w : World, w.pins = P → Safe World.perform (fun w => ¬Both w.pins) (fun _ t => t.pins = P') p w

variable {α β : Type} {P P' P'' : Pins}

theorem Takes.pure (hP : ¬Both P) (a : α) : Takes P (Pure.pure a) P := by
  intro w hw
  exact along_ret.2 ⟨hw ▸ hP, hw⟩

theorem Takes.bind {p : Call α} {g : α → Call β} (hp : Takes P p P') (hg : ∀ a, Takes P' (g a) P'') :
    Takes P (p >>= g) P'' := by
  intro w hw
  exact Along.bind ((hp w hw).mono fun a t ht => hg a t ht)

theorem Takes.loop {body : Call (Option β)} (hbody : Takes P body P) (hP : ¬Both P) : Takes P (Prog.loop body) P := by
  intro w hw
  apply Along.poll (I := fun w => w.pins = P) _ hw
  intro w hw
  apply (hbody w hw).mono
  intro r t ht
  cases r with
  | none => exact ht
  | some b => exact along_ret.2 ⟨ht ▸ hP, ht⟩

theorem takes_perform {o : Op} (hP : ¬Both P) (hP' : ¬Both P') (ho : ∀ w : World, w.pins = P → (w.perform o).2.pins = P') :
    Takes P (Prog.perform o) P' := by
  intro w hw
  refine along_op.2 ⟨hw ▸ hP, trivial, along_ret.2 ⟨?_, ho w hw⟩⟩
  rw [ho w hw]
  exact hP'

section

variable (hP : ¬Both P)
include hP

theorem takes_value (l : Line) : Takes P (value l) P := takes_perform hP hP fun _ hw => hw

theorem takes_ticksMs : Takes P ticksMs P := takes_perform hP hP fun _ hw => hw

/-- The waits set no pin. -/
theorem takes_edge (deadline : Nat) : Takes P (edge deadline) P := by
  apply Takes.loop _ hP
  apply (takes_value hP _).bind
  intro t
  apply (takes_value hP _).bind
  intro r
  split
  · exact Takes.pure hP _
  · exact (takes_ticksMs hP).bind fun now => Takes.pure hP _

theorem takes_waitWhile (l : Line) (v : Bool) : Takes P (waitWhile l v) P :=
  Takes.loop ((takes_value hP l).bind fun _ => Takes.pure hP _) hP

theorem takes_awaitLevel (l : Line) (v : Bool) (deadline : Nat) : Takes P (awaitLevel l v deadline) P := by
  apply Takes.loop _ hP
  apply (takes_value hP l).bind
  intro x
  split
  · exact Takes.pure hP _
  · exact (takes_ticksMs hP).bind fun now => Takes.pure hP _

end

theorem not_both_idle : ¬Both Pins.idle := by decide

theorem not_both_pulled (l : Line) : ¬Both (Pins.idle.pullLow l) := by cases l <;> decide

theorem takes_pullLow (l : Line) : Takes Pins.idle (pullLow l) (Pins.idle.pullLow l) := by
  apply takes_perform not_both_idle (not_both_pulled l)
  intro w hw
  exact congrArg (Pins.pullLow · l) hw

theorem takes_release (l : Line) : Takes (Pins.idle.pullLow l) (release l) Pins.idle := by
  apply takes_perform (not_both_pulled l) not_both_idle
  intro w hw
  show w.pins.release l = Pins.idle
  rw [hw]
  cases l <;> rfl

theorem takes_acknowledge (b : Bool) : Takes Pins.idle (acknowledge b) Pins.idle :=
  (takes_pullLow _).bind fun _ => (takes_waitWhile (not_both_pulled _) _ _).bind fun _ => takes_release _

/-- A call that starts and ends with both lines released. -/
abbrev Clean (p : Call α) : Prop := Takes Pins.idle p Pins.idle

theorem Clean.pure (a : α) : Clean (Pure.pure a) := Takes.pure not_both_idle a

theorem clean_recvBit (timeoutMs : Nat) : Clean (recvBit timeoutMs) := by
  apply (takes_ticksMs not_both_idle).bind
  intro start
  apply (takes_edge not_both_idle _).bind
  rintro (_ | ⟨t, r⟩)
  · exact Clean.pure none
  · dsimp only
    split
    · exact (takes_acknowledge false).bind fun _ => Clean.pure _
    · exact (takes_acknowledge true).bind fun _ => Clean.pure _

theorem clean_recvBitTraced (timeoutMs : Nat) : Clean (recvBitTraced timeoutMs) := by
  apply (takes_ticksMs not_both_idle).bind
  intro start
  apply (takes_edge not_both_idle _).bind
  rintro (_ | ⟨t, r⟩)
  · exact Clean.pure none
  · dsimp only
    split
    · exact (takes_acknowledge false).bind fun _ => Clean.pure _
    · split
      · exact (takes_acknowledge true).bind fun _ => Clean.pure _
      · exact Clean.pure none

theorem clean_recvBits {recv : Call (Option Bool)} (h : Clean recv) (is : List Nat) (b : Nat) : Clean (recvBits recv is b) := by
  induction is generalizing b with
  | nil => exact Clean.pure _
  | cons i is ih =>
    apply Takes.bind h
    rintro (_ | bit)
    · exact Clean.pure none
    · exact ih _

theorem clean_sendBit (b : Bool) (timeoutMs : Nat) : Clean (sendBit b timeoutMs) := by
  apply (takes_ticksMs not_both_idle).bind
  intro start
  apply (takes_pullLow _).bind
  intro _
  apply (takes_awaitLevel (not_both_pulled _) _ _ _).bind
  rintro (_ | _)
  · exact (takes_release _).bind fun _ => Clean.pure false
  · exact (takes_release _).bind fun _ => takes_awaitLevel not_both_idle _ _ _

theorem clean_sendBits (b timeoutMs : Nat) (is : List Nat) : Clean (sendBits b timeoutMs is) := by
  induction is with
  | nil => exact Clean.pure true
  | cons i is ih =>
    apply (clean_sendBit _ timeoutMs).bind
    rintro (_ | _)
    · exact Clean.pure false
    · exact ih

/-- The call pulls at most one line at any moment, and none once it has returned. -/
def Released (w : World) (p : Call α) : Prop :=
  (∀ n, ¬Both (after World.perform n p w).2.pins) ∧ ∀ a t, Returns World.perform p w a t → t.pins = Pins.idle

theorem Clean.released {p : Call α} (hp : Clean p) {w : World} (hw : w.pins = Pins.idle) : Released w p :=
  ⟨fun n => (hp w hw n).1, fun _ _ hret => (hp w hw).returns hret⟩

/-- The link is never left driven by a call that starts with both pins released. -/
theorem never_left_driven (w : World) (hw : w.pins = Pins.idle) (timeoutMs : Nat) :
    (∀ b, Released w (sendBit b timeoutMs)) ∧ (∀ b, Released w (sendByte b timeoutMs)) ∧ Released w (recvBit timeoutMs) ∧
      Released w (recvByte timeoutMs) ∧ Released w (recvByteTraced timeoutMs) := by
  refine ⟨?_, ?_, ?_, ?_, ?_⟩
  · intro b
    exact (clean_sendBit b timeoutMs).released hw
  · intro b
    exact (clean_sendBits b timeoutMs _).released hw
  · exact (clean_recvBit timeoutMs).released hw
  · exact (clean_recvBits (clean_recvBit timeoutMs) _ _).released hw
  · exact (clean_recvBits (clean_recvBitTraced timeoutMs) _ _).released hw

/-- The peer sends the bits 0, 1, 0, 1 and so on, and the clock runs. -/
def talking : World where
  levels
    | .tip, n => 2 ≤ n % 4
    | .ring, n => n % 4 = 0 ∨ n % 4 = 3
  clock n := n
  pins := Pins.idle

theorem never_left_driven_talking :
    (∀ b, Released talking (sendBit b 2000)) ∧ (∀ b, Released talking (sendByte b 2000)) ∧
      Released talking (recvBit 2000) ∧ Released talking (recvByte 2000) ∧ Released talking (recvByteTraced 2000) :=
  never_left_driven talking rfl 2000

/-! ## Returning -/

def Line.other : Line → Line
  | .tip => .ring
  | .ring => .tip

theorem Line.other_ofBit (b : Bool) : Line.other (.ofBit !b) = .ofBit b := by cases b <;> rfl

/-- Where a line is pulled, a later sample of the other one is high: the peer lets go of it. -/
def LetsGo : Op → World → Prop
  | .pullLow l, w => ∃ n, w.levels (Line.other l) n = true
  | _, _ => True

/-- The clock passes every deadline, whenever one starts to wait for it. -/
def Ticking (w : World) : Prop := ∀ deadline N, ∃ n, N ≤ n ∧ ticksDiff deadline (w.clock n) ≤ 0

/-- The call returns exactly when the peer lets go at every acknowledgement in its run. -/
def Fair (p : Call α) : Prop :=
  ∀ w, Ticking w → (Halts World.perform p w ↔ Each World.perform LetsGo p w) ∧
    ∀ a t, Returns World.perform p w a t → Ticking t

theorem Fair.pure (a : α) : Fair (Pure.pure a : Call α) := by
  intro w hw
  refine ⟨iff_of_true ⟨a, w, returns_ret.2 ⟨rfl, rfl⟩⟩ (along_ret.2 ⟨trivial, trivial⟩), ?_⟩
  intro b t hret
  rw [(returns_ret.1 hret).2]
  exact hw

theorem Fair.bind {p : Call α} {g : α → Call β} (hp : Fair p) (hg : ∀ a, Fair (g a)) : Fair (p >>= g) := by
  intro w hw
  obtain ⟨hhalts, hticks⟩ := hp w hw
  refine ⟨?_, ?_⟩
  · refine halts_bind.trans (Iff.trans ?_ each_bind.symm)
    constructor
    · rintro ⟨a, t, hret, hrest⟩
      refine ⟨hhalts.1 ⟨a, t, hret⟩, ?_⟩
      intro a' t' hret'
      obtain ⟨rfl, rfl⟩ := hret.unique hret'
      exact ((hg a' t' (hticks a' t' hret')).1).1 hrest
    · rintro ⟨heach, hrest⟩
      obtain ⟨a, t, hret⟩ := hhalts.2 heach
      exact ⟨a, t, hret, ((hg a t (hticks a t hret)).1).2 (hrest a t hret)⟩
  · intro b u hret
    obtain ⟨a, t, ha, hb⟩ := returns_bind.1 hret
    exact (hg a t (hticks a t ha)).2 b u hb

theorem Ticking.next {w : World} (hw : Ticking w) : Ticking { w with clock := fun n => w.clock (n + 1) } := by
  intro deadline N
  obtain ⟨n, hn, hpast⟩ := hw deadline (N + 1)
  obtain ⟨m, rfl⟩ := Nat.exists_eq_succ_of_ne_zero (Nat.ne_of_gt (Nat.lt_of_lt_of_le (Nat.succ_pos N) hn))
  exact ⟨m, Nat.le_of_succ_le_succ hn, hpast⟩

theorem fair_ticksMs : Fair ticksMs := by
  intro w hw
  refine ⟨iff_of_true ⟨_, _, returns_op.2 (returns_ret.2 ⟨rfl, rfl⟩)⟩ ?_, ?_⟩
  · exact along_op.2 ⟨trivial, trivial, along_ret.2 ⟨trivial, trivial⟩⟩
  · intro a t hret
    obtain ⟨-, rfl⟩ := returns_ret.1 (returns_op.1 hret)
    exact hw.next

def World.nextLevel (l : Line) (w : World) : World :=
  { w with levels := Function.update w.levels l fun n => w.levels l (n + 1) }

/-- One turn of the first wait. -/
def edgeTurn (deadline : Nat) (w : World) : Option (Option (Bool × Bool)) × World :=
  let t := w.levels .tip 0
  let r := w.levels .ring 0
  let w' := World.nextLevel .ring (World.nextLevel .tip w)
  if t = false ∨ r = false then (some (some (t, r)), w')
  else (if ticksDiff deadline (w.clock 0) ≤ 0 then some none else none, { w' with clock := fun n => w.clock (n + 1) })

theorem returns_edgeBody (deadline : Nat) (w : World) :
    Returns World.perform (edgeBody deadline) w (edgeTurn deadline w).1 (edgeTurn deadline w).2 := by
  refine returns_op.2 (returns_op.2 ?_)
  show Returns World.perform (if w.levels .tip 0 = false ∨ w.levels .ring 0 = false then _ else _) _ _ _
  by_cases hlow : w.levels .tip 0 = false ∨ w.levels .ring 0 = false
  · have hturn : edgeTurn deadline w = (some (some (w.levels .tip 0, w.levels .ring 0)), _) := if_pos hlow
    rw [if_pos hlow, hturn]
    exact returns_ret.2 ⟨rfl, rfl⟩
  · have hturn : edgeTurn deadline w = (if ticksDiff deadline (w.clock 0) ≤ 0 then some none else none, _) := if_neg hlow
    rw [if_neg hlow, hturn]
    exact returns_op.2 (returns_ret.2 ⟨rfl, rfl⟩)

theorem each_edgeBody (deadline : Nat) (w : World) : Each World.perform LetsGo (edgeBody deadline) w := by
  refine along_op.2 ⟨trivial, trivial, along_op.2 ⟨trivial, trivial, ?_⟩⟩
  show Each World.perform LetsGo (if w.levels .tip 0 = false ∨ w.levels .ring 0 = false then _ else _) _
  split
  · exact along_ret.2 ⟨trivial, trivial⟩
  · exact along_op.2 ⟨trivial, trivial, along_ret.2 ⟨trivial, trivial⟩⟩

/-- A turn that does not end the wait reads the clock before the deadline. -/
theorem edgeTurn_none {deadline : Nat} {w : World} (h : (edgeTurn deadline w).1 = none) :
    0 < ticksDiff deadline (w.clock 0) ∧ ∀ n, (edgeTurn deadline w).2.clock n = w.clock (n + 1) := by
  unfold edgeTurn at h ⊢
  dsimp only at h ⊢
  split at h
  · cases h
  · rename_i hlow
    rw [if_neg hlow]
    dsimp only at h
    split at h
    · cases h
    · rename_i hpast
      exact ⟨Int.lt_of_not_ge hpast, fun _ => rfl⟩

theorem halts_edge (deadline : Nat) {w : World} (hw : Ticking w) : Halts World.perform (edge deadline) w := by
  refine (halts_loop (returns_edgeBody deadline)).2 ?_
  by_contra hall
  simp only [ne_eq, not_exists, not_not] at hall
  have hclock : ∀ n k, ((fun w => (edgeTurn deadline w).2)^[n] w).clock k = w.clock (k + n) := by
    intro n
    induction n with
    | zero => exact fun k => rfl
    | succ n ih =>
      intro k
      rw [Function.iterate_succ_apply', (edgeTurn_none (hall n)).2, ih, Nat.add_right_comm]
      rfl
  obtain ⟨n, -, hpast⟩ := hw deadline 0
  have hbefore := (edgeTurn_none (hall n)).1
  rw [hclock, Nat.zero_add] at hbefore
  omega

theorem ticking_edgeTurn {deadline : Nat} {w : World} (hw : Ticking w) : Ticking (edgeTurn deadline w).2 := by
  unfold edgeTurn
  dsimp only
  split
  · exact hw
  · exact hw.next

/-- The first wait always ends: with an edge, or at the deadline. -/
theorem fair_edge (deadline : Nat) : Fair (edge deadline) := by
  intro w hw
  refine ⟨iff_of_true (halts_edge deadline hw) (each_loop (each_edgeBody deadline) w), ?_⟩
  intro a t hret
  apply hret.loop_inv (I := Ticking) (returns_edgeBody deadline) _ hw
  intro w hw
  exact ticking_edgeTurn hw

/-- One turn of the second wait. -/
def waitTurn (l : Line) (v : Bool) (w : World) : Option Unit × World :=
  (if w.levels l 0 = v then none else some (), World.nextLevel l w)

theorem returns_waitBody (l : Line) (v : Bool) (w : World) :
    Returns World.perform (do let x ← value l; return if x = v then none else some ()) w (waitTurn l v w).1
      (waitTurn l v w).2 :=
  returns_op.2 (returns_ret.2 ⟨rfl, rfl⟩)

theorem nextLevel_levels (l : Line) (k : Nat) (w : World) : (World.nextLevel l w).levels l k = w.levels l (k + 1) := by
  have hupdate : Function.update w.levels l (fun n => w.levels l (n + 1)) l = fun n => w.levels l (n + 1) :=
    Function.update_self ..
  exact congrFun hupdate k

theorem nextLevel_iterate (l : Line) (n k : Nat) (w : World) :
    ((World.nextLevel l)^[n] w).levels l k = w.levels l (k + n) := by
  induction n generalizing k with
  | zero => rfl
  | succ n ih =>
    rw [Function.iterate_succ_apply', nextLevel_levels, ih, Nat.add_right_comm]
    rfl

/-- The second wait ends exactly when the line changes. -/
theorem halts_waitWhile {l : Line} {v : Bool} {w : World} :
    Halts World.perform (waitWhile l v) w ↔ ∃ n, w.levels l n ≠ v := by
  refine (halts_loop (returns_waitBody l v)).trans (exists_congr ?_)
  intro n
  have hlevel := nextLevel_iterate l n 0 w
  rw [Nat.zero_add] at hlevel
  show (if ((World.nextLevel l)^[n] w).levels l 0 = v then none else some ()) ≠ none ↔ _
  rw [hlevel]
  split
  · rename_i h
    exact iff_of_false (absurd rfl ·) (absurd h ·)
  · rename_i h
    exact iff_of_true nofun h

theorem acknowledge_eq (b : Bool) :
    acknowledge b = .op (.pullLow (.ofBit !b)) fun _ => (waitWhile (.ofBit b) false).bind fun _ => release (.ofBit !b) :=
  rfl

/-- An acknowledgement ends exactly when the peer lets go. -/
theorem fair_acknowledge (b : Bool) : Fair (acknowledge b) := by
  intro w hw
  rw [acknowledge_eq]
  refine ⟨?_, ?_⟩
  · rw [halts_op, halts_bind, each_op, each_bind]
    have hreads : ∀ v, Each World.perform LetsGo (waitWhile (.ofBit b) false) v := by
      apply each_loop
      intro v
      exact along_op.2 ⟨trivial, trivial, along_ret.2 ⟨trivial, trivial⟩⟩
    have hrelease : ∀ v, Each World.perform LetsGo (release (.ofBit !b)) v := by
      intro v
      exact along_op.2 ⟨trivial, trivial, along_ret.2 ⟨trivial, trivial⟩⟩
    constructor
    · rintro ⟨a, t, hret, -⟩
      obtain ⟨n, hn⟩ := halts_waitWhile.1 ⟨a, t, hret⟩
      refine ⟨⟨n, ?_⟩, hreads _, fun _ v _ => hrelease v⟩
      rw [Line.other_ofBit]
      exact eq_true_of_ne_false hn
    · rintro ⟨⟨n, hn⟩, -⟩
      rw [Line.other_ofBit] at hn
      obtain ⟨a, t, hret⟩ := (halts_waitWhile (w := (World.perform (.pullLow (.ofBit !b)) w).2)).2 ⟨n, ne_false_of_eq_true hn⟩
      exact ⟨a, t, hret, _, _, returns_op.2 (returns_ret.2 ⟨rfl, rfl⟩)⟩
  · intro a t hret
    obtain ⟨_, u, hwait, hrelease⟩ := returns_bind.1 (returns_op.1 hret)
    have hpulled : Ticking (World.perform (.pullLow (.ofBit !b)) w).2 := hw
    have hu : Ticking u := by
      apply Returns.loop_inv (I := Ticking) (returns_waitBody (.ofBit b) false) _ hpulled hwait
      intro w hw
      exact hw
    obtain ⟨-, rfl⟩ := returns_ret.1 (returns_op.1 hrelease)
    exact hu

theorem fair_recvBit (timeoutMs : Nat) : Fair (recvBit timeoutMs) := by
  apply fair_ticksMs.bind
  intro start
  apply (fair_edge _).bind
  rintro (_ | ⟨t, r⟩)
  · exact Fair.pure none
  · dsimp only
    split
    · exact (fair_acknowledge false).bind fun _ => Fair.pure _
    · exact (fair_acknowledge true).bind fun _ => Fair.pure _

theorem Fair.orNone {p : Call (Option α)} (hp : Fair p) {g : α → Call (Option β)} (hg : ∀ a, Fair (g a)) :
    Fair (orNone p g) := by
  apply hp.bind
  rintro (_ | a)
  · exact Fair.pure none
  · exact hg a

theorem fair_recvByte (timeoutMs : Nat) : Fair (recvByte timeoutMs) := by
  have go : ∀ is b, Fair (recvBits (recvBit timeoutMs) is b) := by
    intro is
    induction is with
    | nil => exact fun b => Fair.pure _
    | cons i is ih => exact fun b => (fair_recvBit timeoutMs).orNone fun bit => ih _
  exact go _ _

theorem fair_recvBody (timeoutMs n : Nat) : Fair (recvBody timeoutMs n) := by
  induction n with
  | zero => exact Fair.pure _
  | succ n ih => exact (fair_recvByte timeoutMs).orNone fun b => ih.orNone fun bs => Fair.pure _

theorem fair_recvPacket (timeoutMs : Nat) : Fair (recvPacket timeoutMs) := by
  have hbyte := fair_recvByte timeoutMs
  apply hbyte.orNone
  intro machine
  apply hbyte.orNone
  intro cmd
  apply hbyte.orNone
  intro lo
  apply hbyte.orNone
  intro hi
  dsimp only
  split
  · exact Fair.pure _
  · split
    · exact Fair.pure _
    · apply (fair_recvBody timeoutMs _).orNone
      intro data
      apply hbyte.bind
      intro csLo
      apply hbyte.bind
      intro csHi
      split
      · exact Fair.pure _
      · exact Fair.pure _

/-- Receiving returns after finitely many samples exactly when the peer lets go
of its line whenever the Pico acknowledges a bit. -/
theorem receiving_returns_iff (w : World) (hclock : Ticking w) (timeoutMs : Nat) :
    (Halts World.perform (recvBit timeoutMs) w ↔ Each World.perform LetsGo (recvBit timeoutMs) w) ∧
      (Halts World.perform (recvByte timeoutMs) w ↔ Each World.perform LetsGo (recvByte timeoutMs) w) ∧
      (Halts World.perform (recvPacket timeoutMs) w ↔ Each World.perform LetsGo (recvPacket timeoutMs) w) :=
  ⟨(fair_recvBit timeoutMs w hclock).1, (fair_recvByte timeoutMs w hclock).1, (fair_recvPacket timeoutMs w hclock).1⟩

theorem ticking_of_clock {w : World} (h : ∀ n, w.clock n = n) : Ticking w := by
  intro deadline N
  obtain ⟨n, hn, hpast⟩ := exists_ticksDiff_le deadline N
  exact ⟨n, hn, (h n).symm ▸ hpast⟩

/-- Both lines come up again and again. -/
def Recurs (w : World) : Prop := ∀ l N, ∃ n, N ≤ n ∧ w.levels l n = true

theorem Recurs.perform {w : World} (hw : Recurs w) (o : Op) : Recurs (w.perform o).2 := by
  cases o with
  | value l =>
    intro l' N
    obtain ⟨n, hn, hhigh⟩ := hw l' (N + 1)
    obtain ⟨m, rfl⟩ := Nat.exists_eq_succ_of_ne_zero (Nat.ne_of_gt (Nat.lt_of_lt_of_le (Nat.succ_pos N) hn))
    by_cases hl : l' = l
    · subst hl
      refine ⟨m, Nat.le_of_succ_le_succ hn, ?_⟩
      show Function.update w.levels l' _ l' m = true
      rw [Function.update_self]
      exact hhigh
    · refine ⟨m + 1, Nat.le_of_succ_le hn, ?_⟩
      show Function.update w.levels l _ l' (m + 1) = true
      rw [Function.update_of_ne hl]
      exact hhigh
  | ticksMs | pullLow | release => exact hw

/-- The peer of such lines lets go whatever the Pico does. -/
theorem Recurs.letsGo {w : World} (hw : Recurs w) (p : Call α) : Each World.perform LetsGo p w := by
  refine each_of_kept (I := Recurs) (fun o _ h => h.perform o) ?_ hw p
  intro o w h
  cases o with
  | pullLow l =>
    obtain ⟨n, -, hhigh⟩ := h (Line.other l) 0
    exact ⟨n, hhigh⟩
  | value | ticksMs | release => trivial

theorem recurs_talking : Recurs talking := by
  intro l N
  refine ⟨4 * N + 3, by omega, ?_⟩
  cases l <;> simp only [talking, decide_eq_true_eq] <;> omega

theorem receiving_returns_iff_talking :
    Halts World.perform (recvBit 2000) talking ∧ Halts World.perform (recvByte 2000) talking ∧
      Halts World.perform (recvPacket 2000) talking := by
  obtain ⟨hbit, hbyte, hpacket⟩ := receiving_returns_iff talking (ticking_of_clock fun _ => rfl) 2000
  exact ⟨hbit.2 (recurs_talking.letsGo _), hbyte.2 (recurs_talking.letsGo _), hpacket.2 (recurs_talking.letsGo _)⟩

/-- TIP is low from the start and for ever. -/
def heldLow : World := ⟨fun l _ => l == .ring, fun n => n, Pins.idle⟩

/-- The deadline guards the first wait only. -/
theorem recvBit_hangs : Ticking heldLow ∧ ¬Halts World.perform (recvBit 2000) heldLow := by
  have hclock : Ticking heldLow := ticking_of_clock fun _ => rfl
  refine ⟨hclock, ?_⟩
  intro hhalts
  -- After the clock and a sample of each line, `recv_bit` pulls RING.
  obtain ⟨n, hn⟩ : LetsGo (.pullLow .ring) (after World.perform 4 (recvBit 2000) heldLow).2 :=
    ((fair_recvBit 2000 heldLow hclock).1.1 hhalts 4).2.1 _ rfl
  cases hn

end CalcBridge.Wire.Timed
