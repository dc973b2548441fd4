import CalcBridge.LinkLib.Programs
import CalcBridge.Transfer
/-!
# Both halves of the protocol (`src/transfer.py`)

`send_var`, and `listen_loop` once more, as programs that can run against each
other. On any link the listening program does what `listenIter` does.
-/
open LinkLib LinkLib.Programs

namespace CalcBridge.Transfer

/-- What the ends show: how a `send_var` ended, and a call of `on_var`. -/
inductive Shown where
  | returned (r : Except String Bool)
  | called (v : Variable)
  deriving DecidableEq

abbrev Program (ρ : Type) := Proc Packet Shown ρ

namespace Program

/-! ## Listening -/

/-- `_finish_recv_after_first_pkt` from the DATA packet on. -/
def recvData (pcMachine : UInt8) (hdr : Bytes) (timeoutMs : Nat) : Program (Option (Bytes × Bytes)) :=
  .ifGot none timeoutMs fun p =>
  if p.cmd ≠ Cmd.data then .ret none
  else .ifSent none ⟨pcMachine, Cmd.ack, []⟩ (.recv 500 fun _ => .ret (some (hdr, p.data)))

/-- `_finish_recv_after_first_pkt`. -/
def finishRecvAfterFirstPkt (machine cmd : UInt8) (hdr : Bytes) (timeoutMs : Nat) : Program (Option (Bytes × Bytes)) :=
  let pcMachine := pcIdFor machine
  if cmd ≠ Cmd.rts ∧ cmd ≠ Cmd.var then .ret none
  else
    .ifSent none ⟨pcMachine, Cmd.ack, []⟩ <|
    .ifSent none ⟨pcMachine, Cmd.cts, []⟩ <|
    .ifGot none timeoutMs fun p =>
    if p.cmd ≠ Cmd.ack then .ret none
    else recvData pcMachine hdr timeoutMs

/-- `_respond_to_req`, from the header on. -/
def sendVarBack (pcMachine : UInt8) (varHdr payload : Bytes) : Program Bool :=
  .ifSent false ⟨pcMachine, Cmd.ack, []⟩ <|
  .sleep 20 <|
  .ifSent false ⟨pcMachine, Cmd.var, varHdr⟩ <|
  .ifGot false 5000 fun p =>
  if p.cmd ≠ Cmd.ack then .ret false
  else
    .ifGot false 5000 fun p =>
    if p.cmd = Cmd.skip then .ret true
    else if p.cmd ≠ Cmd.cts then .ret false
    else
      .ifSent false ⟨pcMachine, Cmd.ack, []⟩ <|
      .sleep 20 <|
      .ifSent false ⟨pcMachine, Cmd.data, payload⟩ <|
      .ifGot false 5000 fun p =>
      if p.cmd ≠ Cmd.ack then .ret false
      else .ifSent false ⟨pcMachine, Cmd.eot, []⟩ (.ret true)

/-- `_respond_to_req`. -/
def respondToReq (onReq : UInt8 → Bytes → Option Bytes) (machine : UInt8) (hdr : Bytes) : Program Bool :=
  if hdr.length < 11 then .ret false
  else
    match onReq (hdr.getD 2 0) ((hdr.drop 3).take 8) with
    | none => .send ⟨pcIdFor machine, Cmd.skip, []⟩ fun _ => .ret true
    | some payload =>
      match Vartypes.makeVarHeader payload.length (hdr.getD 2 0) ((hdr.drop 3).take 8) (if machine = 0x82 then 82 else 83) with
      | .error _ => .ret false
      | .ok varHdr => sendVarBack (pcIdFor machine) varHdr payload

variable (cfg : Listen)

def answerReq (onReq : UInt8 → Bytes → Option Bytes) (p : Packet) : Program Heard :=
  if 11 ≤ p.data.length ∧ ¬ cfg.accepts (p.data.getD 2 0) ((p.data.drop 3).take 8) then
    .send ⟨pcIdFor p.machine, Cmd.skip, []⟩ fun _ => .ret .handled
  else (respondToReq onReq p.machine p.data).bind fun _ => .ret .handled

/-- What a finished transfer is to `listen_loop`. -/
def taken : Option (Bytes × Bytes) → Heard
  | none => .handled
  | some (hdr, data) =>
    if hdr.length < 11 then .handled
    else if cfg.accepts (variableOf hdr data).typeId (variableOf hdr data).name8 then .call (variableOf hdr data)
    else .handled

def takeVariable (p : Packet) : Program Heard :=
  (finishRecvAfterFirstPkt p.machine p.cmd p.data 10000).bind fun r => .ret (taken cfg r)

/-- A turn of `listen_loop` from its first packet on. -/
def onOpener (p : Packet) : Program Heard :=
  if p.cmd = Cmd.rdy then .send ⟨pcIdFor p.machine, Cmd.ack, []⟩ fun _ => .ret .handled
  else
    match if p.cmd = Cmd.req then cfg.onReq else none with
    | some onReq => answerReq cfg onReq p
    | none =>
      if p.cmd ≠ Cmd.rts ∧ p.cmd ≠ Cmd.var then .send ⟨pcIdFor p.machine, Cmd.ack, []⟩ fun _ => .ret .handled
      else takeVariable cfg p

/-- One turn of `listen_loop`. -/
def listenIter : Program Heard :=
  .ifGot .silence (if cfg.timeoutMs ≠ 0 then cfg.timeoutMs else 60000) (onOpener cfg)

/-- What `listen_loop` does with what a turn heard, and whether it goes on. -/
def afterTurn : Heard → Program Bool
  | .silence => .ret (cfg.timeoutMs = 0)
  | .handled => .ret true
  | .call v => .out (.called v) (.ret true)

/-- The body of `listen_loop`'s `while True`. -/
def listenBody : Program Bool := (listenIter cfg).bind (afterTurn cfg)

/-! ## Sending -/

/-- `send_var` from the DATA packet on. -/
def sendData (pcMachine calcMachine : UInt8) (data : Bytes) (timeoutMs : Nat) : Program (Except String Bool) :=
  .ifSent (.ok false) ⟨pcMachine, Cmd.data, data⟩ <|
  .ifGot (.ok false) timeoutMs fun p =>
  if p.cmd = Cmd.skip then .send ⟨pcMachine, Cmd.ack, []⟩ fun _ => .ret (.ok false)
  else if p.cmd ≠ Cmd.ack then .ret (.ok false)
  -- The TI-82 protocol ends here.
  else if calcMachine ≠ 0x82 then .ifSent (.ok false) ⟨pcMachine, Cmd.eot, []⟩ (.ret (.ok true))
  else .ret (.ok true)

/-- `send_var` from the RTS packet on. -/
def sendRts (pcMachine calcMachine : UInt8) (varHdr data : Bytes) (timeoutMs : Nat) : Program (Except String Bool) :=
  .ifSent (.ok false) ⟨pcMachine, Cmd.rts, varHdr⟩ <|
  .ifGot (.ok false) timeoutMs fun p =>
  if p.cmd ≠ Cmd.ack then .ret (.ok false)
  else
    .ifGot (.ok false) (timeoutMs * 2) fun p =>
    if p.cmd = Cmd.skip then .send ⟨pcMachine, Cmd.ack, []⟩ fun _ => .ret (.ok false)
    else if p.cmd ≠ Cmd.cts then .ret (.ok false)
    else
      .ifSent (.ok false) ⟨pcMachine, Cmd.ack, []⟩ <|
      .sleep 20 <|
      sendData pcMachine calcMachine data timeoutMs

/-- `send_var`. The error is the text of a ValueError. -/
def sendVar (typeId : UInt8) (name8 data : Bytes) (calcMachine : UInt8) (timeoutMs : Nat) : Program (Except String Bool) :=
  match Vartypes.makeVarHeader data.length typeId name8 (if calcMachine = 0x82 then 82 else 83) with
  | .error e => .ret (.error e)
  | .ok varHdr => sendRts (pcIdFor calcMachine) calcMachine varHdr data timeoutMs

/-! ## The listening program on a link -/

section Adequate
variable {σ : Type} (link : Link σ)

/-- Run a program on a link. -/
abbrev runOn {ρ : Type} (p : Program ρ) (s : σ) : ρ × σ := p.on link.recv link.send s

theorem runOn_ifSent {ρ : Type} (fail : ρ) (m : Packet) (next : Program ρ) (s : σ) :
    runOn link (.ifSent fail m next) s = Transfer.ifSent fail (link.send m s) fun s => runOn link next s := by
  simp only [runOn, Proc.ifSent, Proc.on, Transfer.ifSent]
  split <;> rfl

theorem runOn_ifGot {ρ : Type} (fail : ρ) (t : Nat) (next : Packet → Program ρ) (s : σ) :
    runOn link (.ifGot fail t next) s = Transfer.ifGot fail (link.recv t s) fun p s => runOn link (next p) s := by
  simp only [runOn, Proc.ifGot, Proc.on, Transfer.ifGot]
  cases link.recv t s with
  | mk p s =>
    cases p with
    | none => rfl
    | some p => rfl

theorem runOn_bind {ρ ρ' : Type} (p : Program ρ) (f : ρ → Program ρ') (s : σ) :
    runOn link (p.bind f) s = runOn link (f (runOn link p s).1) (runOn link p s).2 := Proc.on_bind ..

theorem runOn_ite {ρ : Type} (c : Prop) [Decidable c] (p q : Program ρ) (s : σ) :
    runOn link (if c then p else q) s = if c then runOn link p s else runOn link q s := by
  split <;> rfl

theorem finishRecv_on (machine cmd : UInt8) (hdr : Bytes) (t : Nat) (s : σ) :
    runOn link (finishRecvAfterFirstPkt machine cmd hdr t) s =
      Transfer.finishRecvAfterFirstPkt link machine cmd hdr t s := by
  unfold finishRecvAfterFirstPkt recvData Transfer.finishRecvAfterFirstPkt
  simp only [runOn_ifSent, runOn_ifGot, runOn_ite, Proc.on]

theorem respondToReq_on (onReq : UInt8 → Bytes → Option Bytes) (machine : UInt8) (hdr : Bytes) (s : σ) :
    runOn link (respondToReq onReq machine hdr) s = Transfer.respondToReq link onReq machine hdr s := by
  unfold respondToReq Transfer.respondToReq
  dsimp only
  split
  · rfl
  · cases onReq (hdr.getD 2 0) ((hdr.drop 3).take 8) with
    | none => rfl
    | some payload =>
      dsimp only
      cases Vartypes.makeVarHeader payload.length (hdr.getD 2 0) ((hdr.drop 3).take 8) (if machine = 0x82 then 82 else 83) with
      | error e => rfl
      | ok varHdr =>
        unfold sendVarBack
        simp only [runOn_ifSent, runOn_ifGot, runOn_ite, Proc.on]

theorem answerReq_on (onReq : UInt8 → Bytes → Option Bytes) (p : Packet) (s : σ) :
    runOn link (answerReq cfg onReq p) s = (.handled, Transfer.answerReq link cfg onReq p s) := by
  unfold answerReq Transfer.answerReq
  split
  · rfl
  · rw [runOn_bind, respondToReq_on]
    rfl

theorem takeVariable_on (p : Packet) (s : σ) : runOn link (takeVariable cfg p) s = Transfer.takeVariable link cfg p s := by
  unfold takeVariable Transfer.takeVariable
  rw [runOn_bind, finishRecv_on]
  cases Transfer.finishRecvAfterFirstPkt link p.machine p.cmd p.data 10000 s with
  | mk r s =>
    cases r with
    | none => rfl
    | some r =>
      simp only [runOn, Proc.on, taken]
      split
      · rfl
      · split <;> rfl

/-- A turn as a program does what a turn does. -/
theorem listenIter_on (s : σ) : runOn link (listenIter cfg) s = Transfer.listenIter link cfg s := by
  unfold listenIter onOpener Transfer.listenIter
  rw [runOn_ifGot]
  congr 1
  funext p s
  rw [runOn_ite]
  split
  · rfl
  · cases (if p.cmd = Cmd.req then cfg.onReq else none) with
    | some onReq => exact answerReq_on cfg link onReq p s
    | none =>
      dsimp only
      rw [runOn_ite, takeVariable_on]
      rfl

end Adequate

end Program

end CalcBridge.Transfer
