import CalcBridge.Packet
import CalcBridge.Vartypes
/-!
# Listening for transfers (`src/transfer.py`)

`listen_loop` waits for the calculator to open a transfer and answers it. The
two operations it has on the wire are a parameter, and a script of bytes is
one instance.
-/
open LinkLib

namespace CalcBridge.Transfer

/-- `recv_packet(timeout_ms)` and `send_packet`, on whatever is at the other end. -/
structure Link (σ : Type) where
  recv : Nat → σ → Option Packet × σ
  send : Packet → σ → Bool × σ

/-- `if not send_packet(..): return fail`. -/
def ifSent {σ β : Type} (fail : β) (r : Bool × σ) (next : σ → β × σ) : β × σ :=
  if r.1 then next r.2 else (fail, r.2)

/-- `p = recv_packet(..)`, then `if p is None: return fail`. -/
def ifGot {σ β : Type} (fail : β) (r : Option Packet × σ) (next : Packet → σ → β × σ) : β × σ :=
  match r with
  | (none, s) => (fail, s)
  | (some p, s) => next p s

/-- The arguments of `listen_loop` that it looks at in its loop. -/
structure Listen where
  name8 : Option Bytes
  expectedType : Option UInt8
  onReq : Option (UInt8 → Bytes → Option Bytes)
  timeoutMs : Nat

/-- `listen_loop` without filters. -/
def unfiltered (onReq : Option (UInt8 → Bytes → Option Bytes)) (timeoutMs : Nat) : Listen := ⟨none, none, onReq, timeoutMs⟩

/-- What `on_var` is called with. -/
structure Variable where
  typeId : UInt8
  name8 : Bytes
  hdr : Bytes
  data : Bytes
  deriving DecidableEq, Repr

/-- The variable with header `hdr`, which holds its type and name. -/
def variableOf (hdr data : Bytes) : Variable := ⟨hdr.getD 2 0, (hdr.drop 3).take 8, hdr, data⟩

/-- One turn of the loop: nothing came in time, or a packet was dealt with, or `on_var` is called. -/
inductive Heard where
  | silence
  | handled
  | call (v : Variable)
  deriving DecidableEq, Repr

section Receive
variable {σ : Type} (link : Link σ)

/-- `_finish_recv_after_first_pkt`. -/
def finishRecvAfterFirstPkt (machine cmd : UInt8) (hdr : Bytes) (timeoutMs : Nat) (s : σ) : Option (Bytes × Bytes) × σ :=
  let pcMachine := pcIdFor machine
  if cmd ≠ Cmd.rts ∧ cmd ≠ Cmd.var then (none, s)
  else
    ifSent none (link.send ⟨pcMachine, Cmd.ack, []⟩ s) fun s =>
    ifSent none (link.send ⟨pcMachine, Cmd.cts, []⟩ s) fun s =>
    ifGot none (link.recv timeoutMs s) fun p s =>
    if p.cmd ≠ Cmd.ack then (none, s)
    else
      ifGot none (link.recv timeoutMs s) fun p s =>
      if p.cmd ≠ Cmd.data then (none, s)
      else
        ifSent none (link.send ⟨pcMachine, Cmd.ack, []⟩ s) fun s =>
        -- Drain an EOT, if one comes.
        (some (hdr, p.data), (link.recv 500 s).2)

/-- `_respond_to_req`. -/
def respondToReq (onReq : UInt8 → Bytes → Option Bytes) (machine : UInt8) (hdr : Bytes) (s : σ) : Bool × σ :=
  let pcMachine := pcIdFor machine
  if hdr.length < 11 then (false, s)
  else
    let reqType := hdr.getD 2 0
    let reqName := (hdr.drop 3).take 8
    match onReq reqType reqName with
    | none => (true, (link.send ⟨pcMachine, Cmd.skip, []⟩ s).2)
    | some payload =>
      let proto := if machine = 0x82 then 82 else 83
      match Vartypes.makeVarHeader payload.length reqType reqName proto with
      | .error _ => (false, s)
      | .ok varHdr =>
        ifSent false (link.send ⟨pcMachine, Cmd.ack, []⟩ s) fun s =>
        ifSent false (link.send ⟨pcMachine, Cmd.var, varHdr⟩ s) fun s =>
        ifGot false (link.recv 5000 s) fun p s =>
        if p.cmd ≠ Cmd.ack then (false, s)
        else
          ifGot false (link.recv 5000 s) fun p s =>
          if p.cmd = Cmd.skip then (true, s)
          else if p.cmd ≠ Cmd.cts then (false, s)
          else
            ifSent false (link.send ⟨pcMachine, Cmd.ack, []⟩ s) fun s =>
            ifSent false (link.send ⟨pcMachine, Cmd.data, payload⟩ s) fun s =>
            ifGot false (link.recv 5000 s) fun p s =>
            if p.cmd ≠ Cmd.ack then (false, s)
            else ifSent false (link.send ⟨pcMachine, Cmd.eot, []⟩ s) fun s => (true, s)

variable (cfg : Listen)

/-- The filters of `listen_loop`. -/
def Listen.accepts (cfg : Listen) (typeId : UInt8) (name8 : Bytes) : Bool :=
  cfg.expectedType.all (typeId == ·) && cfg.name8.all (name8 == ·)

/-- A REQ, when there is an `on_req`. -/
def answerReq (onReq : UInt8 → Bytes → Option Bytes) (p : Packet) (s : σ) : σ :=
  if 11 ≤ p.data.length ∧ ¬ cfg.accepts (p.data.getD 2 0) ((p.data.drop 3).take 8) then
    (link.send ⟨pcIdFor p.machine, Cmd.skip, []⟩ s).2
  else (respondToReq link onReq p.machine p.data s).2

/-- The rest of a transfer that packet `p` opens, and the variable when it passes the filters. -/
def takeVariable (p : Packet) (s : σ) : Heard × σ :=
  match finishRecvAfterFirstPkt link p.machine p.cmd p.data 10000 s with
  | (none, s) => (.handled, s)
  | (some (hdr, data), s) =>
    if hdr.length < 11 then (.handled, s)
    else
      let v := variableOf hdr data
      if cfg.accepts v.typeId v.name8 then (.call v, s) else (.handled, s)

/-- One turn of `listen_loop`. -/
def listenIter (s : σ) : Heard × σ :=
  ifGot .silence (link.recv (if cfg.timeoutMs ≠ 0 then cfg.timeoutMs else 60000) s) fun p s =>
  if p.cmd = Cmd.rdy then (.handled, (link.send ⟨pcIdFor p.machine, Cmd.ack, []⟩ s).2)
  else
    match if p.cmd = Cmd.req then cfg.onReq else none with
    | some onReq => (.handled, answerReq link cfg onReq p s)
    | none =>
      if p.cmd ≠ Cmd.rts ∧ p.cmd ≠ Cmd.var then
        -- An unknown opener is acknowledged so that the calculator does not hang.
        (.handled, (link.send ⟨pcIdFor p.machine, Cmd.ack, []⟩ s).2)
      else takeVariable link cfg p s

/-- `listen_loop`, for at most `fuel` turns: the calls of `on_var`. Silence
ends it when there is a timeout. -/
def listenLoop : Nat → σ → List Variable × σ
  | 0, s => ([], s)
  | fuel + 1, s =>
    match listenIter link cfg s with
    | (.silence, s) => if cfg.timeoutMs ≠ 0 then ([], s) else listenLoop fuel s
    | (.handled, s) => listenLoop fuel s
    | (.call v, s) =>
      let r := listenLoop fuel s
      (v :: r.1, r.2)

end Receive

/-! ## What a received variable went through -/

theorem ifSent_eq_some {σ β : Type} {r : Bool × σ} {next : σ → Option β × σ} {b : β} {s : σ} :
    ifSent none r next = (some b, s) ↔ ∃ s₁, r = (true, s₁) ∧ next s₁ = (some b, s) := by
  obtain ⟨ok, s₁⟩ := r
  cases ok <;> simp [ifSent]

theorem ifGot_eq_some {σ β : Type} {r : Option Packet × σ} {next : Packet → σ → Option β × σ} {b : β} {s : σ} :
    ifGot none r next = (some b, s) ↔ ∃ p s₁, r = (some p, s₁) ∧ next p s₁ = (some b, s) := by
  obtain ⟨o, s₁⟩ := r
  cases o <;> simp [ifGot]

section Received
variable {σ : Type} {link : Link σ}

/-- The handshake behind a variable: ACK and CTS sent, an ACK and the DATA
packet received, and the DATA acknowledged. -/
def Handshake (link : Link σ) (machine : UInt8) (timeoutMs : Nat) (data : Bytes) (s s' : σ) : Prop :=
  ∃ s₁ s₂ s₃ s₄ s₅ a d, link.send ⟨pcIdFor machine, Cmd.ack, []⟩ s = (true, s₁) ∧
    link.send ⟨pcIdFor machine, Cmd.cts, []⟩ s₁ = (true, s₂) ∧ link.recv timeoutMs s₂ = (some a, s₃) ∧ a.cmd = Cmd.ack ∧
    link.recv timeoutMs s₃ = (some d, s₄) ∧ d.cmd = Cmd.data ∧ d.data = data ∧
    link.send ⟨pcIdFor machine, Cmd.ack, []⟩ s₄ = (true, s₅) ∧ s' = (link.recv 500 s₅).2

theorem finishRecv_eq_some {machine cmd : UInt8} {hdr : Bytes} {t : Nat} {s s' : σ} {r : Bytes × Bytes} :
    finishRecvAfterFirstPkt link machine cmd hdr t s = (some r, s') ↔
      (cmd = Cmd.rts ∨ cmd = Cmd.var) ∧ r.1 = hdr ∧ Handshake link machine t r.2 s s' := by
  unfold finishRecvAfterFirstPkt
  dsimp only
  by_cases hcmd : cmd ≠ Cmd.rts ∧ cmd ≠ Cmd.var
  · rw [if_pos hcmd]
    constructor
    · intro h; cases h
    · rintro ⟨h | h, -⟩
      · exact absurd h hcmd.1
      · exact absurd h hcmd.2
  · rw [if_neg hcmd]
    simp only [ifSent_eq_some, ifGot_eq_some]
    constructor
    · rintro ⟨s₁, h₁, s₂, h₂, a, s₃, h₃, h⟩
      split at h
      · cases h
      · rename_i ha
        obtain ⟨d, s₄, h₄, h⟩ := ifGot_eq_some.1 h
        split at h
        · cases h
        · rename_i hd
          obtain ⟨s₅, h₅, h⟩ := ifSent_eq_some.1 h
          cases h
          exact ⟨by tauto, rfl, s₁, s₂, s₃, s₄, s₅, a, d, h₁, h₂, h₃, not_not.1 ha, h₄, not_not.1 hd, rfl, h₅, rfl⟩
    · rintro ⟨-, rfl, s₁, s₂, s₃, s₄, s₅, a, d, h₁, h₂, h₃, ha, h₄, hd, hdata, h₅, rfl⟩
      refine ⟨s₁, h₁, s₂, h₂, a, s₃, h₃, ?_⟩
      rw [if_neg (not_not.2 ha), h₄]
      refine ifGot_eq_some.2 ⟨d, s₄, rfl, ?_⟩
      rw [if_neg (not_not.2 hd), h₅, hdata]
      rfl

theorem takeVariable_eq_call {cfg : Listen} {p : Packet} {s s' : σ} {v : Variable} :
    takeVariable link cfg p s = (.call v, s') ↔
      (p.cmd = Cmd.rts ∨ p.cmd = Cmd.var) ∧ 11 ≤ p.data.length ∧ v = variableOf p.data v.data ∧
        cfg.accepts v.typeId v.name8 ∧ Handshake link p.machine 10000 v.data s s' := by
  unfold takeVariable
  constructor
  · intro h
    split at h
    · cases h
    · rename_i hdr data s₁ hfin
      obtain ⟨hopener, rfl, hshake⟩ := finishRecv_eq_some.1 hfin
      split at h
      · cases h
      · rename_i hlen
        dsimp only at h
        split at h
        · rename_i haccepts
          cases h
          exact ⟨hopener, Nat.not_lt.1 hlen, rfl, haccepts, hshake⟩
        · cases h
  · rintro ⟨hopener, hlen, hv, haccepts, hshake⟩
    have hfin : finishRecvAfterFirstPkt link p.machine p.cmd p.data 10000 s = (some (p.data, v.data), s') :=
      finishRecv_eq_some.2 ⟨hopener, rfl, hshake⟩
    rw [hfin]
    dsimp only
    rw [if_neg (Nat.not_lt.2 hlen), ← hv, if_pos haccepts]

/-- A call of `on_var` is the end of a handshake that an RTS or a VAR opened. -/
theorem listenIter_eq_call {cfg : Listen} {s s' : σ} {v : Variable} :
    listenIter link cfg s = (.call v, s') ↔
      ∃ o s₀, link.recv (if cfg.timeoutMs ≠ 0 then cfg.timeoutMs else 60000) s = (some o, s₀) ∧
        (o.cmd = Cmd.rts ∨ o.cmd = Cmd.var) ∧ 11 ≤ o.data.length ∧ v = variableOf o.data v.data ∧
        cfg.accepts v.typeId v.name8 ∧ Handshake link o.machine 10000 v.data s₀ s' := by
  unfold listenIter
  cases hrecv : link.recv (if cfg.timeoutMs ≠ 0 then cfg.timeoutMs else 60000) s with
  | mk o s₀ =>
    cases o with
    | none =>
      constructor
      · intro h; cases h
      · rintro ⟨o, s₀', h, -⟩; cases h
    | some o =>
      dsimp only [ifGot]
      constructor
      · intro h
        refine ⟨o, s₀, rfl, ?_⟩
        split at h
        · cases h
        · split at h
          · cases h
          · split at h
            · cases h
            · exact takeVariable_eq_call.1 h
      · rintro ⟨o', s₀', h, hopener, hrest⟩
        cases h
        -- An opener is none of the commands that are answered at once.
        have hrdy : o.cmd ≠ Cmd.rdy := by rcases hopener with h | h <;> rw [h] <;> decide
        have hreq : o.cmd ≠ Cmd.req := by rcases hopener with h | h <;> rw [h] <;> decide
        rw [if_neg hrdy, if_neg hreq]
        dsimp only
        rw [if_neg (by tauto)]
        exact takeVariable_eq_call.2 ⟨hopener, hrest⟩

end Received

end CalcBridge.Transfer
