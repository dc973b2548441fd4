import CalcBridge.Programs
/-!
# A sender against `listen_loop`

Two ends with a FIFO channel each way. One makes a row of `send_var` calls, the
other sits in `listen_loop` without filters. A transfer is the same few steps
whoever moves first, and the steps of the two ends commute.
-/
open Relation LinkLib LinkLib.Programs LinkLib.Confluence

namespace CalcBridge.Transfer

/-- What `send_var` may be called with. -/
structure Outgoing where
  typeId : UInt8
  name8 : Bytes
  data : Bytes
  name_length : name8.length = 8
  data_length : data.length ≤ 65535

/-- The header `make_var_header` makes: 11 bytes, and 2 more for other protocols than the TI-82's. -/
def Outgoing.header (v : Outgoing) (proto : Nat) : Bytes :=
  [UInt8.ofNat (v.data.length &&& 0xFF), UInt8.ofNat ((v.data.length >>> 8) &&& 0xFF), v.typeId] ++ v.name8 ++
    if proto = 82 then [] else [0, 0]

theorem Outgoing.makeVarHeader_eq (v : Outgoing) (proto : Nat) :
    Vartypes.makeVarHeader v.data.length v.typeId v.name8 proto = .ok (v.header proto) := by
  unfold Vartypes.makeVarHeader Outgoing.header
  rw [if_neg (by simp [v.name_length])]
  split <;> simp

theorem Outgoing.length_header (v : Outgoing) (proto : Nat) : (v.header proto).length = if proto = 82 then 11 else 13 := by
  unfold Outgoing.header
  split <;> simp [v.name_length]

/-- What `on_var` should be called with. -/
def Outgoing.variable (v : Outgoing) (proto : Nat) : Variable := ⟨v.typeId, v.name8, v.header proto, v.data⟩

theorem variableOf_header (v : Outgoing) (proto : Nat) : variableOf (v.header proto) v.data = v.variable proto := by
  have hname : ((v.header proto).drop 3).take 8 = v.name8 := by
    rw [Outgoing.header, List.append_assoc]
    exact List.take_left' v.name_length
  rw [variableOf, hname]
  rfl

/-- Calls of a send function, with a pause before each. -/
def sendAll (call : Outgoing → Program (Except String Bool)) : List (Nat × Outgoing) → Program Bool
  | [] => .ret false
  | (pause, v) :: vs => .sleep pause ((call v).bind fun r => .out (.returned r) (sendAll call vs))

/-- `send_var(.., calc_machine=..)`. -/
def sendVarTo (calcMachine : UInt8) (v : Outgoing) : Program (Except String Bool) :=
  Program.sendVar v.typeId v.name8 v.data calcMachine 5000

theorem sendVarTo_eq (calcMachine : UInt8) (v : Outgoing) : sendVarTo calcMachine v =
    Program.sendRts (pcIdFor calcMachine) calcMachine (v.header (if calcMachine = 0x82 then 82 else 83)) v.data 5000 := by
  rw [sendVarTo, Program.sendVar, v.makeVarHeader_eq]

def sender (p : Program Bool) (inbox : List Packet) (outs : List Shown) : Node Packet Shown := ⟨p, .ret false, inbox, outs⟩

def listener (cfg : Listen) (p : Program Bool) (inbox : List Packet) (outs : List Shown) : Node Packet Shown :=
  ⟨p, Program.listenBody cfg, inbox, outs⟩

/-! ## Where the ends are in a transfer -/

section Handshake
variable {clock : Bool} (cfg : Listen)

/-- `listen_loop` waits for an opener, with `t` ms left. -/
def awaitingOpener (t : Nat) : Program Bool := (Proc.ifGot .silence t (Program.onOpener cfg)).bind (Program.afterTurn cfg)

/-- The rest of a turn once the transfer is over. -/
def finishing (p : Program (Option (Bytes × Bytes))) : Program Bool :=
  (p.bind fun r => .ret (Program.taken cfg r)).bind (Program.afterTurn cfg)

/-- `listen_loop` waits for the DATA packet. -/
def awaitingData (pcMachine : UInt8) (hdr : Bytes) (t : Nat) : Program Bool :=
  finishing cfg (Program.recvData pcMachine hdr t)

/-- `listen_loop` has acknowledged the DATA packet and waits for an EOT. -/
def draining (hdr data : Bytes) (t : Nat) : Program Bool := finishing cfg (.recv t fun _ => .ret (some (hdr, data)))

/-- What is left of `send_var` once the DATA packet is acknowledged. -/
def ending (pcMachine calcMachine : UInt8) : Program (Except String Bool) :=
  if calcMachine ≠ 0x82 then .ifSent (.ok false) ⟨pcMachine, Cmd.eot, []⟩ (.ret (.ok true)) else .ret (.ok true)

variable {cfg}

abbrev Reaches (clock : Bool) : Net Packet Shown → Net Packet Shown → Prop := ReflTransGen (Net.Moves clock)

/-- RTS, ACK and CTS, ACK. -/
theorem rts_to_ack (m calcMachine : UInt8) (hdr data : Bytes) (f : Except String Bool → Program Bool) (t : Nat)
    (oa ob : List Shown) :
    Reaches clock
      ⟨sender ((Program.sendRts m calcMachine hdr data 5000).bind f) [] oa, listener cfg (awaitingOpener cfg t) [] ob⟩
      ⟨sender (.sleep 20 ((Program.sendData m calcMachine data 5000).bind f)) [] oa,
        listener cfg (awaitingData cfg (pcIdFor m) hdr 10000) [] ob⟩ := by
  refine .head (.a rfl) ?_
  refine .head (.b rfl) ?_
  refine .head (.b rfl) ?_
  refine .head (.b rfl) ?_
  refine .head (.a rfl) ?_
  refine .head (.a rfl) ?_
  refine .head (.a rfl) ?_
  refine .head (.b rfl) ?_
  exact .refl

/-- DATA and its ACK. -/
theorem data_to_ack (m calcMachine m' : UInt8) (hdr data : Bytes) (f : Except String Bool → Program Bool) (t : Nat)
    (oa ob : List Shown) :
    Reaches clock
      ⟨sender ((Program.sendData m calcMachine data 5000).bind f) [] oa, listener cfg (awaitingData cfg m' hdr t) [] ob⟩
      ⟨sender ((ending m calcMachine).bind f) [] oa, listener cfg (draining cfg hdr data 500) [] ob⟩ := by
  refine .head (.a rfl) ?_
  refine .head (.b rfl) ?_
  refine .head (.b rfl) ?_
  refine .head (.a rfl) ?_
  exact .refl

end Handshake

theorem taken_unfiltered (onReq : Option (UInt8 → Bytes → Option Bytes)) (timeoutMs : Nat) (v : Outgoing) (proto : Nat) :
    Program.taken (unfiltered onReq timeoutMs) (some (v.header proto, v.data)) = .call (v.variable proto) := by
  have hlen : ¬ (v.header proto).length < 11 := by
    rw [v.length_header]
    split <;> decide
  simp only [Program.taken]
  rw [if_neg hlen, variableOf_header]
  exact if_pos rfl

/-- The finished transfer goes to `on_var`, and `listen_loop` goes on. -/
theorem finished_reaches {clock : Bool} (onReq : Option (UInt8 → Bytes → Option Bytes)) (timeoutMs : Nat) (v : Outgoing)
    (proto : Nat) (p : Program Bool) (oa ob : List Shown) :
    Reaches clock
      ⟨sender p [] oa, listener (unfiltered onReq timeoutMs)
        (finishing (unfiltered onReq timeoutMs) (.ret (some (v.header proto, v.data)))) [] ob⟩
      ⟨sender p [] oa, listener (unfiltered onReq timeoutMs) (Program.listenBody (unfiltered onReq timeoutMs)) []
        (ob ++ [.called (v.variable proto)])⟩ := by
  have hcall : finishing (unfiltered onReq timeoutMs) (.ret (some (v.header proto, v.data))) =
      .out (.called (v.variable proto)) (.ret true) := by
    rw [finishing, Proc.bind, Proc.bind, taken_unfiltered]
    rfl
  rw [hcall]
  refine .head (.b rfl) ?_
  exact .single (.b rfl)

/-! ## Whole runs -/

section Agree
variable (onReq : Option (UInt8 → Bytes → Option Bytes)) (timeoutMs : Nat)

/-- Between two transfers: nothing is on its way. -/
def between (vs : List (Nat × Outgoing)) (oa ob : List Shown) : Net Packet Shown :=
  ⟨sender (sendAll (sendVarTo 0x73) vs) [] oa,
    listener (unfiltered onReq timeoutMs) (Program.listenBody (unfiltered onReq timeoutMs)) [] ob⟩

/-- One transfer, from one `send_var` to the next. -/
theorem transfer_reaches (pause : Nat) (v : Outgoing) (vs : List (Nat × Outgoing)) (oa ob : List Shown) :
    Reaches false (between onReq timeoutMs ((pause, v) :: vs) oa ob)
      (between onReq timeoutMs vs (oa ++ [.returned (.ok true)]) (ob ++ [.called (v.variable 83)])) := by
  rw [between, sendAll, sendVarTo_eq]
  refine .head (.a rfl) ?_
  apply (rts_to_ack _ 0x73 _ _ _ _ oa ob).trans
  refine .head (.a rfl) ?_
  apply (data_to_ack _ 0x73 _ _ _ _ _ oa ob).trans
  -- EOT, and its drain.
  refine .head (.a rfl) ?_
  refine .head (.a rfl) ?_
  refine .head (.b rfl) ?_
  exact finished_reaches onReq timeoutMs v 83 _ _ ob

theorem transfers_reach (vs : List (Nat × Outgoing)) (oa ob : List Shown) :
    Reaches false (between onReq timeoutMs vs oa ob)
      (between onReq timeoutMs [] (oa ++ vs.map fun _ => .returned (.ok true))
        (ob ++ vs.map fun x => .called (x.2.variable 83))) := by
  induction vs generalizing oa ob with
  | nil => simpa using .refl
  | cons x vs ih =>
    apply (transfer_reaches onReq timeoutMs x.1 x.2 vs oa ob).trans
    have := ih (oa ++ [.returned (.ok true)]) (ob ++ [.called (x.2.variable 83)])
    simpa using this

/-- After the last transfer one end has finished and the other waits for an opener. -/
theorem between_ended (oa ob : List Shown) : Ended (Net.Moves false) (between onReq timeoutMs [] oa ob) := by
  intro d h
  cases h with
  | a h => cases h
  | b h => cases h

/-- In every interleaving the `send_var` calls so far have returned True and
`on_var` was called with their variables, in order; every run comes to an end;
and at its end all of them were and no packet is left. -/
theorem transfers_agree (vs : List (Nat × Outgoing)) :
    let s : Net Packet Shown := ⟨sender (sendAll (sendVarTo 0x73) vs) [] [],
      listener (unfiltered onReq timeoutMs) (Program.listenBody (unfiltered onReq timeoutMs)) [] []⟩
    let returned : List Shown := vs.map fun _ => .returned (.ok true)
    let called : List Shown := vs.map fun x => .called ⟨x.2.typeId, x.2.name8, x.2.header 83, x.2.data⟩
    (∀ x ∈ vs, Vartypes.makeVarHeader x.2.data.length x.2.typeId x.2.name8 83 = .ok (x.2.header 83) ∧
      (x.2.header 83).length = 13) ∧
    (∃ n, ∀ k d, Run (Net.Moves false) k s d → k ≤ n) ∧
    ∀ d, Reaches false s d → d.a.outs <+: returned ∧ d.b.outs <+: called ∧
      (Ended (Net.Moves false) d → d.a.outs = returned ∧ d.b.outs = called ∧ d.a.inbox = [] ∧ d.b.inbox = []) := by
  intro s returned called
  have hend := between_ended onReq timeoutMs returned called
  have hs : Reaches false s (between onReq timeoutMs [] returned called) := transfers_reach onReq timeoutMs vs [] []
  obtain ⟨n, hn⟩ := exists_run hs
  refine ⟨fun x _ => ⟨x.2.makeVarHeader_eq 83, x.2.length_header 83⟩, ⟨n, fun k d hk => ?_⟩, fun d hd => ?_⟩
  · obtain ⟨m, rfl, -⟩ := (moves_diamond false).to_end hn hend hk
    exact Nat.le_add_right k m
  · obtain ⟨k, hk⟩ := exists_run hd
    obtain ⟨m, -, hm⟩ := (moves_diamond false).to_end hn hend hk
    obtain ⟨ha, hb⟩ := shown_of_reaches Net.Moves.shown hm.reaches
    refine ⟨ha, hb, fun hended => ?_⟩
    rw [(moves_diamond false).end_unique hs hend hd hended]
    exact ⟨rfl, rfl, rfl, rfl⟩

end Agree

end CalcBridge.Transfer
