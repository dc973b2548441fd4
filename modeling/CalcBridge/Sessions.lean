import CalcBridge.SendListen
/-!
# A session with `listen_loop`

The calculator's side makes any row of calls: a RDY, a variable it sends, a
variable it requests as `REQTEST.z80` does. The other end is `listen_loop` with
any filters and an `on_req`. No packet is lost or overtaken, and no wait is
given up. Whatever the filters say, a call leaves nothing on the way, so the
two ends never get out of step. A `req_var` leaves a packet behind.
-/
open Relation LinkLib LinkLib.Programs LinkLib.Confluence

namespace CalcBridge.Transfer

/-- What `on_req` may serve. -/
abbrev Body := {data : Bytes // data.length ≤ 65535}

/-- A variable asked for, by a calculator with this machine byte and headers of this protocol. -/
structure Request where
  machine : UInt8
  proto : Nat
  typeId : UInt8
  name8 : Bytes
  name_length : name8.length = 8

/-- The protocol of the header that comes back. -/
def Request.answerProto (r : Request) : Nat := if r.machine = 0x82 then 82 else 83

/-- `var_hdr_req`: the header with size 0. -/
def Request.header (r : Request) : Bytes := Outgoing.header ⟨r.typeId, r.name8, [], r.name_length, by decide⟩ r.proto

/-- The variable `on_req` serves. -/
def Request.served (r : Request) (body : Body) : Outgoing := ⟨r.typeId, r.name8, body.1, r.name_length, body.2⟩

/-- What the ends show: how a call ended, and a call of `on_var`. -/
inductive Report where
  | ready (ok : Bool)
  | sent (r : Except String Bool)
  | got (r : Option (Bytes × Bytes))
  | requested (r : Except String (Option (Bytes × Bytes)))
  | called (v : Variable)
  deriving DecidableEq

def Shown.report : Shown → Report
  | .returned r => .sent r
  | .called v => .called v

/-! ## The calls -/

/-- `ready_check`, of `src/diag.py`. -/
def readyCheck (calcMachine : UInt8) (timeoutMs : Nat) : Proc Packet Report Bool :=
  .ifSent false ⟨pcIdFor calcMachine, Cmd.rdy, []⟩ <|
  .ifGot false timeoutMs fun p => .ret (p.cmd = Cmd.ack)

/-! `REQTEST.z80` talks through routines of the calculator's system, which are
taken to do what its comments say of them. -/

/-- `_SendRAMCmd` and `_Send4BytePacket`: a packet is sent and its ACK is waited
for. Anything else, a SKIP too, is ERR:LINK and ends the program. -/
def sendForAck {ρ : Type} (m : Packet) (t : Nat) (next : Proc Packet Report (Option ρ)) : Proc Packet Report (Option ρ) :=
  .ifSent none m <| .ifGot none t fun p => if p.cmd ≠ Cmd.ack then .ret none else next

/-- `_Get4Bytes` and `_GetSmallPacket`, or `_Get4Bytes` and `_GetVariableData`:
a packet is read, whatever it is, and acknowledged. -/
def getAcked {ρ : Type} (machine : UInt8) (t : Nat) (next : Bytes → Proc Packet Report (Option ρ)) :
    Proc Packet Report (Option ρ) :=
  .ifGot none t fun p => .ifSent none ⟨machine, Cmd.ack, []⟩ (next p.data)

/-- `REQTEST.z80`: the header and the data that came, or `none` after ERR:LINK. -/
def reqTest (machine : UInt8) (hdr : Bytes) (t : Nat) : Proc Packet Report (Option (Bytes × Bytes)) :=
  sendForAck ⟨machine, Cmd.req, hdr⟩ t <|
  getAcked machine t fun varHdr =>
  sendForAck ⟨machine, Cmd.cts, []⟩ t <|
  getAcked machine t fun data =>
  -- The trailing EOT, which is not acknowledged.
  .ifGot none t fun _ => .ret (some (varHdr, data))

/-- One call of the calculator's side. -/
inductive Call where
  | ready (machine : UInt8)
  | send (v : Outgoing)
  | request (r : Request)

def Call.program : Call → Proc Packet Report Report
  | .ready machine => (readyCheck machine 3000).bind fun ok => .ret (.ready ok)
  | .send v => ((sendVarTo 0x73 v).relabel Shown.report).bind fun r => .ret (.sent r)
  | .request r => (reqTest r.machine r.header 5000).bind fun got => .ret (.got got)

/-- Calls, with a pause before each. -/
def session : List (Nat × Call) → Proc Packet Report Bool
  | [] => .ret false
  | (pause, c) :: cs => .sleep pause (c.program.bind fun r => .out r (session cs))

/-! ## The other end -/

/-- `listen_loop` with an `on_req`. -/
structure Serving where
  name8 : Option Bytes
  expectedType : Option UInt8
  serve : UInt8 → Bytes → Option Body
  timeoutMs : Nat

def Serving.cfg (l : Serving) : Listen :=
  ⟨l.name8, l.expectedType, some fun typeId name8 => (l.serve typeId name8).map Subtype.val, l.timeoutMs⟩

/-- What a request is answered with: nothing when a filter refuses it. -/
def Serving.answer (l : Serving) (r : Request) : Option Outgoing :=
  if l.cfg.accepts r.typeId r.name8 then (l.serve r.typeId r.name8).map r.served else none

/-- How a call ends. -/
def Serving.report (l : Serving) : Call → Report
  | .ready _ => .ready true
  | .send _ => .sent (.ok true)
  | .request r => .got ((l.answer r).map fun v => (v.header r.answerProto, v.data))

/-- What a call has `on_var` called with: what passes the filters. -/
def Serving.calls (l : Serving) : Call → List Report
  | .ready _ => []
  | .send v => if l.cfg.accepts v.typeId v.name8 then [.called (v.variable 83)] else []
  | .request _ => []

def caller (p : Proc Packet Report Bool) (inbox : List Packet) (outs : List Report) : Node Packet Report :=
  ⟨p, .ret false, inbox, outs⟩

/-- `listen_loop`, in the middle of a turn. -/
def serving (l : Serving) (p : Program Bool) (inbox : List Packet) (outs : List Report) : Node Packet Report :=
  ⟨p.relabel Shown.report, (Program.listenBody l.cfg).relabel Shown.report, inbox, outs⟩

/-! ## One call -/

theorem header_name (v : Outgoing) (proto : Nat) : ((v.header proto).drop 3).take 8 = v.name8 :=
  congrArg Variable.name8 (variableOf_header v proto)

theorem length_header_le (v : Outgoing) (proto : Nat) : 11 ≤ (v.header proto).length := by
  rw [v.length_header]
  split <;> decide

/-- What `listen_loop` does about a REQ. -/
theorem onOpener_request (l : Serving) (r : Request) :
    Program.onOpener l.cfg ⟨r.machine, Cmd.req, r.header⟩ =
      match l.answer r with
      | none => .send ⟨pcIdFor r.machine, Cmd.skip, []⟩ fun _ => .ret .handled
      | some v => (Program.sendVarBack (pcIdFor r.machine) (v.header r.answerProto) v.data).bind fun _ => .ret .handled := by
  have htype : r.header.getD 2 0 = r.typeId := rfl
  have hname : (r.header.drop 3).take 8 = r.name8 := header_name _ _
  have hlen : 11 ≤ r.header.length := length_header_le _ _
  have hopener : Program.onOpener l.cfg ⟨r.machine, Cmd.req, r.header⟩ =
      Program.answerReq l.cfg (fun typeId name8 => (l.serve typeId name8).map Subtype.val) ⟨r.machine, Cmd.req, r.header⟩ := rfl
  rw [hopener, Program.answerReq, htype, hname, Serving.answer]
  by_cases haccepts : l.cfg.accepts r.typeId r.name8
  · rw [if_neg (by simp [haccepts]), if_pos haccepts, Program.respondToReq, if_neg (Nat.not_lt.2 hlen), htype, hname]
    cases l.serve r.typeId r.name8 with
    | none => rfl
    | some body =>
      simp only [Option.map_some]
      have hheader := (r.served body).makeVarHeader_eq r.answerProto
      simp only [Request.served] at hheader
      rw [show (if r.machine = 0x82 then 82 else 83) = r.answerProto from rfl, hheader]
      rfl
  · rw [if_pos ⟨hlen, haccepts⟩, if_neg haccepts]

section OneCall
variable {l : Serving}

abbrev Leads : Net Packet Report → Net Packet Report → Prop := ReflTransGen (Net.Moves false)

/-- `listen_loop` reads the packet that opens a turn. -/
theorem opener_read (o : Packet) (p : Proc Packet Report Bool) (oa ob : List Report) :
    Leads ⟨caller p [] oa, serving l (Program.listenBody l.cfg) [o] ob⟩
      ⟨caller p [] oa, serving l ((Program.onOpener l.cfg o).bind (Program.afterTurn l.cfg)) [] ob⟩ := .single (.b rfl)

theorem ready_reaches (machine : UInt8) (rest : Report → Proc Packet Report Bool) (oa ob : List Report) :
    Leads ⟨caller ((Call.ready machine).program.bind rest) [] oa, serving l (Program.listenBody l.cfg) [] ob⟩
      ⟨caller (rest (.ready true)) [] oa, serving l (Program.listenBody l.cfg) [] ob⟩ := by
  refine .head (.a rfl) ?_
  refine .head (.b rfl) ?_
  refine .head (.b rfl) ?_
  refine .head (.b rfl) ?_
  exact .single (.a rfl)

/-- The REQ is refused. -/
theorem request_skipped {r : Request} (h : l.answer r = none) (rest : Report → Proc Packet Report Bool) (oa ob : List Report) :
    Leads ⟨caller ((Call.request r).program.bind rest) [] oa, serving l (Program.listenBody l.cfg) [] ob⟩
      ⟨caller (rest (.got none)) [] oa, serving l (Program.listenBody l.cfg) [] ob⟩ := by
  refine .head (.a rfl) ?_
  refine .trans (opener_read _ _ oa ob) ?_
  rw [onOpener_request, h]
  refine .head (.b rfl) ?_
  refine .head (.b rfl) ?_
  exact .single (.a rfl)

/-- The variable asked for is sent: VAR, CTS, DATA and EOT. -/
theorem request_answered {r : Request} {v : Outgoing} (h : l.answer r = some v) (rest : Report → Proc Packet Report Bool)
    (oa ob : List Report) :
    Leads ⟨caller ((Call.request r).program.bind rest) [] oa, serving l (Program.listenBody l.cfg) [] ob⟩
      ⟨caller (rest (.got (some (v.header r.answerProto, v.data)))) [] oa, serving l (Program.listenBody l.cfg) [] ob⟩ := by
  refine .head (.a rfl) ?_
  refine .trans (opener_read _ _ oa ob) ?_
  rw [onOpener_request, h]
  -- ACK, 20 ms, VAR.
  refine .head (.b rfl) ?_
  refine .head (.b rfl) ?_
  refine .head (.b rfl) ?_
  refine .head (.a rfl) ?_
  refine .head (.a rfl) ?_
  -- ACK and CTS, answered by ACK, 20 ms, DATA.
  refine .head (.a rfl) ?_
  refine .head (.a rfl) ?_
  refine .head (.b rfl) ?_
  refine .head (.b rfl) ?_
  refine .head (.b rfl) ?_
  refine .head (.b rfl) ?_
  refine .head (.b rfl) ?_
  refine .head (.a rfl) ?_
  refine .head (.a rfl) ?_
  -- ACK and EOT.
  refine .head (.a rfl) ?_
  refine .head (.b rfl) ?_
  refine .head (.b rfl) ?_
  refine .head (.b rfl) ?_
  exact .single (.a rfl)

/-- What `listen_loop` does with a finished transfer. -/
theorem finishing_sent (v : Outgoing) :
    finishing l.cfg (.ret (some (v.header 83, v.data))) =
      if l.cfg.accepts v.typeId v.name8 then .out (.called (v.variable 83)) (.ret true) else .ret true := by
  have hlen := length_header_le v 83
  rw [finishing, Proc.bind, Proc.bind, Program.taken, if_neg (Nat.not_lt.2 hlen), variableOf_header]
  by_cases haccepts : l.cfg.accepts v.typeId v.name8
  · rw [if_pos (by exact haccepts), if_pos haccepts]
    rfl
  · rw [if_neg (by exact haccepts), if_neg haccepts]
    rfl

theorem finished_sent (v : Outgoing) (p : Proc Packet Report Bool) (oa ob : List Report) :
    Leads ⟨caller p [] oa, serving l (finishing l.cfg (.ret (some (v.header 83, v.data)))) [] ob⟩
      ⟨caller p [] oa, serving l (Program.listenBody l.cfg) [] (ob ++ l.calls (.send v))⟩ := by
  rw [finishing_sent, Serving.calls]
  split
  · refine .head (.b rfl) ?_
    exact .single (.b rfl)
  · rw [List.append_nil]
    exact .single (.b rfl)

theorem send_reaches (v : Outgoing) (rest : Report → Proc Packet Report Bool) (oa ob : List Report) :
    Leads ⟨caller ((Call.send v).program.bind rest) [] oa, serving l (Program.listenBody l.cfg) [] ob⟩
      ⟨caller (rest (.sent (.ok true))) [] oa, serving l (Program.listenBody l.cfg) [] (ob ++ l.calls (.send v))⟩ := by
  rw [Call.program, sendVarTo_eq]
  -- RTS, ACK and CTS, ACK.
  refine .head (.a rfl) ?_
  refine .head (.b rfl) ?_
  refine .head (.b rfl) ?_
  refine .head (.b rfl) ?_
  refine .head (.a rfl) ?_
  refine .head (.a rfl) ?_
  refine .head (.a rfl) ?_
  refine .head (.b rfl) ?_
  -- 20 ms, DATA and its ACK.
  refine .head (.a rfl) ?_
  refine .head (.a rfl) ?_
  refine .head (.b rfl) ?_
  refine .head (.b rfl) ?_
  refine .head (.a rfl) ?_
  -- EOT, and its drain.
  refine .head (.a rfl) ?_
  refine .head (.b rfl) ?_
  exact finished_sent v _ oa ob

/-- Every call ends as it should and leaves nothing on the way. -/
theorem call_reaches (c : Call) (rest : Report → Proc Packet Report Bool) (oa ob : List Report) :
    Leads ⟨caller (c.program.bind rest) [] oa, serving l (Program.listenBody l.cfg) [] ob⟩
      ⟨caller (rest (l.report c)) [] oa, serving l (Program.listenBody l.cfg) [] (ob ++ l.calls c)⟩ := by
  cases c with
  | ready machine =>
    rw [Serving.report, Serving.calls, List.append_nil]
    exact ready_reaches machine rest oa ob
  | send v => exact send_reaches v rest oa ob
  | request r =>
    rw [Serving.report, Serving.calls, List.append_nil]
    cases hanswer : l.answer r with
    | none => exact request_skipped hanswer rest oa ob
    | some v => exact request_answered hanswer rest oa ob

end OneCall

/-! ## Whole sessions -/

section Whole
variable (l : Serving)

theorem session_reaches (cs : List (Nat × Call)) (oa ob : List Report) :
    Leads ⟨caller (session cs) [] oa, serving l (Program.listenBody l.cfg) [] ob⟩
      ⟨caller (.ret false) [] (oa ++ cs.map fun c => l.report c.2),
        serving l (Program.listenBody l.cfg) [] (ob ++ cs.flatMap fun c => l.calls c.2)⟩ := by
  induction cs generalizing oa ob with
  | nil => simpa [session] using .refl
  | cons c cs ih =>
    obtain ⟨pause, c⟩ := c
    rw [session]
    refine .head (.a rfl) ?_
    apply (call_reaches c _ oa ob).trans
    refine .head (.a rfl) ?_
    have := ih (oa ++ [l.report c]) (ob ++ l.calls c)
    rw [List.append_assoc, List.append_assoc] at this
    exact this

/-- In every interleaving the calls so far have ended as they should and `on_var`
was called with the accepted variables, in order; every run comes to an end; and
at its end all calls have been made and no packet is left. -/
theorem session_agrees (cs : List (Nat × Call)) :
    let s : Net Packet Report := ⟨caller (session cs) [] [], serving l (Program.listenBody l.cfg) [] []⟩
    let reports := cs.map fun c => l.report c.2
    let calls := cs.flatMap fun c => l.calls c.2
    (∃ n, ∀ k d, Run (Net.Moves false) k s d → k ≤ n) ∧
    ∀ d, Leads s d → d.a.outs <+: reports ∧ d.b.outs <+: calls ∧
      (Ended (Net.Moves false) d → d.a.outs = reports ∧ d.b.outs = calls ∧ d.a.inbox = [] ∧ d.b.inbox = []) := by
  intro s reports calls
  have hs : Leads s ⟨caller (.ret false) [] reports, serving l (Program.listenBody l.cfg) [] calls⟩ := session_reaches l cs [] []
  obtain ⟨hbound, hall⟩ := agree_of_reaches hs (Net.ended_of_none rfl rfl)
  refine ⟨hbound, fun d hd => ?_⟩
  obtain ⟨⟨ha, hb⟩, hd⟩ := hall d hd
  refine ⟨ha, hb, fun hended => ?_⟩
  rw [hd hended]
  exact ⟨rfl, rfl, rfl, rfl⟩

end Whole

/-- A ready check, a string and a request for CHATIN, of a loop that serves that AppVar and takes no string. -/
theorem session_agrees_three :
    let name : Bytes := [0x43, 0x48, 0x41, 0x54, 0x49, 0x4E, 0, 0]
    let l : Serving :=
      ⟨some name, none, fun typeId _ => if typeId = 0x15 then some ⟨[2, 0, 0x48, 0x49], by decide⟩ else none, 500⟩
    let r : Request := ⟨0x73, 83, 0x15, name, rfl⟩
    let v : Outgoing := ⟨0x04, [0xAA, 0, 0, 0, 0, 0, 0, 0], [1, 0, 0x41], rfl, by decide⟩
    ∀ d, Leads ⟨caller (session [(0, .ready 0x73), (20, .send v), (5, .request r)]) [] [],
        serving l (Program.listenBody l.cfg) [] []⟩ d → Ended (Net.Moves false) d →
      d.a.outs = [.ready true, .sent (.ok true), .got (some ([4, 0, 0x15] ++ name ++ [0, 0], [2, 0, 0x48, 0x49]))] ∧
        d.b.outs = [] := by
  intro name l r v d hd hended
  obtain ⟨ha, hb, -⟩ := ((session_agrees l [(0, .ready 0x73), (20, .send v), (5, .request r)]).2 d hd).2.2 hended
  exact ⟨ha.trans (by decide), hb.trans (by decide)⟩

/-! ## `req_var` -/

/-- `req_var` from the VAR packet on. -/
def takeAnswer (pcMachine : UInt8) (timeoutMs : Nat) : Proc Packet Report (Except String (Option (Bytes × Bytes))) :=
  .ifGot (.ok none) timeoutMs fun p =>
  if p.cmd ≠ Cmd.var then .ret (.ok none)
  else
    .ifSent (.ok none) ⟨pcMachine, Cmd.ack, []⟩ <|
    .ifSent (.ok none) ⟨pcMachine, Cmd.cts, []⟩ <|
    .ifGot (.ok none) timeoutMs fun p2 =>
    if p2.cmd ≠ Cmd.ack then .ret (.ok none)
    else
      .ifGot (.ok none) timeoutMs fun p3 =>
      if p3.cmd ≠ Cmd.data then .ret (.ok none)
      else .ifSent (.ok none) ⟨pcMachine, Cmd.ack, []⟩ (.ret (.ok (some (p.data, p3.data))))

/-- `req_var` from the REQ packet on. -/
def sendReq (pcMachine : UInt8) (hdr : Bytes) (timeoutMs : Nat) : Proc Packet Report (Except String (Option (Bytes × Bytes))) :=
  .ifSent (.ok none) ⟨pcMachine, Cmd.req, hdr⟩ <|
  .ifGot (.ok none) timeoutMs fun p =>
  if p.cmd = Cmd.skip then .send ⟨pcMachine, Cmd.ack, []⟩ fun _ => .ret (.ok none)
  else if p.cmd ≠ Cmd.ack then .ret (.ok none)
  else takeAnswer pcMachine timeoutMs

/-- `req_var`. The error is the text of a ValueError. -/
def reqVar (typeId : UInt8) (name8 : Bytes) (calcMachine : UInt8) (timeoutMs : Nat) :
    Proc Packet Report (Except String (Option (Bytes × Bytes))) :=
  match Vartypes.makeVarHeader 0 typeId name8 (if calcMachine = 0x82 then 82 else 83) with
  | .error e => .ret (.error e)
  | .ok hdr => sendReq (pcIdFor calcMachine) hdr timeoutMs

/-- What `req_var(type_id, name8, calc_machine)` asks for. -/
structure Asking where
  calcMachine : UInt8
  typeId : UInt8
  name8 : Bytes
  name_length : name8.length = 8

def Asking.request (q : Asking) : Request :=
  ⟨pcIdFor q.calcMachine, if q.calcMachine = 0x82 then 82 else 83, q.typeId, q.name8, q.name_length⟩

def Asking.call (q : Asking) : Proc Packet Report (Except String (Option (Bytes × Bytes))) :=
  reqVar q.typeId q.name8 q.calcMachine 5000

theorem Asking.call_eq (q : Asking) : q.call = sendReq q.request.machine q.request.header 5000 := by
  have hheader : Vartypes.makeVarHeader 0 q.typeId q.name8 (if q.calcMachine = 0x82 then 82 else 83) = .ok q.request.header :=
    Outgoing.makeVarHeader_eq ⟨q.typeId, q.name8, [], q.name_length, by decide⟩ q.request.proto
  rw [Asking.call, reqVar, hheader]
  rfl

section Ask
variable {l : Serving}

/-- `req_var`, and what it returned. -/
def asks (q : Asking) : Proc Packet Report Bool := q.call.bind fun r => .out (.requested r) (.ret false)

/-- The variable has come, and behind it an EOT that is not read. -/
theorem ask_answered {q : Asking} {v : Outgoing} (h : l.answer q.request = some v) :
    Leads ⟨caller (asks q) [] [], serving l (Program.listenBody l.cfg) [] []⟩
      ⟨caller (.ret false) [⟨pcIdFor q.request.machine, Cmd.eot, []⟩]
          [.requested (.ok (some (v.header q.request.answerProto, v.data)))],
        serving l (Program.listenBody l.cfg) [] []⟩ := by
  rw [asks, q.call_eq]
  refine .head (.a rfl) ?_
  refine .trans (opener_read ⟨q.request.machine, Cmd.req, q.request.header⟩ _ [] []) ?_
  rw [onOpener_request, h]
  -- ACK, 20 ms, VAR.
  refine .head (.b rfl) ?_
  refine .head (.b rfl) ?_
  refine .head (.b rfl) ?_
  refine .head (.a rfl) ?_
  refine .head (.a rfl) ?_
  -- ACK and CTS, answered by ACK, 20 ms, DATA.
  refine .head (.a rfl) ?_
  refine .head (.a rfl) ?_
  refine .head (.b rfl) ?_
  refine .head (.b rfl) ?_
  refine .head (.b rfl) ?_
  refine .head (.b rfl) ?_
  refine .head (.b rfl) ?_
  refine .head (.a rfl) ?_
  refine .head (.a rfl) ?_
  -- Its ACK, and the EOT.
  refine .head (.a rfl) ?_
  refine .head (.b rfl) ?_
  refine .head (.b rfl) ?_
  refine .head (.b rfl) ?_
  exact .single (.a rfl)

/-- The REQ is refused, and the ACK of the refusal is taken for an opener and acknowledged. -/
theorem ask_skipped {q : Asking} (h : l.answer q.request = none) :
    Leads ⟨caller (asks q) [] [], serving l (Program.listenBody l.cfg) [] []⟩
      ⟨caller (.ret false) [⟨pcIdFor q.request.machine, Cmd.ack, []⟩] [.requested (.ok none)],
        serving l (Program.listenBody l.cfg) [] []⟩ := by
  rw [asks, q.call_eq]
  refine .head (.a rfl) ?_
  refine .trans (opener_read ⟨q.request.machine, Cmd.req, q.request.header⟩ _ [] []) ?_
  rw [onOpener_request, h]
  refine .head (.b rfl) ?_
  refine .head (.b rfl) ?_
  refine .head (.a rfl) ?_
  refine .head (.a rfl) ?_
  refine .head (.b rfl) ?_
  refine .head (.b rfl) ?_
  refine .head (.b rfl) ?_
  exact .single (.a rfl)

/-- In every interleaving `req_var` returns the variable that `on_req` serves, or
None when it is refused, and `listen_loop` sends one packet more than `req_var`
reads: the EOT behind the variable, or an ACK in answer to the ACK of the
refusal. -/
theorem ask_leaves_packet (l : Serving) (q : Asking) :
    let s : Net Packet Report := ⟨caller (asks q) [] [], serving l (Program.listenBody l.cfg) [] []⟩
    let answer := l.answer q.request
    let returned : List Report := [.requested (.ok (answer.map fun v => (v.header q.request.answerProto, v.data)))]
    (∃ n, ∀ k d, Run (Net.Moves false) k s d → k ≤ n) ∧
    ∀ d, Leads s d → d.a.outs <+: returned ∧ d.b.outs = [] ∧
      (Ended (Net.Moves false) d → d.a.outs = returned ∧ d.b.inbox = [] ∧
        d.a.inbox = [⟨pcIdFor q.request.machine, if answer.isSome then Cmd.eot else Cmd.ack, []⟩]) := by
  intro s answer returned
  have hrun : Leads s
      ⟨caller (.ret false) [⟨pcIdFor q.request.machine, if answer.isSome then Cmd.eot else Cmd.ack, []⟩] returned,
      serving l (Program.listenBody l.cfg) [] []⟩ := by
    cases hanswer : l.answer q.request with
    | none => simpa [returned, answer, hanswer] using ask_skipped hanswer
    | some v => simpa [returned, answer, hanswer] using ask_answered hanswer
  obtain ⟨hbound, hall⟩ := agree_of_reaches hrun (Net.ended_of_none rfl rfl)
  refine ⟨hbound, fun d hd => ?_⟩
  obtain ⟨⟨ha, hb⟩, hd⟩ := hall d hd
  refine ⟨ha, List.prefix_nil.1 hb, fun hended => ?_⟩
  rw [hd hended]
  exact ⟨rfl, rfl, rfl⟩

end Ask

/-- CHATIN is served, and the EOT behind it is left. -/
theorem ask_leaves_packet_eot :
    let name : Bytes := [0x43, 0x48, 0x41, 0x54, 0x49, 0x4E, 0, 0]
    let l : Serving := ⟨none, none, fun typeId _ => if typeId = 0x15 then some ⟨[2, 0, 0x48, 0x49], by decide⟩ else none, 500⟩
    let q : Asking := ⟨0x73, 0x15, name, rfl⟩
    ∀ d, Leads ⟨caller (asks q) [] [], serving l (Program.listenBody l.cfg) [] []⟩ d → Ended (Net.Moves false) d →
      d.a.outs = [.requested (.ok (some ([4, 0, 0x15] ++ name ++ [0, 0], [2, 0, 0x48, 0x49])))] ∧
        d.a.inbox = [⟨0x23, Cmd.eot, []⟩] := by
  intro name l q d hd hended
  obtain ⟨ha, -, hleft⟩ := ((ask_leaves_packet l q).2 d hd).2.2 hended
  exact ⟨ha.trans (by decide), hleft.trans (by decide)⟩

end CalcBridge.Transfer
