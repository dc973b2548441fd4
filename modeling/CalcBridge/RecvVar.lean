import CalcBridge.Transfer
/-!
# One variable, received on its own (`src/transfer.py`, `recv_var`)

`recv_var` has a copy of the flow that `listen_loop` runs behind an opener.
The two are the same up to the ACK of the data and differ in what they do
about a packet after it.
-/
open LinkLib

namespace CalcBridge.Transfer

section Flow
variable {σ : Type} (link : Link σ)

/-- `recv_var`, behind its `idle()`. -/
def recvVar (timeoutMs : Nat) (s : σ) : Option (Bytes × Bytes) × σ :=
  ifGot none (link.recv timeoutMs s) fun p s =>
  let pcMachine := pcIdFor p.machine
  if p.cmd ≠ Cmd.rts ∧ p.cmd ≠ Cmd.var then (none, s)
  else
    ifSent none (link.send ⟨pcMachine, Cmd.ack, []⟩ s) fun s =>
    ifSent none (link.send ⟨pcMachine, Cmd.cts, []⟩ s) fun s =>
    ifGot none (link.recv timeoutMs s) fun p2 s =>
    if p2.cmd ≠ Cmd.ack then (none, s)
    else
      ifGot none (link.recv timeoutMs s) fun p3 s =>
      if p3.cmd ≠ Cmd.data then (none, s)
      else
        ifSent none (link.send ⟨pcMachine, Cmd.ack, []⟩ s) fun s =>
        -- The TI-82 protocol ends here.
        if p.machine = 0x82 then (some (p.data, p3.data), s)
        else
          -- What should be an EOT is taken whatever it is, but has to come.
          ifGot none (link.recv timeoutMs s) fun _ s => (some (p.data, p3.data), s)

/-- The flow behind an opener up to the ACK of the data, and then `next`. -/
def upToDataAck (machine cmd : UInt8) (timeoutMs : Nat) (next : Bytes → σ → Option (Bytes × Bytes) × σ) (s : σ) :
    Option (Bytes × Bytes) × σ :=
  if cmd ≠ Cmd.rts ∧ cmd ≠ Cmd.var then (none, s)
  else
    ifSent none (link.send ⟨pcIdFor machine, Cmd.ack, []⟩ s) fun s =>
    ifSent none (link.send ⟨pcIdFor machine, Cmd.cts, []⟩ s) fun s =>
    ifGot none (link.recv timeoutMs s) fun p s =>
    if p.cmd ≠ Cmd.ack then (none, s)
    else
      ifGot none (link.recv timeoutMs s) fun p s =>
      if p.cmd ≠ Cmd.data then (none, s)
      else ifSent none (link.send ⟨pcIdFor machine, Cmd.ack, []⟩ s) fun s => next p.data s

theorem finishRecv_eq (machine cmd : UInt8) (hdr : Bytes) (timeoutMs : Nat) (s : σ) :
    finishRecvAfterFirstPkt link machine cmd hdr timeoutMs s =
      upToDataAck link machine cmd timeoutMs (fun data s => (some (hdr, data), (link.recv 500 s).2)) s := rfl

theorem recvVar_eq (timeoutMs : Nat) (s : σ) :
    recvVar link timeoutMs s = ifGot none (link.recv timeoutMs s) fun p s =>
      upToDataAck link p.machine p.cmd timeoutMs (fun data s =>
        if p.machine = 0x82 then (some (p.data, data), s)
        else ifGot none (link.recv timeoutMs s) fun _ s => (some (p.data, data), s)) s := rfl

end Flow

/-! ## Streams of packets and timeouts -/

/-- What comes from the calculator, receive by receive, with `none` for a
timeout and silence in the end, and how the sends to it end, which go through
after the listed ones. -/
structure Inbox where
  incoming : List (Option Packet)
  accepted : List Bool
  deriving DecidableEq, Repr

def Inbox.recv (s : Inbox) : Option Packet × Inbox := (s.incoming.headD none, { s with incoming := s.incoming.tail })

def Inbox.send (s : Inbox) : Bool × Inbox := (s.accepted.headD true, { s with accepted := s.accepted.tail })

def inboxLink : Link Inbox := ⟨fun _ s => s.recv, fun _ s => s.send⟩

/-- The packets that are still to be read. -/
def Inbox.unread (s : Inbox) : List Packet := s.incoming.filterMap id

/-- The next receive gives a packet. -/
def PacketNext (incoming : List (Option Packet)) : Prop := ∃ p, incoming.head? = some (some p)

/-- The three sends up to the ACK of the data go through, the next two packets
are an ACK and a DATA packet, and `rest` comes after them. -/
def ReachesDataAck (cmd : UInt8) (s : Inbox) (rest : List (Option Packet)) : Prop :=
  (cmd = Cmd.rts ∨ cmd = Cmd.var) ∧ (∀ ok ∈ s.accepted.take 3, ok = true) ∧
    ∃ a d, s.incoming = some a :: some d :: rest ∧ a.cmd = Cmd.ack ∧ d.cmd = Cmd.data

/-- Behind the same opener, both flows return the same and leave the same packets. -/
def FlowsAgree (machine cmd : UInt8) (hdr : Bytes) (timeoutMs timeoutMs' : Nat) (s : Inbox) : Prop :=
  let one := recvVar inboxLink timeoutMs { s with incoming := some ⟨machine, cmd, hdr⟩ :: s.incoming }
  let loop := finishRecvAfterFirstPkt inboxLink machine cmd hdr timeoutMs' s
  one.1 = loop.1 ∧ one.2.unread = loop.2.unread

theorem accepted_three (acc : List Bool) : (∀ ok ∈ acc.take 3, ok = true) ↔
    acc.headD true = true ∧ acc.tail.headD true = true ∧ acc.tail.tail.headD true = true := by
  rcases acc with _ | ⟨x, _ | ⟨y, _ | ⟨z, acc⟩⟩⟩ <;> simp

section Inbox
variable {β : Type} {fail : β} {p : Packet} {ms : Nat} {inc : List (Option Packet)} {acc : List Bool}

theorem ifSent_ok (h : acc.headD true = true) (next : Inbox → β × Inbox) :
    ifSent fail (inboxLink.send p ⟨inc, acc⟩) next = next ⟨inc, acc.tail⟩ := if_pos h

theorem ifSent_failed (h : ¬ acc.headD true = true) (next : Inbox → β × Inbox) :
    ifSent fail (inboxLink.send p ⟨inc, acc⟩) next = (fail, ⟨inc, acc.tail⟩) := if_neg h

theorem ifGot_packet (next : Packet → Inbox → β × Inbox) :
    ifGot fail (inboxLink.recv ms ⟨some p :: inc, acc⟩) next = next p ⟨inc, acc⟩ := rfl

theorem ifGot_silence (h : ¬ PacketNext inc) (next : Packet → Inbox → β × Inbox) :
    ifGot fail (inboxLink.recv ms ⟨inc, acc⟩) next = (fail, ⟨inc.tail, acc⟩) := by
  rcases inc with _ | ⟨_ | p, inc⟩
  · rfl
  · rfl
  · exact absurd ⟨p, rfl⟩ h

theorem PacketNext.exists (h : PacketNext inc) : ∃ p rest, inc = some p :: rest := by
  obtain ⟨p, hp⟩ := h
  obtain ⟨rest, rfl⟩ := List.head?_eq_some_iff.1 hp
  exact ⟨p, rest, rfl⟩

/-- A receive takes a packet away exactly when one is next. -/
theorem unread_tail : Inbox.unread ⟨inc, acc⟩ = Inbox.unread ⟨inc.tail, acc⟩ ↔ ¬ PacketNext inc := by
  rcases inc with _ | ⟨_ | p, inc⟩
  · exact iff_of_true rfl nofun
  · exact iff_of_true rfl nofun
  · exact iff_of_false (fun h => absurd (congrArg List.length h) (Nat.succ_ne_self _)) (not_not.2 ⟨p, rfl⟩)

end Inbox

/-- Both flows stop at the same point before the ACK of the data, or reach it. -/
theorem upToDataAck_inbox (machine cmd : UInt8) (s : Inbox) :
    ((∀ rest, ¬ ReachesDataAck cmd s rest) ∧
      ∃ t, ∀ timeoutMs next, upToDataAck inboxLink machine cmd timeoutMs next s = (none, t)) ∨
    ∃ data t, ReachesDataAck cmd s t.incoming ∧
      ∀ timeoutMs next, upToDataAck inboxLink machine cmd timeoutMs next s = next data t := by
  obtain ⟨inc, acc⟩ := s
  unfold ReachesDataAck upToDataAck
  simp only [accepted_three]
  by_cases hcmd : cmd ≠ Cmd.rts ∧ cmd ≠ Cmd.var
  · exact .inl ⟨by tauto, ⟨inc, acc⟩, fun _ _ => if_pos hcmd⟩
  simp only [if_neg hcmd]
  by_cases h₁ : acc.headD true = true
  swap
  · exact .inl ⟨by tauto, ⟨inc, acc.tail⟩, fun _ _ => ifSent_failed h₁ _⟩
  simp only [ifSent_ok h₁]
  by_cases h₂ : acc.tail.headD true = true
  swap
  · exact .inl ⟨by tauto, ⟨inc, acc.tail.tail⟩, fun _ _ => ifSent_failed h₂ _⟩
  simp only [ifSent_ok h₂]
  by_cases hpa : PacketNext inc
  swap
  · refine .inl ⟨?_, ⟨inc.tail, acc.tail.tail⟩, fun _ _ => ifGot_silence hpa _⟩
    rintro rest ⟨-, -, a, d, rfl, -⟩
    exact hpa ⟨a, rfl⟩
  obtain ⟨a, inc, rfl⟩ := hpa.exists
  simp only [ifGot_packet]
  by_cases ha : a.cmd = Cmd.ack
  swap
  · refine .inl ⟨?_, ⟨inc, acc.tail.tail⟩, fun _ _ => if_pos ha⟩
    rintro rest ⟨-, -, a', d, he, ha', -⟩
    cases he
    exact ha ha'
  simp only [if_neg (not_not.2 ha)]
  by_cases hpd : PacketNext inc
  swap
  · refine .inl ⟨?_, ⟨inc.tail, acc.tail.tail⟩, fun _ _ => ifGot_silence hpd _⟩
    rintro rest ⟨-, -, a', d, he, -⟩
    cases he
    exact hpd ⟨d, rfl⟩
  obtain ⟨d, inc, rfl⟩ := hpd.exists
  simp only [ifGot_packet]
  by_cases hd : d.cmd = Cmd.data
  swap
  · refine .inl ⟨?_, ⟨inc, acc.tail.tail⟩, fun _ _ => if_pos hd⟩
    rintro rest ⟨-, -, a', d', he, -, hd'⟩
    cases he
    exact hd hd'
  simp only [if_neg (not_not.2 hd)]
  by_cases h₃ : acc.tail.tail.headD true = true
  swap
  · exact .inl ⟨by tauto, ⟨inc, acc.tail.tail.tail⟩, fun _ _ => ifSent_failed h₃ _⟩
  exact .inr ⟨d.data, ⟨inc, acc.tail.tail.tail⟩, ⟨by tauto, ⟨h₁, h₂, h₃⟩, a, d, rfl, ha, hd⟩, fun _ _ => ifSent_ok h₃ _⟩

theorem ReachesDataAck.unique {cmd : UInt8} {s : Inbox} {rest rest' : List (Option Packet)} (h : ReachesDataAck cmd s rest)
    (h' : ReachesDataAck cmd s rest') : rest = rest' := by
  obtain ⟨-, -, a, d, he, -⟩ := h
  obtain ⟨-, -, a', d', he', -⟩ := h'
  rw [he] at he'
  cases he'
  rfl

/-- The flows agree exactly when they do not come to the ACK of the data, or a
packet follows it from any machine but a TI-82, or none does from a TI-82. -/
theorem flows_agree_iff (machine cmd : UInt8) (hdr : Bytes) (timeoutMs timeoutMs' : Nat) (s : Inbox) :
    FlowsAgree machine cmd hdr timeoutMs timeoutMs' s ↔
      ∀ rest, ReachesDataAck cmd s rest → (PacketNext rest ↔ machine ≠ 0x82) := by
  unfold FlowsAgree
  dsimp only
  rw [recvVar_eq, finishRecv_eq, ifGot_packet]
  dsimp only
  rcases upToDataAck_inbox machine cmd s with ⟨hnever, t, hstop⟩ | ⟨data, t, hreach, hnext⟩
  · rw [hstop, hstop]
    exact iff_of_true ⟨rfl, rfl⟩ fun rest h => absurd h (hnever rest)
  · have hrest : (∀ rest, ReachesDataAck cmd s rest → (PacketNext rest ↔ machine ≠ 0x82)) ↔
        (PacketNext t.incoming ↔ machine ≠ 0x82) :=
      ⟨fun h => h _ hreach, fun h rest hr => hr.unique hreach ▸ h⟩
    rw [hnext, hnext, hrest]
    obtain ⟨inc, acc⟩ := t
    dsimp only at hreach ⊢
    by_cases h82 : machine = 0x82
    · -- `recv_var` returns at once, and the loop takes what follows.
      rw [if_pos h82, iff_false_right (not_not.2 h82), ← unread_tail]
      exact and_iff_right rfl
    · rw [if_neg h82, iff_true_right h82]
      by_cases hp : PacketNext inc
      · obtain ⟨p, rest, rfl⟩ := hp.exists
        exact iff_of_true ⟨rfl, rfl⟩ hp
      · -- `recv_var` gives the variable up when nothing follows.
        rw [ifGot_silence hp]
        exact iff_of_false (fun h => nomatch h.1) hp

/-- A TI-82 opener, ACK, DATA and an EOT, which `recv_var` leaves unread. And
an 83 that sends no EOT, whose variable only the loop returns. -/
theorem flows_differ :
    let inbox (last : Option Packet) : Inbox := ⟨[some ⟨0x82, Cmd.ack, []⟩, some ⟨0x82, Cmd.data, [7]⟩, last], []⟩
    ¬ FlowsAgree 0x82 Cmd.rts [1] 10000 10000 (inbox (some ⟨0x82, Cmd.eot, []⟩)) ∧
    ¬ FlowsAgree 0x73 Cmd.rts [1] 10000 10000 (inbox none) := by
  constructor
  · rintro ⟨-, h⟩
    revert h
    decide
  · rintro ⟨h, -⟩
    revert h
    decide

end CalcBridge.Transfer
