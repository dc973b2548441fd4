import CalcBridge.SendListen
import CalcBridge.Wire.Talk
/-!
# Packets over the two lines

A conversation is a row of packets, each put on the wire by one end with
`send_packet` and read by the other with `recv_packet`. Over the two lines it is
a dialogue of bits, so a change of the speaker is safe exactly when the last bit
of a packet is the first of the next one.
-/
open LinkLib LinkLib.Runs LinkLib.Programs

namespace CalcBridge.Wire
open Transfer

/-- The packets to be sent, in order, and by whom. -/
abbrev Conversation := List (Side × Sent)

/-- The bits `send_packet` sends. -/
def packetBits (p : Sent) : List Bool := p.bytes.flatMap byteBits

/-- The dialogue of a conversation. -/
def spoken (c : Conversation) : Dialogue := c.flatMap fun x => (packetBits x.2).map (x.1, ·)

/-- The packets an end is to receive. -/
def packetsFor (w : Side) (c : Conversation) : List Sent := (c.filter fun x => x.1 ≠ w).map Prod.snd

/-! ## First and last bits -/

/-- The lowest bit of the machine id. -/
def firstBit (p : Sent) : Bool := p.packet.machine.toNat % 2 = 1

/-- The highest bit of the last byte: of the checksum, or of the length word. -/
def lastBit : Sent → Bool
  | .carrying _ _ body _ _ => 0x8000 ≤ checksum body
  | .bare _ _ _ hi _ => 0x80 ≤ hi.toNat

theorem byteBits_ends (b : UInt8) :
    (byteBits b).head? = some (decide (b.toNat % 2 = 1)) ∧ (byteBits b).getLast? = some (decide (0x80 ≤ b.toNat)) := by
  have hall : ∀ n : Fin 256, (byteBits (.ofNat n)).head? = some (decide (n.val % 2 = 1)) ∧
      (byteBits (.ofNat n)).getLast? = some (decide (0x80 ≤ n.val)) := by decide +kernel
  simpa using hall ⟨b.toNat, b.toNat_lt⟩

theorem head_bits (b : UInt8) (bytes : Bytes) : ((b :: bytes).flatMap byteBits).head? = some (decide (b.toNat % 2 = 1)) := by
  rw [List.flatMap_cons, List.head?_append, (byteBits_ends b).1]
  rfl

theorem last_bits (bytes : Bytes) (b : UInt8) : ((bytes ++ [b]).flatMap byteBits).getLast? = some (decide (0x80 ≤ b.toNat)) := by
  simp [List.getLast?_append, (byteBits_ends b).2]

theorem head_packetBits (p : Sent) : (packetBits p).head? = some (firstBit p) := by
  cases p <;> exact head_bits _ _

theorem last_packetBits (p : Sent) : (packetBits p).getLast? = some (lastBit p) := by
  cases p with
  | bare machine cmd lo hi hcmd => exact last_bits [machine, cmd, lo] hi
  | carrying machine cmd body hcmd hbody =>
    by_cases hlen : body.length = 0
    · obtain rfl := List.length_eq_zero_iff.1 hlen
      exact last_bits [machine, cmd, 0] 0
    · have hbytes : packetBytes cmd body machine =
          ([machine, cmd] ++ wordBytes body.length ++ body ++ [UInt8.ofNat (checksum body &&& 0xFF)]) ++
            [UInt8.ofNat ((checksum body >>> 8) &&& 0xFF)] := by
        rw [packetBytes, if_pos hlen, wordBytes, wordBytes]
        simp
      rw [packetBits, Sent.bytes, hbytes, last_bits, lastBit]
      have hlt := checksum_lt body
      rw [Bytes.ofNat_and_ff, Bytes.shiftRight_8, UInt8.toNat_ofNat', Nat.mod_eq_of_lt (by omega)]
      congr 1
      rw [decide_eq_decide]
      omega

/-! ## Conversations are dialogues -/

theorem spoken_cons (x : Side × Sent) (c : Conversation) : spoken (x :: c) = (packetBits x.2).map (x.1, ·) ++ spoken c :=
  List.flatMap_cons

theorem packetsFor_own (w : Side) (p : Sent) (c : Conversation) : packetsFor w ((w, p) :: c) = packetsFor w c := by
  simp [packetsFor]

theorem packetsFor_other {w v : Side} (h : v ≠ w) (p : Sent) (c : Conversation) :
    packetsFor w ((v, p) :: c) = p :: packetsFor w c := by
  simp [packetsFor, h]

theorem heard_spoken (w : Side) (c : Conversation) : heard w (spoken c) = (packetsFor w c).flatMap packetBits := by
  induction c with
  | nil => rfl
  | cons x c ih =>
    obtain ⟨v, p⟩ := x
    rw [spoken_cons, heard_append, ih]
    by_cases h : v = w
    · subst h
      rw [packetsFor_own, heard_sent, List.nil_append]
    · rw [packetsFor_other h, heard_heard h, List.flatMap_cons]

/-- The last bit of a packet and the first of the next are equal when the speaker changes. -/
def Turns (x y : Side × Sent) : Prop := x.1 = y.1 ∨ lastBit x.2 = firstBit y.2

theorem compatible_spoken (c : Conversation) : Compatible (spoken c) ↔ c.IsChain Turns := by
  induction c with
  | nil => exact iff_of_true .nil .nil
  | cons x c ih =>
    have hlast : ((packetBits x.2).map (x.1, ·)).getLast? = some (x.1, lastBit x.2) := by
      rw [List.getLast?_map, last_packetBits]
      rfl
    rw [spoken_cons, Compatible, List.isChain_append, hlast]
    cases c with
    | nil =>
      refine iff_of_true ⟨compatible_sent _ _, .nil, ?_⟩ (.singleton x)
      rintro _ - _ ⟨⟩
    | cons y c =>
      have hhead : (spoken (y :: c)).head? = some (y.1, firstBit y.2) := by
        rw [spoken_cons, List.head?_append, List.head?_map, head_packetBits]
        rfl
      rw [List.isChain_cons_cons, ← ih, hhead]
      constructor
      · rintro ⟨-, hrest, hturn⟩
        exact ⟨hturn _ rfl _ rfl, hrest⟩
      · rintro ⟨hturn, hrest⟩
        refine ⟨compatible_sent _ _, hrest, ?_⟩
        rintro _ ⟨⟩ _ ⟨⟩
        exact hturn

/-- The packets an end has received when it has heard these bits: what
`recv_packet` returns, call by call, and what is left. -/
def received (k : Nat) (bits : List Bool) : List (Option Packet) × Rx :=
  recvPackets 0 k (onWire (recvBytes (bits.length / 8) bits) [])

theorem received_packets (ps : List Sent) :
    received ps.length (ps.flatMap packetBits) = (ps.map fun p => some p.packet, []) := by
  have hbits : ps.flatMap packetBits = (ps.flatMap Sent.bytes).flatMap byteBits := by
    rw [List.flatMap_assoc]
    rfl
  rw [received, hbits, length_byteBits, Nat.mul_div_cancel_left _ (by decide), recvBytes_flatMap, recvPackets_sent]

/-- What is wanted of every state of a conversation: what was heard is the
beginning of what the other end sends, some end can go on, and at the end all
was heard, `recv_packet` returns the packets in order with nothing left, and both
lines are high. -/
structure Carried (c : Conversation) (s : Link) : Prop where
  heard : ∀ w, (s w).got <+: (packetsFor w c).flatMap packetBits
  moves : ¬ s.Stuck
  finished : s.Finished → (∀ w, (s w).got = (packetsFor w c).flatMap packetBits ∧
    received (packetsFor w c).length (s w).got = ((packetsFor w c).map fun p => some p.packet, [])) ∧ ∀ l, s.value l = true

theorem carried_iff_good (c : Conversation) (s : Link) : Carried c s ↔ Good (spoken c) s := by
  constructor
  · intro h
    refine ⟨fun w => ?_, h.moves, fun hfin => ⟨fun w => ?_, (h.finished hfin).2⟩⟩ <;> rw [heard_spoken]
    · exact h.heard w
    · exact ((h.finished hfin).1 w).1
  · intro h
    have hheard := h.heard
    have hfinished := h.finished
    simp only [heard_spoken] at hheard hfinished
    refine ⟨hheard, h.moves, fun hfin => ⟨fun w => ⟨(hfinished hfin).1 w, ?_⟩, (hfinished hfin).2⟩⟩
    rw [(hfinished hfin).1 w, received_packets]

/-- Every state of every run is as wanted exactly when at each change of the
speaker the last bit sent is the first of the answer. -/
theorem conversation_carried_iff (c : Conversation) :
    (∀ es, Carried c (run Link.step (begins (spoken c)) es).1) ↔ c.IsChain Turns := by
  simp only [carried_iff_good, good_iff_compatible, compatible_spoken]

/-! ## A transfer -/

/-- Two programs on one wire: a packet goes over when one end sends it and the
other waits for one. Nothing is queued, so the two are never ahead of each other. -/
def exchange {ρ ρ' : Type} : Nat → Program ρ → Program ρ' → List (Side × Packet)
  | 0, _, _ => []
  | n + 1, .out _ p, q => exchange n p q
  | n + 1, .sleep _ p, q => exchange n p q
  | n + 1, p, .out _ q => exchange n p q
  | n + 1, p, .sleep _ q => exchange n p q
  | n + 1, .send m p, .recv _ q => (.a, m) :: exchange n (p true) (q (some m))
  | n + 1, .recv _ p, .send m q => (.b, m) :: exchange n (p (some m)) (q true)
  | _ + 1, _, _ => []

/-- A packet without a body. -/
def Sent.command (machine cmd : UInt8) (hcmd : cmd ∈ Cmd.headerOnly) : Sent := .bare machine cmd 0 0 hcmd

def carryHeader (machine : UInt8) (v : Outgoing) (proto : Nat) : Sent :=
  .carrying machine Cmd.rts (v.header proto) (by decide) (by rw [v.length_header]; split <;> decide)

def carryData (machine : UInt8) (v : Outgoing) : Sent := .carrying machine Cmd.data v.data (by decide) v.data_length

/-- The packets of a `send_var` call that an end with machine id `m'` answers. -/
def transfer (calcMachine m' : UInt8) (v : Outgoing) : Conversation :=
  let m := pcIdFor calcMachine
  [(.a, carryHeader m v (if calcMachine = 0x82 then 82 else 83)), (.b, Sent.command m' Cmd.ack (by decide)),
    (.b, Sent.command m' Cmd.cts (by decide)), (.a, Sent.command m Cmd.ack (by decide)), (.a, carryData m v),
    (.b, Sent.command m' Cmd.ack (by decide))] ++
    if calcMachine ≠ 0x82 then [(.a, Sent.command m Cmd.eot (by decide))] else []

/-- `send_var` and a turn of `listen_loop` say just these packets to each other. -/
theorem exchange_transfer (calcMachine : UInt8) (v : Outgoing) (cfg : Listen) (n : Nat) :
    exchange (n + 9) (sendVarTo calcMachine v) (Program.listenIter cfg) =
      (transfer calcMachine (pcIdFor (pcIdFor calcMachine)) v).map fun x => (x.1, x.2.packet) := by
  rw [sendVarTo_eq, transfer]
  by_cases h : calcMachine = 0x82
  · subst h
    rfl
  · rw [if_neg h, if_pos h]
    simp only [Program.sendRts, Program.sendData, if_pos h]
    rfl

theorem checksum_le (data : Bytes) : checksum data ≤ 255 * data.length := by
  have h : ∀ s, data.foldl (fun s b => (s + b.toNat) &&& 0xFFFF) s ≤ s + 255 * data.length := by
    induction data with
    | nil => exact fun s => Nat.le_refl s
    | cons b data ih =>
      intro s
      rw [List.foldl_cons, List.length_cons]
      have hand : (s + b.toNat) &&& 0xFFFF ≤ s + b.toNat := Nat.and_le_left
      have hb := b.toNat_lt
      have := ih ((s + b.toNat) &&& 0xFFFF)
      omega
  simpa [checksum] using h 0

/-- A variable's header is too short to have a large checksum. -/
theorem lastBit_carryHeader (machine : UInt8) (v : Outgoing) (proto : Nat) : lastBit (carryHeader machine v proto) = false := by
  have hsum := checksum_le (v.header proto)
  have hlen : (v.header proto).length ≤ 13 := by
    rw [v.length_header]
    split <;> decide
  rw [carryHeader, lastBit, decide_eq_false_iff_not]
  omega

/-- The answers of a transfer begin as they must when both ids are even and the
checksum of the data has no highest bit. -/
theorem turns_transfer (calcMachine m' : UInt8) (v : Outgoing) :
    (transfer calcMachine m' v).IsChain Turns ↔
      (pcIdFor calcMachine).toNat % 2 = 0 ∧ m'.toNat % 2 = 0 ∧ checksum v.data < 0x8000 := by
  have hcommand : ∀ m cmd h, lastBit (Sent.command m cmd h) = false := fun _ _ _ => rfl
  have hfirst : ∀ m cmd h, firstBit (Sent.command m cmd h) = decide (m.toNat % 2 = 1) := fun _ _ _ => rfl
  have hdata : ∀ m, lastBit (carryData m v) = decide (0x8000 ≤ checksum v.data) := fun _ => rfl
  unfold transfer
  by_cases h : calcMachine = 0x82
  all_goals
    simp only [h, ne_eq, not_true, not_false_eq_true, if_true, if_false, List.cons_append, List.nil_append,
      List.append_nil, List.isChain_cons_cons, List.isChain_singleton, Turns, lastBit_carryHeader, hcommand, hfirst,
      hdata, reduceCtorEq, false_or, true_or, true_and, and_true, eq_comm (a := false), decide_eq_false_iff_not,
      decide_eq_decide]
  · constructor
    · rintro ⟨h₁, h₂, h₃⟩; omega
    · rintro ⟨h₁, h₂, h₃⟩; omega
  · constructor
    · rintro ⟨h₁, h₂, h₃, h₄⟩; omega
    · rintro ⟨h₁, h₂, h₃⟩; omega

/-- What `send_var` and a turn of `listen_loop` say to each other, and when it
goes over the lines in every order of their steps. -/
theorem transfer_over_lines (calcMachine : UInt8) (v : Outgoing) (cfg : Listen) :
    (∀ n, exchange (n + 9) (sendVarTo calcMachine v) (Program.listenIter cfg) =
      (transfer calcMachine (pcIdFor (pcIdFor calcMachine)) v).map fun x => (x.1, x.2.packet)) ∧
    ∀ m', (∀ es, Carried (transfer calcMachine m' v) (run Link.step (begins (spoken (transfer calcMachine m' v))) es).1) ↔
      (pcIdFor calcMachine).toNat % 2 = 0 ∧ m'.toNat % 2 = 0 ∧ checksum v.data < 0x8000 := by
  refine ⟨exchange_transfer calcMachine v cfg, fun m' => ?_⟩
  simp only [carried_iff_good, good_iff_compatible, compatible_spoken, turns_transfer]

end CalcBridge.Wire
