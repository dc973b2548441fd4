import CalcBridge.Transfer
/-!
# Listening on a script of bytes

`listen_loop` over the packets `recv_packet` reads from a script. A variable
that `on_var` is called with is the body of an acknowledged DATA packet, and
nothing on the way looks at that packet's checksum.
-/
open LinkLib

namespace CalcBridge.Transfer

/-- The wire: what it brings, how sends will end (a list that has run out
succeeds), and what was sent with the result. -/
structure Wire where
  rx : Rx
  sends : List Bool
  sent : List (Packet × Bool)
  deriving DecidableEq, Repr

def Wire.send (p : Packet) (w : Wire) : Bool × Wire :=
  let ok := w.sends.headD true
  (ok, { w with sends := w.sends.tail, sent := w.sent ++ [(p, ok)] })

def Wire.recv (timeoutMs : Nat) (w : Wire) : Option Packet × Wire :=
  let r := Rx.recvPacket timeoutMs w.rx
  (r.1, { w with rx := r.2 })

def wireLink : Link Wire := ⟨Wire.recv, Wire.send⟩

/-- The wires on which `listen_loop` begins its turns, for at most `fuel` of
them. Behind a silence there is another turn only when there is no timeout. -/
def turnsTaken (cfg : Listen) : Nat → Wire → List Wire
  | 0, _ => []
  | fuel + 1, w =>
    let r := listenIter wireLink cfg w
    w :: if r.1 = .silence ∧ cfg.timeoutMs ≠ 0 then [] else turnsTaken cfg fuel r.2

/-- What `on_var` is called with in a turn, if it is. -/
def Heard.called : Heard → Option Variable
  | .call v => some v
  | _ => none

theorem Heard.called_eq_some {h : Heard} {v : Variable} : h.called = some v ↔ h = .call v := by
  cases h <;> simp [Heard.called]

/-- The calls of `on_var`, each with the wire on which its turn began. -/
def callsMade (cfg : Listen) (fuel : Nat) (w : Wire) : List (Wire × Variable) :=
  (turnsTaken cfg fuel w).filterMap fun w' => (listenIter wireLink cfg w').1.called.map (w', ·)

theorem mem_callsMade {cfg : Listen} {fuel : Nat} {w : Wire} {c : Wire × Variable} :
    c ∈ callsMade cfg fuel w ↔ c.1 ∈ turnsTaken cfg fuel w ∧ (listenIter wireLink cfg c.1).1 = .call c.2 := by
  simp only [callsMade, List.mem_filterMap, Option.map_eq_some_iff, Heard.called_eq_some]
  constructor
  · rintro ⟨w', hmem, v, hcall, rfl⟩
    exact ⟨hmem, hcall⟩
  · rintro ⟨hmem, hcall⟩
    exact ⟨c.1, hmem, c.2, hcall, rfl⟩

/-- They are what `listen_loop` calls `on_var` with before it returns. -/
theorem callsMade_eq (cfg : Listen) (fuel : Nat) (w : Wire) :
    (callsMade cfg fuel w).map Prod.snd = (listenLoop wireLink cfg fuel w).1 := by
  induction fuel generalizing w with
  | zero => rfl
  | succ fuel ih =>
    unfold callsMade at ih ⊢
    rw [turnsTaken, listenLoop, List.filterMap_cons]
    cases hiter : listenIter wireLink cfg w with
    | mk h w' =>
      cases h with
      | silence =>
        by_cases ht : cfg.timeoutMs = 0
        · simpa [Heard.called, ht] using ih w'
        · simp [Heard.called, ht]
      | handled => simpa [Heard.called] using ih w'
      | call v => simpa [Heard.called] using ih w'

/-! ## Where a variable comes from -/

/-- The variable of a transfer with opener `o` and DATA packet `d`. -/
def handed (o d : Raw) : Variable := variableOf o.body d.body

/-- An opener, an ACK and a DATA packet are next on the wire, the three sends
of the handshake will succeed, and the variable passes the filters. -/
structure Completes (cfg : Listen) (w : Wire) (o a d : Raw) : Prop where
  next : ∃ rest, w.rx = onWire (o.bytes ++ (a.bytes ++ d.bytes)) rest
  opener : o.cmd = Cmd.rts ∨ o.cmd = Cmd.var
  ack : a.cmd = Cmd.ack
  data : d.cmd = Cmd.data
  sends : ∀ ok ∈ w.sends.take 3, ok = true
  header : 11 ≤ o.body.length
  accepts : cfg.accepts (handed o d).typeId (handed o d).name8

theorem wire_recv_eq_some {t : Nat} {w w' : Wire} {p : Packet} :
    Wire.recv t w = (some p, w') ↔ ∃ r : Raw, p = r.packet ∧ w.rx = onWire r.bytes w'.rx ∧ w' = { w with rx := w'.rx } := by
  have hpair := @recvPacket_eq_some t w.rx w'.rx p
  constructor
  · intro h
    obtain ⟨hp, hw⟩ := Prod.mk.inj h
    obtain ⟨r, hrx, hr⟩ := hpair.1 (Prod.ext hp (congrArg Wire.rx hw))
    exact ⟨r, hr, hrx, by rw [← hw]⟩
  · rintro ⟨r, hr, hrx, hw⟩
    have h := hpair.2 ⟨r, hrx, hr⟩
    rw [hw, Wire.recv, h]

/-- Three sends in a row, with only receiving between them. -/
theorem sends_iff {sends : List Bool} :
    (∀ ok ∈ sends.take 3, ok = true) ↔
      sends.headD true = true ∧ sends.tail.headD true = true ∧ sends.tail.tail.headD true = true := by
  rcases sends with _ | ⟨x, _ | ⟨y, _ | ⟨z, sends⟩⟩⟩ <;> simp

/-- A turn calls `on_var` exactly when a transfer is completed, with its variable. -/
theorem listenIter_call_iff {cfg : Listen} {w : Wire} {v : Variable} :
    (listenIter wireLink cfg w).1 = .call v ↔ ∃ o a d, Completes cfg w o a d ∧ v = handed o d := by
  constructor
  · intro h
    obtain ⟨o, w₀, hrecv, hopener, hlen, hv, haccepts, w₁, w₂, w₃, w₄, w₅, a, d, h₁, h₂, h₃, ha, h₄, hd, hdata, h₅, -⟩ :=
      listenIter_eq_call.1 (Prod.ext h rfl : listenIter wireLink cfg w = (.call v, (listenIter wireLink cfg w).2))
    -- Each receive reads one raw packet, and each send takes one result.
    obtain ⟨ro, rfl, hrxo, hw₀⟩ := wire_recv_eq_some.1 hrecv
    obtain ⟨hok₁, hw₁⟩ := Prod.mk.inj h₁
    obtain ⟨hok₂, hw₂⟩ := Prod.mk.inj h₂
    obtain ⟨ra, rfl, hrxa, hw₃⟩ := wire_recv_eq_some.1 h₃
    obtain ⟨rd, rfl, hrxd, hw₄⟩ := wire_recv_eq_some.1 h₄
    obtain ⟨hok₃, -⟩ := Prod.mk.inj h₅
    have hhanded : v = handed ro rd := by rw [hv, ← hdata]; rfl
    have hrx₂ : w₂.rx = w₀.rx := by rw [← hw₂, ← hw₁]
    have hs₀ : w₀.sends = w.sends := by rw [hw₀]
    have hs₁ : w₁.sends = w.sends.tail := by rw [← hw₁, hs₀]
    have hs₄ : w₄.sends = w.sends.tail.tail := by rw [hw₄, hw₃, ← hw₂, hs₁]
    refine ⟨ro, ra, rd, ⟨⟨w₄.rx, ?_⟩, hopener, ha, hd, sends_iff.2 ⟨?_, ?_, ?_⟩, hlen, hhanded ▸ haccepts⟩, hhanded⟩
    · rw [hrxo, ← hrx₂, hrxa, hrxd, onWire_append, onWire_append]
    · rwa [hs₀] at hok₁
    · rwa [hs₁] at hok₂
    · rwa [hs₄] at hok₃
  · rintro ⟨o, a, d, ⟨⟨rest, hrx⟩, hopener, ha, hd, hsends, hlen, haccepts⟩, rfl⟩
    obtain ⟨hok₁, hok₂, hok₃⟩ := sends_iff.1 hsends
    rw [onWire_append, onWire_append] at hrx
    let w₀ : Wire := { w with rx := onWire a.bytes (onWire d.bytes rest) }
    let w₂ : Wire := (Wire.send ⟨pcIdFor o.machine, Cmd.cts, []⟩ (Wire.send ⟨pcIdFor o.machine, Cmd.ack, []⟩ w₀).2).2
    let w₃ : Wire := { w₂ with rx := onWire d.bytes rest }
    let w₄ : Wire := { w₂ with rx := rest }
    have hrecvo : Wire.recv (if cfg.timeoutMs ≠ 0 then cfg.timeoutMs else 60000) w = (some o.packet, w₀) :=
      wire_recv_eq_some.2 ⟨o, rfl, hrx, rfl⟩
    have hrecva : Wire.recv 10000 w₂ = (some a.packet, w₃) := wire_recv_eq_some.2 ⟨a, rfl, rfl, rfl⟩
    have hrecvd : Wire.recv 10000 w₃ = (some d.packet, w₄) := wire_recv_eq_some.2 ⟨d, rfl, rfl, rfl⟩
    have hsend : Wire.send ⟨pcIdFor o.machine, Cmd.ack, []⟩ w₄ = (true, _) := Prod.ext hok₃ rfl
    exact congrArg Prod.fst (listenIter_eq_call.2 ⟨o.packet, w₀, hrecvo, hopener, hlen, rfl, haccepts, _, w₂, w₃, w₄, _,
      a.packet, d.packet, Prod.ext hok₁ rfl, Prod.ext hok₂ rfl, hrecva, ha, hrecvd, hd, rfl, hsend, rfl⟩)

/-- The transfer that completes is determined by the wire. -/
theorem Completes.unique {cfg : Listen} {w : Wire} {o a d o' a' d' : Raw} (h : Completes cfg w o a d)
    (h' : Completes cfg w o' a' d') : o = o' ∧ a = a' ∧ d = d' := by
  obtain ⟨rest, hrx⟩ := h.next
  obtain ⟨rest', hrx'⟩ := h'.next
  rw [hrx, onWire_append, onWire_append, onWire_append, onWire_append] at hrx'
  obtain ⟨ho, hrx'⟩ := Raw.onWire_inj hrx'
  obtain ⟨ha, hrx'⟩ := Raw.onWire_inj hrx'
  exact ⟨ho, ha, (Raw.onWire_inj hrx').1⟩

/-! ## What checksums have to do with it -/

/-- `recv_packet` refuses a packet whose checksum is wrong only where it is
right, and every variable `listen_loop` hands on passed its checksum exactly
when every transfer that completes in a turn it takes is intact. -/
theorem corrupt_data_refused_iff (t : Nat) (r : Raw) (rest : Rx) (cfg : Listen) (w : Wire) (fuel : Nat) :
    ((¬ r.Passes → (Rx.recvPacket t (onWire r.bytes rest)).1 = none) ↔ r.Passes) ∧
    (callsMade cfg fuel w).map Prod.snd = (listenLoop wireLink cfg fuel w).1 ∧
    ((∀ c ∈ callsMade cfg fuel w, ∃ o a d, Completes cfg c.1 o a d ∧ c.2 = handed o d ∧ d.Passes) ↔
      ∀ w' ∈ turnsTaken cfg fuel w, ∀ o a d, Completes cfg w' o a d → d.Passes) := by
  have hrecv : Rx.recvPacket t (onWire r.bytes rest) = (some r.packet, rest) := recvPacket_eq_some.2 ⟨r, rfl, rfl⟩
  refine ⟨⟨?_, fun hpasses h => absurd hpasses h⟩, callsMade_eq cfg fuel w, ?_, ?_⟩
  · intro h
    by_contra hpasses
    have hnone := h hpasses
    rw [hrecv] at hnone
    cases hnone
  · intro h w' hw' o a d hcomp
    have hcall : (w', handed o d) ∈ callsMade cfg fuel w :=
      mem_callsMade.2 ⟨hw', listenIter_call_iff.2 ⟨o, a, d, hcomp, rfl⟩⟩
    obtain ⟨o', a', d', hcomp', -, hpasses⟩ := h _ hcall
    rwa [(hcomp.unique hcomp').2.2]
  · intro h c hc
    obtain ⟨hturn, hcall⟩ := mem_callsMade.1 hc
    obtain ⟨o, a, d, hcomp, hv⟩ := listenIter_call_iff.1 hcall
    exact ⟨o, a, d, hcomp, hv, h c.1 hturn o a d hcomp⟩

/-- Str1 with the wrong checksum, sent by an 84+: the packet is returned, the
DATA acknowledged, and `on_var` called with it. -/
theorem corrupt_data_handed_on :
    let cfg : Listen := ⟨none, none, none, 500⟩
    let o : Raw := ⟨0x73, Cmd.var, 11, 0, [4, 0, 0x04, 0xAA, 0, 0, 0, 0, 0, 0, 0], [0xB2, 0], by decide⟩
    let a : Raw := ⟨0x73, Cmd.ack, 0, 0, [], [], by decide⟩
    let d : Raw := ⟨0x73, Cmd.data, 4, 0, [2, 0, 0x48, 0x49], [0x94, 0], by decide⟩
    let r := listenLoop wireLink cfg 1 ⟨onWire (o.bytes ++ (a.bytes ++ d.bytes)) [], [], []⟩
    ¬ d.Passes ∧ (Rx.recvPacket 10000 (onWire d.bytes [])).1 = some d.packet ∧
      r.1 = [⟨0x04, [0xAA, 0, 0, 0, 0, 0, 0, 0], o.body, [2, 0, 0x48, 0x49]⟩] ∧
      r.2.sent.map (fun x => (x.1.cmd, x.2)) = [(Cmd.ack, true), (Cmd.cts, true), (Cmd.ack, true)] := by
  decide

end CalcBridge.Transfer
