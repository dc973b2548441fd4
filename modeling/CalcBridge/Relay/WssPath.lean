import CalcBridge.Net.WssFrames
import CalcBridge.Net.WsSend
import CalcBridge.Relay.FramedHandler
import CalcBridge.Relay.WsBridge
/-!
# What the front-end carries (`tools/ws_bridge.py`)

`_ws_to_tcp` and `_tcp_to_ws` run side by side and either may end first. Up to
then nothing is lost, reordered or doubled in either direction, and put between
the client's frames and the relay's loop the front-end cannot be told from a
plain connection.
-/
open LinkLib LinkLib.Source LinkLib.Framing LinkLib.WsFrame LinkLib.Runs CalcBridge.Net

namespace CalcBridge.WsBridge

/-! ## What came in -/

/-- A text message is not forwarded. -/
def Msg.data? : Msg → Option Bytes
  | .text => none
  | .binary data => some data

/-- The binary messages of the browser's side. -/
def upOf (es : List Event) : List Bytes :=
  es.filterMap fun e => match e with
    | .message m => m.data?
    | _ => none

/-- The frames of the relay's side. -/
def downOf (es : List Event) : List Bytes :=
  es.filterMap fun e => match e with
    | .frame f => some f
    | _ => none

/-- What is on its way in `_tcp_to_ws`. -/
def Backward.held : Backward → List Bytes
  | .sending f => [f]
  | _ => []

/-- Where all that came in is: forwarded, waiting, or too late. What the forward
pump took after the writer was closed is gone, and so is the frame that
`ws.send` refused. -/
structure Proxy.Carries (up down : List Bytes) (p : Proxy) : Prop where
  up : ∃ taken late, up = taken ++ p.msgs.filterMap Msg.data? ++ late ∧ p.toRelay <+: taken.flatten ∧
    (p.writerClosed = false → p.toRelay = taken.flatten) ∧ (p.ws = .open → late = [])
  down : ∃ lost late, down = p.toPeer ++ lost ++ p.frames ++ late ∧ (p.backward ≠ .raised → lost = p.backward.held) ∧
    (p.relayEof = false → p.writerClosed = false → late = [])

theorem Proxy.Carries.forwardStep {up down : List Bytes} {p : Proxy} (h : p.Carries up down) (lost : Bool) :
    (p.forwardStep lost).1.Carries up down := by
  obtain ⟨⟨taken, late, hup, hle, heq, hlate⟩, hdown⟩ := h
  unfold Proxy.forwardStep
  split
  · split
    · rename_i ms hms
      exact ⟨⟨taken, late, by rw [hup, hms]; rfl, hle, heq, hlate⟩, hdown⟩
    · rename_i data ms hms
      refine ⟨⟨taken ++ [data], late, by rw [hup, hms]; simp [Msg.data?], ?_, ?_, hlate⟩, hdown⟩
      · rw [List.flatten_append, List.flatten_singleton]
        split
        · exact hle.trans (List.prefix_append _ _)
        · exact ⟨[], by simp [heq (by simpa using ‹¬ p.writerClosed = true›)]⟩
      · intro hopen
        dsimp only at hopen ⊢
        rw [hopen, heq hopen, List.flatten_append, List.flatten_singleton]
        rfl
    · split <;> exact ⟨⟨taken, late, hup, hle, heq, hlate⟩, hdown⟩
  · split
    · exact ⟨⟨taken, late, hup, hle, heq, hlate⟩, hdown⟩
    · split <;> exact ⟨⟨taken, late, hup, hle, heq, hlate⟩, hdown⟩
  · exact ⟨⟨taken, late, hup, hle, heq, hlate⟩, hdown⟩

theorem Proxy.Carries.backwardStep {up down : List Bytes} {p : Proxy} (h : p.Carries up down) :
    p.backwardStep.1.Carries up down := by
  obtain ⟨hup, lost, late, hdown, hheld, hlate⟩ := h
  unfold Proxy.backwardStep
  split
  · rename_i hb
    have hnone : lost = [] := hheld (by rw [hb]; nofun) ▸ by rw [hb]; rfl
    subst hnone
    split
    · rename_i f fs hfs
      exact ⟨hup, [f], late, by rw [hdown, hfs]; simp, fun _ => rfl, hlate⟩
    · split
      · exact ⟨hup, [], late, hdown, fun _ => rfl, hlate⟩
      · exact ⟨hup, [], late, hdown, hheld, hlate⟩
  · rename_i f hb
    have hsome : lost = [f] := hheld (by rw [hb]; nofun) ▸ by rw [hb]; rfl
    subst hsome
    split
    · exact ⟨hup, [f], late, hdown, fun hne => absurd rfl hne, hlate⟩
    · split
      · exact ⟨hup, [], late, by simpa using hdown, fun _ => rfl, hlate⟩
      · exact ⟨hup, [f], late, hdown, hheld, hlate⟩
  · exact ⟨hup, lost, late, hdown, hheld, hlate⟩

theorem Proxy.Carries.handlerStep {up down : List Bytes} {p : Proxy} (h : p.Carries up down) :
    p.handlerStep.Carries up down := by
  obtain ⟨⟨taken, late, hup, hle, heq, hlate⟩, lost, late', hdown, hheld, hlate'⟩ := h
  unfold Proxy.handlerStep
  split
  · split
    · exact ⟨⟨taken, late, hup, hle, nofun, hlate⟩, lost, late', hdown, hheld, fun _ => nofun⟩
    · exact ⟨⟨taken, late, hup, hle, heq, hlate⟩, lost, late', hdown, hheld, hlate'⟩
  · split
    · refine ⟨⟨taken, late, hup, hle, heq, ?_⟩, lost, late', hdown, hheld, hlate'⟩
      intro hopen
      dsimp only at hopen
      split at hopen
      · cases hopen
      · exact absurd hopen ‹_›
    · exact ⟨⟨taken, late, hup, hle, heq, hlate⟩, lost, late', hdown, hheld, hlate'⟩
  · exact ⟨⟨taken, late, hup, hle, heq, hlate⟩, lost, late', hdown, hheld, hlate'⟩

theorem upOf_snoc (es : List Event) (e : Event) : upOf (es ++ [e]) = upOf es ++ upOf [e] := List.filterMap_append

theorem downOf_snoc (es : List Event) (e : Event) : downOf (es ++ [e]) = downOf es ++ downOf [e] := List.filterMap_append

theorem Proxy.Carries.step {es : List Event} {p : Proxy} (h : p.Carries (upOf es) (downOf es)) (e : Event) :
    (p.step e).1.Carries (upOf (es ++ [e])) (downOf (es ++ [e])) := by
  rw [upOf_snoc, downOf_snoc]
  have hquiet {q : Proxy} (hq : q.Carries (upOf es) (downOf es)) (hu : upOf [e] = []) (hd : downOf [e] = []) :
      q.Carries (upOf es ++ upOf [e]) (downOf es ++ downOf [e]) := by
    rwa [hu, hd, List.append_nil, List.append_nil]
  obtain ⟨⟨taken, late, hup, hle, heq, hlate⟩, lost, late', hdown, hheld, hlate'⟩ := h
  cases e with
  | message m =>
    have hone : upOf [.message m] = [m].filterMap Msg.data? := rfl
    rw [show downOf [.message m] = [] from rfl, List.append_nil, hone]
    unfold Proxy.step
    dsimp only
    split
    · rename_i hopen
      obtain rfl := hlate hopen
      exact ⟨⟨taken, [], by rw [hup]; simp, hle, heq, fun _ => rfl⟩, lost, late', hdown, hheld, hlate'⟩
    · rename_i hclosed
      exact ⟨⟨taken, late ++ [m].filterMap Msg.data?, by rw [hup]; simp, hle, heq, fun h => absurd h hclosed⟩,
        lost, late', hdown, hheld, hlate'⟩
  | frame f =>
    rw [show upOf [.frame f] = [] from rfl, List.append_nil, show downOf [.frame f] = [f] from rfl]
    unfold Proxy.step
    dsimp only
    split
    · rename_i hended
      refine ⟨⟨taken, late, hup, hle, heq, hlate⟩, lost, late' ++ [f], by rw [hdown]; simp, hheld, fun h1 h2 => ?_⟩
      rw [h1, h2] at hended
      simp at hended
    · rename_i hopen
      simp only [not_or, Bool.not_eq_true] at hopen
      obtain rfl := hlate' hopen.1 hopen.2
      exact ⟨⟨taken, late, hup, hle, heq, hlate⟩, lost, [], by rw [hdown]; simp, hheld, fun _ _ => rfl⟩
  | wsClose clean =>
    refine hquiet ?_ rfl rfl
    unfold Proxy.step
    dsimp only
    split
    · refine ⟨⟨taken, late, hup, hle, heq, ?_⟩, lost, late', hdown, hheld, hlate'⟩
      intro hopen
      dsimp only at hopen
      split at hopen <;> cases hopen
    · exact ⟨⟨taken, late, hup, hle, heq, hlate⟩, lost, late', hdown, hheld, hlate'⟩
  | relayEof =>
    refine hquiet ?_ rfl rfl
    unfold Proxy.step
    dsimp only
    split
    · exact ⟨⟨taken, late, hup, hle, heq, hlate⟩, lost, late', hdown, hheld, hlate'⟩
    · exact ⟨⟨taken, late, hup, hle, heq, hlate⟩, lost, late', hdown, hheld, nofun⟩
  | relayTakes b | peerTakes b =>
    exact hquiet ⟨⟨taken, late, hup, hle, heq, hlate⟩, lost, late', hdown, hheld, hlate'⟩ rfl rfl
  | forward lost' =>
    exact hquiet (Proxy.Carries.forwardStep ⟨⟨taken, late, hup, hle, heq, hlate⟩, lost, late', hdown, hheld, hlate'⟩ _) rfl rfl
  | backward =>
    exact hquiet (Proxy.Carries.backwardStep ⟨⟨taken, late, hup, hle, heq, hlate⟩, lost, late', hdown, hheld, hlate'⟩) rfl rfl
  | handler =>
    exact hquiet (Proxy.Carries.handlerStep ⟨⟨taken, late, hup, hle, heq, hlate⟩, lost, late', hdown, hheld, hlate'⟩) rfl rfl

theorem carries_run (es : List Event) : (run Proxy.step .init es).1.Carries (upOf es) (downOf es) := by
  have h : (run Proxy.step .init es).1.Carries (upOf ((run Proxy.step .init es).2.map Prod.fst))
      (downOf ((run Proxy.step .init es).2.map Prod.fst)) := by
    refine run_keeps (fun h (p : Proxy) => p.Carries (upOf (h.map Prod.fst)) (downOf (h.map Prod.fst))) ?_ ?_ es
    · exact ⟨⟨[], [], rfl, List.prefix_rfl, fun _ => rfl, fun _ => rfl⟩, [], [], rfl, fun _ => rfl, fun _ _ => rfl⟩
    · intro h p e hp
      rw [List.map_append]
      exact hp.step e
  rwa [run_events] at h

/-! ## While both connections are open -/

/-- Neither peer has ended its connection. -/
def Proxy.Up (p : Proxy) : Prop := p.ws = .open ∧ p.relayEof = false

/-- Then both pumps run and the writer is open. -/
def Proxy.Running (p : Proxy) : Prop :=
  p.Up → p.handler = .gathering ∧ p.writerClosed = false ∧ (p.forward = .atLoop ∨ p.forward = .draining) ∧
    (p.backward = .reading ∨ ∃ f, p.backward = .sending f)

theorem Proxy.Running.step {p : Proxy} (h : p.Running) (e : Event) : (p.step e).1.Running := by
  unfold Proxy.Running Proxy.Up at h ⊢
  cases e with
  | message m | wsClose m | frame m =>
    unfold Proxy.step
    dsimp only
    split <;> grind
  | relayEof =>
    unfold Proxy.step
    dsimp only
    split <;> grind
  | relayTakes b | peerTakes b => exact h
  | forward lost =>
    rw [show p.step (.forward lost) = p.forwardStep lost from rfl]
    unfold Proxy.forwardStep
    split
    · split
      · exact h
      · grind
      · split <;> grind
    · split
      · grind
      · split <;> grind
    · exact h
  | backward =>
    rw [show p.step .backward = p.backwardStep from rfl]
    unfold Proxy.backwardStep
    split
    · split
      · grind
      · split <;> grind
    · split
      · grind
      · split <;> grind
    · exact h
  | handler =>
    rw [show (p.step .handler).1 = p.handlerStep from rfl]
    unfold Proxy.handlerStep
    split
    · split <;> grind
    · split <;> grind
    · exact h

theorem running_run (es : List Event) : (run Proxy.step .init es).1.Running :=
  run_keeps (fun _ (p : Proxy) => p.Running) (fun _ => ⟨rfl, rfl, .inl rfl, .inl rfl⟩) (fun _ _ e hp => hp.step e) es

/-- At rest, with both connections open and both peers taking what comes, nothing waits. -/
theorem quiet_empty {p : Proxy} (hrun : p.Running) (hup : p.Up) (hquiet : p.Quiet) (hr : p.relayTakes) (hp : p.peerTakes) :
    p.msgs = [] ∧ p.backward = .reading ∧ p.frames = [] := by
  obtain ⟨hgather, hwriter, hf, hb⟩ := hrun hup
  obtain ⟨hqf, hqb, -⟩ := hquiet
  have hkeep : (p.forwardStep false).1 = p := hqf false
  have hback : p.backwardStep.1 = p := hqb
  unfold Proxy.forwardStep at hkeep
  unfold Proxy.backwardStep at hback
  refine ⟨?_, ?_⟩
  · rcases hf with hloop | hdrain
    · rw [hloop] at hkeep
      dsimp only at hkeep
      split at hkeep
      · rename_i hmsgs
        exact absurd hkeep (ne_of_apply_ne Proxy.msgs (by simp [hmsgs]))
      · exact absurd hkeep (ne_of_apply_ne Proxy.forward (by simp [hloop]))
      · assumption
    · rw [hdrain] at hkeep
      simp only [Bool.false_eq_true, false_and, if_false, hr, true_or, if_true] at hkeep
      exact absurd hkeep (ne_of_apply_ne Proxy.forward (by simp [hdrain]))
  · rcases hb with hread | ⟨f, hsend⟩
    · rw [hread] at hback
      dsimp only at hback
      refine ⟨hread, ?_⟩
      split at hback
      · exact absurd hback (ne_of_apply_ne Proxy.backward (by simp [hread]))
      · assumption
    · rw [hsend] at hback
      simp only [hup.1, ne_eq, not_true_eq_false, if_false, hp, if_true] at hback
      exact absurd hback (ne_of_apply_ne Proxy.backward (by simp [hsend]))

/-- In every state of every run, what the relay was sent is the front of the
binary messages put together, and what the browser was sent is the front of
the relay's frames. While both connections are open what is missing is only
waiting, and once the tasks come to rest with both peers taking what they are
sent, nothing is missing. -/
theorem carries_in_order (es : List Event) :
    let p := (run Proxy.step .init es).1
    p.toRelay <+: (upOf es).flatten ∧ p.toPeer <+: downOf es ∧
    (p.Up → p.toRelay ++ (p.msgs.filterMap Msg.data?).flatten = (upOf es).flatten ∧
      p.toPeer ++ p.backward.held ++ p.frames = downOf es) ∧
    (p.Up → p.Quiet → p.relayTakes → p.peerTakes → p.toRelay = (upOf es).flatten ∧ p.toPeer = downOf es) := by
  intro p
  obtain ⟨⟨taken, late, hup, hle, heq, hlate⟩, lost, late', hdown, hheld, hlate'⟩ := carries_run es
  have hrunning := running_run es
  have hopen (hu : p.Up) : p.toRelay ++ (p.msgs.filterMap Msg.data?).flatten = (upOf es).flatten ∧
      p.toPeer ++ p.backward.held ++ p.frames = downOf es := by
    obtain ⟨-, hwriter, -, hb⟩ := hrunning hu
    have hnr : p.backward ≠ .raised := by
      rintro h
      rcases hb with h' | ⟨f, h'⟩ <;> rw [h] at h' <;> cases h'
    constructor
    · rw [heq hwriter, hup, hlate hu.1, List.append_nil, List.flatten_append]
    · rw [hdown, hlate' hu.2 hwriter, List.append_nil, hheld hnr]
  refine ⟨?_, ?_, hopen, ?_⟩
  · rw [hup, List.append_assoc, List.flatten_append]
    exact hle.trans (List.prefix_append _ _)
  · rw [hdown, List.append_assoc, List.append_assoc]
    exact List.prefix_append _ _
  · intro hu hquiet hr hp
    obtain ⟨hmsgs, hread, hframes⟩ := quiet_empty hrunning hu hquiet hr hp
    obtain ⟨h1, h2⟩ := hopen hu
    rw [hmsgs] at h1
    rw [hread, hframes] at h2
    exact ⟨by simpa using h1, by simpa [Backward.held] using h2⟩

/-! ## Up: the client's frames reach the relay's loop -/

/-- A stream that ends before its first frame does gives no body. -/
theorem handle_cut {payload : Bytes} (hcap : payload.length ≤ 1 <<< 20) {sock : List (Chunk UInt8)} (h : Ends sock)
    (hu : items sock <+: frame payload) (hlt : (items sock).length < (frame payload).length) :
    (Relay.handle sock).1 = [] := by
  have hfit := lt_of_cap hcap
  by_cases h4 : (items sock).length < 4
  · rcases Relay.readExact_ends 4 h with ⟨bs, sock', -, hsplit, hlen, -⟩ | ⟨-, sock', he⟩
    · rw [hsplit, List.length_append] at h4
      omega
    · rw [Relay.handle]
      split <;> rename_i heq <;> rw [he] at heq
      cases heq
  · obtain ⟨tail, htail⟩ : ∃ tail, items sock = Bytes.toBe 4 payload.length ++ tail := by
      refine List.prefix_of_prefix_length_le (List.prefix_append _ _) hu ?_ |>.imp fun t ht => ht.symm
      rw [Bytes.length_toBe]
      omega
    obtain ⟨sock', he, htail', hends⟩ := Relay.readExact_header h htail
    rcases Relay.readExact_ends payload.length hends with ⟨bs, sock₂, -, hsplit, hlen, -⟩ | ⟨-, sock₂, he'⟩
    · rw [htail, ← htail', hsplit, length_frame] at hlt
      simp only [List.length_append, Bytes.length_toBe] at hlt
      omega
    · rw [Relay.handle]
      split <;> rename_i heq <;> rw [he] at heq
      cases heq
      dsimp only
      rw [Bytes.ofBe_toBe_4 hfit, if_neg (Nat.not_lt.2 hcap)]
      split <;> rename_i heq <;> rw [he'] at heq
      cases heq

/-- Over any front of a stream of frames the loop reads the bodies of the frames that are complete. -/
theorem handle_front {payloads : List Bytes} (hcap : ∀ p ∈ payloads, p.length ≤ 1 <<< 20) {sock : List (Chunk UInt8)}
    (h : Ends sock) (hu : items sock <+: payloads.flatMap frame) : (Relay.handle sock).1 <+: payloads := by
  induction payloads generalizing sock with
  | nil =>
    simp [Relay.handle_closed h (List.prefix_nil.1 hu)]
  | cons p ps ih =>
    rw [List.flatMap_cons] at hu
    by_cases hlt : (items sock).length < (frame p).length
    · rw [handle_cut (hcap p (by simp)) h (List.prefix_of_prefix_length_le hu (List.prefix_append _ _) (Nat.le_of_lt hlt)) hlt]
      exact List.nil_prefix
    · obtain ⟨later, hlater⟩ := List.prefix_of_prefix_length_le (List.prefix_append _ _) hu (Nat.le_of_not_lt hlt)
      obtain ⟨sock', hends, hu', he⟩ := Relay.handle_frame (hcap p (by simp)) h hlater.symm
      rw [he]
      refine List.cons_prefix_cons.2 ⟨rfl, ih (fun q hq => hcap q (by simp [hq])) hends ?_⟩
      rw [hu']
      rw [← hlater] at hu
      exact (List.prefix_append_right_inj _).1 hu

theorem payloads_of_messages {msgs : List Frame} {bodies : List Bytes} (h : List.Forall₂ IsMessage msgs bodies) :
    (msgs.map Frame.payload).flatten = bodies.flatMap frame := by
  induction h with
  | nil => rfl
  | cons hm _ ih => rw [List.map_cons, List.flatten_cons, hm.payload, ih, List.flatMap_cons]

/-- Behind a front-end that has got the first of these messages. -/
theorem relay_reads {msgs : List Frame} {payloads : List Bytes} (hmsgs : List.Forall₂ IsMessage msgs payloads)
    (hcap : ∀ p ∈ payloads, p.length ≤ 1 <<< 20) {es : List Event} (hes : upOf es <+: msgs.map Frame.payload) :
    let p := (run Proxy.step .init es).1
    ∀ sock : List (Chunk UInt8), Ends sock → items sock = p.toRelay →
      (Relay.handle sock).1 <+: payloads ∧
      (upOf es = msgs.map Frame.payload → p.Up → p.Quiet → p.relayTakes → p.peerTakes →
        Relay.handle sock = (payloads, .closed)) := by
  intro p sock hends hsock
  have hframes := payloads_of_messages hmsgs
  obtain ⟨⟨taken, late, hup, hle, heq, hlate⟩, -⟩ := carries_run es
  have htaken : taken.flatten <+: payloads.flatMap frame := by
    obtain ⟨more, hmore⟩ := hes
    rw [← hframes, ← hmore, hup]
    simp only [List.append_assoc, List.flatten_append]
    exact List.prefix_append _ _
  refine ⟨handle_front hcap hends (hsock ▸ hle.trans htaken), ?_⟩
  intro hall hu hquiet hr hp
  have hrunning := running_run es
  obtain ⟨hmsgs, -, -⟩ := quiet_empty hrunning hu hquiet hr hp
  have hrelay : p.toRelay = payloads.flatMap frame := by
    rw [heq (hrunning hu).2.1, ← hframes, ← hall, hup, hlate hu.1, hmsgs]
    simp
  exact Relay.handle_frames hcap (fun s hs hnil => Relay.handle_closed hs hnil) hends
    (by rw [hsock, hrelay, List.append_nil])

/-- Whole upward path: the payloads of any run of `send_framed` calls on an open
client, whose socket takes every write whole, go out as WebSocket messages. In
every state of every run of the front-end that has got the first of them,
whatever the relay's side is cut into, the relay's loop reads the first of the
payloads, each once, in order, and when all messages came, both connections are
open and the tasks are at rest, exactly the payloads. -/
theorem wss_path_up (c : Client) (hopen : c.closed = false) (hw : c.sock.writes = []) (hbuf : c.sendBuf = [])
    (payloads : List Bytes) (hcap : ∀ p ∈ payloads, p.length ≤ 1 <<< 20) :
    ∃ msgs out, (run (sends sendFramed) c payloads).1.sock.written = c.sock.written ++ out ∧ decodeAll out = some msgs ∧
      ∀ es : List Event, upOf es <+: msgs.map Frame.payload →
        let p := (run Proxy.step .init es).1
        ∀ sock : List (Chunk UInt8), Ends sock → items sock = p.toRelay →
          (Relay.handle sock).1 <+: payloads ∧
          (upOf es = msgs.map Frame.payload → p.Up → p.Quiet → p.relayTakes → p.peerTakes →
            Relay.handle sock = (payloads, .closed)) := by
  obtain ⟨-, msgs, hsent⟩ := sendFramed_run hopen hw hbuf payloads fun p hp => lt_of_cap (hcap p hp)
  rw [run_events] at hsent
  exact ⟨msgs, encodeAll msgs, hsent.written, decodeAll_encodeAll msgs, fun es hes => relay_reads hsent.messages hcap hes⟩

/-- Two payloads through a front-end whose relay is slow to take the first. -/
theorem wss_path_up_two : ∃ msgs out,
    (run (sends sendFramed) (Client.init [] [] [] fun _ => ⟨[1, 2, 3, 4], rfl⟩) [[7], [8]]).1.sock.written = out ∧
    decodeAll out = some msgs ∧
    ∀ es : List Event, upOf es <+: msgs.map Frame.payload →
      ∀ sock : List (Chunk UInt8), Ends sock → items sock = (run Proxy.step .init es).1.toRelay →
        (Relay.handle sock).1 <+: [[7], [8]] := by
  obtain ⟨msgs, out, hout, hdec, hall⟩ := wss_path_up (Client.init [] [] [] fun _ => ⟨[1, 2, 3, 4], rfl⟩) rfl rfl rfl
    [[7], [8]] (by decide)
  exact ⟨msgs, out, hout, hdec, fun es hes sock hends hu => (hall es hes sock hends hu).1⟩

/-! ## Down: the relay's frames reach the client's polls -/

/-- The frames `_tcp_to_ws` reads with `_read_frame` until an IncompleteReadError. -/
def tcpFrames (sock : List (Chunk UInt8)) : List Bytes :=
  match _h : Relay.readExact 4 sock with
  | (.ok (some hdr), sock₁) =>
    match _h' : Relay.readExact (Bytes.ofBe hdr) sock₁ with
    | (.ok (some body), sock₂) => (hdr ++ body) :: tcpFrames sock₂
    | _ => []
  | _ => []
  termination_by (items sock).length
  decreasing_by
    obtain ⟨hu, hlen⟩ := Relay.readExact_items _h
    have hu' := (Relay.readExact_items _h').1
    rw [hu, hu']
    simp only [List.length_append]
    omega

theorem tcpFrames_nil {sock : List (Chunk UInt8)} (h : Ends sock) (hu : items sock = []) : tcpFrames sock = [] := by
  rcases Relay.readExact_ends 4 h with ⟨bs, sock', -, hsplit, hlen, -⟩ | ⟨-, sock', he⟩
  · rw [hu, List.nil_eq, List.append_eq_nil_iff] at hsplit
    rw [hsplit.1] at hlen
    cases hlen
  · rw [tcpFrames]
    split
    · rename_i heq
      rw [he] at heq
      cases heq
    · rfl

/-- The frames of a stream of frames are read one for one. -/
theorem tcpFrames_frames {payloads : List Bytes} (hfit : ∀ p ∈ payloads, Fits p) {sock : List (Chunk UInt8)}
    (h : Ends sock) (hu : items sock = payloads.flatMap frame) : tcpFrames sock = payloads.map frame := by
  induction payloads generalizing sock with
  | nil => exact tcpFrames_nil h hu
  | cons p ps ih =>
    rw [List.flatMap_cons, frame, List.append_assoc] at hu
    obtain ⟨sock₁, he, hu₁, hends⟩ := Relay.readExact_header h hu
    rcases Relay.readExact_ends p.length hends with ⟨bs, sock₂, he', hsplit, hlen, hends'⟩ | ⟨hlt, -⟩
    · rw [hu₁] at hsplit
      obtain ⟨rfl, hrest⟩ := List.append_inj hsplit hlen.symm
      rw [tcpFrames]
      split
      · rename_i heq
        rw [he] at heq
        cases heq
        rw [Bytes.ofBe_toBe_4 (hfit p (by simp))]
        split
        · rename_i heq'
          rw [he'] at heq'
          cases heq'
          rw [ih (fun q hq => hfit q (by simp [hq])) hends' hrest.symm]
          rfl
        · rename_i hne
          exact absurd he' (hne _ _)
      · rename_i hne
        exact absurd he (hne _ _)
    · rw [hu₁, List.length_append] at hlt
      omega

/-- The payloads that a front-end which has read the first of the relay's frames has sent on. -/
theorem sent_front {payloads : List Bytes} (hcap : ∀ p ∈ payloads, p.length ≤ 1 <<< 20) {tcp : List (Chunk UInt8)}
    (htcp : Ends tcp) (hitems : items tcp = payloads.flatMap framedBytes) {es : List Event} (hes : downOf es <+: tcpFrames tcp) :
    let p := (run Proxy.step .init es).1
    ∃ sent, sent <+: payloads ∧ p.toPeer = sent.map framedBytes ∧
      (downOf es = tcpFrames tcp → p.Up → p.Quiet → p.relayTakes → p.peerTakes → sent = payloads) := by
  intro p
  have hfit : ∀ q ∈ payloads, Fits q := fun q hq => lt_of_cap (hcap q hq)
  rw [Relay.framedBytes_all hcap] at hitems
  rw [tcpFrames_frames hfit htcp hitems] at hes ⊢
  obtain ⟨-, lost, late, hdown, hheld, hlate⟩ := carries_run es
  have hpeer : p.toPeer <+: payloads.map frame := by
    refine List.IsPrefix.trans ?_ hes
    rw [hdown, List.append_assoc, List.append_assoc]
    exact List.prefix_append _ _
  have htake := List.prefix_iff_eq_take.1 hpeer
  rw [← List.map_take] at htake
  set sent := payloads.take p.toPeer.length with hsent
  have hframed : sent.map framedBytes = sent.map frame :=
    List.map_congr_left fun q hq => framedBytes_eq (hfit q (List.mem_of_mem_take hq))
  refine ⟨sent, List.take_prefix _ _, by rw [hframed, ← htake], ?_⟩
  intro hall hu hquiet hr hp
  have hrunning := running_run es
  obtain ⟨-, hread, hframes⟩ := quiet_empty hrunning hu hquiet hr hp
  have hlost := hheld (by rw [hread]; nofun)
  rw [hlate hu.2 (hrunning hu).2.1, hframes, hlost, hread, hall] at hdown
  have hlen := congrArg List.length hdown
  rw [hsent]
  refine List.take_of_length_le (Nat.le_of_eq ?_)
  simpa [Backward.held] using hlen

/-- The client's polls, however the server cuts what was sent into messages and reads. -/
theorem polls_front {sent : List Bytes} (hcap : ∀ p ∈ sent, p.length ≤ 1 <<< 20) {frames : List Frame}
    {reads : List (Chunk UInt8)} (masks : Nat → Mask) (hstream : ServerStream frames)
    (hdata : dataAll frames = (sent.map framedBytes).flatten) (hopen : Source.Open softErrnos reads)
    (hbytes : items reads = encodeAll frames) (k : Nat) :
    let h := (polls wsRecv (.init (Client.init [] reads [] masks)) k).2
    payloadsOf h <+: sent ∧ RaisedAtEnd sent h ∧ (stalls reads + sent.length ≤ k → payloadsOf h = sent) := by
  have hframed : sent.map framedBytes = sent.map frame :=
    List.map_congr_left fun q hq => framedBytes_eq (lt_of_cap (hcap q hq))
  rw [hframed] at hdata
  have hahead : wsAhead frames masks (Client.init [] reads [] masks) (sent.flatMap frame) (stalls reads) :=
    ⟨[], frames, [], init_synced hopen hbytes masks, by rw [hdata]; rfl, .inl (Nat.le_refl _)⟩
  obtain ⟨hinit, hraise, -, hall⟩ := polls_ok (wsRecv_serves hstream masks) hcap k (.init hahead)
  exact ⟨hinit, hraise, hall⟩

/-- Whole downward path: the relay's frames, cut anywhere on their way to the
front-end. In every state of every run of the front-end that has read the first
of them, and however the server then cuts what was sent into messages and reads,
with pings between and misses anywhere, the client's polls return the first of
the relay's payloads, each once, in order, and have returned all of those sent
once there was a poll for each and for each miss. With both connections open
and the tasks at rest all payloads were sent. -/
theorem wss_path_down (payloads : List Bytes) (hcap : ∀ p ∈ payloads, p.length ≤ 1 <<< 20) {tcp : List (Chunk UInt8)}
    (htcp : Ends tcp) (hitems : items tcp = payloads.flatMap framedBytes) {es : List Event}
    (hes : downOf es <+: tcpFrames tcp) :
    let p := (run Proxy.step .init es).1
    ∃ sent, sent <+: payloads ∧ p.toPeer = sent.map framedBytes ∧
      (downOf es = tcpFrames tcp → p.Up → p.Quiet → p.relayTakes → p.peerTakes → sent = payloads) ∧
      ∀ (frames : List Frame) (reads : List (Chunk UInt8)) (masks : Nat → Mask), ServerStream frames →
        dataAll frames = p.toPeer.flatten → Source.Open softErrnos reads → items reads = encodeAll frames →
        ∀ k, let h := (polls wsRecv (.init (Client.init [] reads [] masks)) k).2
          payloadsOf h <+: sent ∧ RaisedAtEnd sent h ∧ (stalls reads + sent.length ≤ k → payloadsOf h = sent) := by
  intro p
  obtain ⟨sent, hfront, hpeer, hall⟩ := sent_front hcap htcp hitems hes
  refine ⟨sent, hfront, hpeer, hall, fun frames reads masks hstream hdata hopen hbytes k => ?_⟩
  refine polls_front (fun q hq => hcap q (hfront.subset hq)) masks hstream ?_ hopen hbytes k
  rw [hdata]
  exact congrArg List.flatten hpeer

/-- One relay frame, forwarded, in one message with a ping in front. -/
theorem wss_path_down_one :
    let es : List Event := [.frame [0, 0, 0, 1, 7], .backward, .backward]
    payloadsOf (polls wsRecv (.init (Client.init [] [.data [0x89, 0x00, 0x82], .none, .data [0x05, 0, 0, 0, 1, 7]] []
      fun _ => ⟨[1, 2, 3, 4], rfl⟩)) 2).2 = [[7]] ∧ (run Proxy.step .init es).1.toPeer = [framedBytes [7]] := by
  intro es
  let tcp : List (Chunk UInt8) := [.data [0, 0], .data [0, 1, 7], .data []]
  have hframes : tcpFrames tcp = [[7]].map frame :=
    tcpFrames_frames (show ∀ p ∈ [([7] : Bytes)], p.length < 2 ^ 32 by decide) trivial (by decide)
  have hdown : downOf es = tcpFrames tcp := by
    rw [hframes]
    decide
  obtain ⟨sent, -, hpeer, hall, hpolls⟩ := wss_path_down [[7]] (by decide) (show Ends tcp from trivial) (by decide)
    ⟨[], (List.append_nil _).trans hdown⟩
  obtain rfl := hall hdown ⟨rfl, rfl⟩ (by decide) rfl rfl
  have h := hpolls [⟨0x89, none, .short, [], by decide⟩, ⟨0x82, none, .short, [0, 0, 0, 1, 7], by decide⟩]
    [.data [0x89, 0x00, 0x82], .none, .data [0x05, 0, 0, 0, 1, 7]] (fun _ => ⟨[1, 2, 3, 4], rfl⟩) ⟨by decide, by decide⟩
    (by decide) (by simp [Source.Open]) (by decide) 2
  exact ⟨h.2.2 (by decide), hpeer⟩

end CalcBridge.WsBridge
