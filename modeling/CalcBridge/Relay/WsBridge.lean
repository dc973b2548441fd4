import CalcBridge.LinkLib.Bytes
import CalcBridge.LinkLib.Runs
/-!
# The WebSocket front-end (`tools/ws_bridge.py`, `handle`)

Two pumps joined by `asyncio.gather` carry messages between a WebSocket and
the relay. `gather` waits for both, unless one raises. The peers end their
connections at any point, and take bytes or do not.
-/
open LinkLib LinkLib.Runs

namespace CalcBridge.WsBridge

/-- The WebSocket: open, closed by its peer, or closed by the server behind `handle`. -/
inductive Ws where
  | open
  | clean
  | abnormal
  | served
  deriving DecidableEq, Repr

inductive Msg where
  | text
  | binary (data : Bytes)
  deriving DecidableEq, Repr

/-- `_ws_to_tcp`: at `async for`, in `writer.drain()`, or ended. -/
inductive Forward where
  | atLoop
  | draining
  | returned
  | raised
  deriving DecidableEq, Repr

/-- `_tcp_to_ws`: in `_read_frame`, in `ws.send`, or ended. -/
inductive Backward where
  | reading
  | sending (framed : Bytes)
  | returned
  | raised
  deriving DecidableEq, Repr

/-- `handle`: at `gather`, in `writer.wait_closed()`, or ended. -/
inductive Handler where
  | gathering
  | closing
  | finished
  deriving DecidableEq, Repr

/-- Both connections are established. `msgs` and `frames` have come and are not
taken yet. `relayTakes` and `peerTakes` say whether the other side takes what
is written to it. -/
structure Proxy where
  ws : Ws
  msgs : List Msg
  relayEof : Bool
  frames : List Bytes
  relayTakes : Bool
  peerTakes : Bool
  toRelay : Bytes
  toPeer : List Bytes
  writerClosed : Bool
  forward : Forward
  backward : Backward
  handler : Handler
  deriving DecidableEq, Repr

def Proxy.init : Proxy := ⟨.open, [], false, [], true, true, [], [], false, .atLoop, .reading, .gathering⟩

/-- What the peers do, and a step of one of the three tasks. `lost` is whether
a drain finds the relay connection lost, which only an ended one can be. -/
inductive Event where
  | message (m : Msg)
  | wsClose (clean : Bool)
  | frame (framed : Bytes)
  | relayEof
  | relayTakes (b : Bool)
  | peerTakes (b : Bool)
  | forward (lost : Bool)
  | backward
  | handler
  deriving DecidableEq, Repr

/-- An exception out of `ws.send` or `writer.drain`. -/
inductive Exc where
  | sendRefused
  | writeLost
  deriving DecidableEq, Repr

/-- A step of `_ws_to_tcp`. -/
def Proxy.forwardStep (p : Proxy) (lost : Bool) : Proxy × Option Exc :=
  match p.forward with
  | .atLoop =>
    match p.msgs with
    | .text :: ms => ({ p with msgs := ms }, none)
    | .binary data :: ms =>
      ({ p with msgs := ms, toRelay := if p.writerClosed then p.toRelay else p.toRelay ++ data, forward := .draining }, none)
    | [] =>
      match p.ws with
      | .open => (p, none)
      | .abnormal => ({ p with forward := .raised }, none)
      | _ => ({ p with forward := .returned }, none)
  | .draining =>
    if lost ∧ (p.relayEof ∨ p.writerClosed) then ({ p with forward := .raised }, some .writeLost)
    else if p.relayTakes ∨ p.handler = .finished then ({ p with forward := .atLoop }, none)
    else (p, none)
  | _ => (p, none)

/-- A step of `_tcp_to_ws`. The end of the relay's bytes, also inside a frame,
is the IncompleteReadError. -/
def Proxy.backwardStep (p : Proxy) : Proxy × Option Exc :=
  match p.backward with
  | .reading =>
    match p.frames with
    | f :: fs => ({ p with frames := fs, backward := .sending f }, none)
    | [] => if p.relayEof ∨ p.writerClosed then ({ p with backward := .returned }, none) else (p, none)
  | .sending f =>
    if p.ws ≠ .open then ({ p with backward := .raised }, some .sendRefused)
    else if p.peerTakes then ({ p with toPeer := p.toPeer ++ [f], backward := .reading }, none)
    else (p, none)
  | _ => (p, none)

/-- A step of `handle`. When it has finished, the server closes the WebSocket. -/
def Proxy.handlerStep (p : Proxy) : Proxy :=
  match p.handler with
  | .gathering =>
    if p.forward = .raised ∨ p.backward = .raised ∨ (p.forward = .returned ∧ p.backward = .returned) then
      { p with handler := .closing, writerClosed := true }
    else p
  | .closing => if p.relayTakes then { p with handler := .finished, ws := if p.ws = .open then .served else p.ws } else p
  | .finished => p

/-- One event. A peer that has ended its connection does no more on it. -/
def Proxy.step (p : Proxy) (e : Event) : Proxy × Option Exc :=
  match e with
  | .message m => (if p.ws = .open then { p with msgs := p.msgs ++ [m] } else p, none)
  | .wsClose clean => (if p.ws = .open then { p with ws := if clean then .clean else .abnormal } else p, none)
  | .frame f => (if p.relayEof ∨ p.writerClosed then p else { p with frames := p.frames ++ [f] }, none)
  | .relayEof => (if p.writerClosed then p else { p with relayEof := true }, none)
  | .relayTakes b => ({ p with relayTakes := b }, none)
  | .peerTakes b => ({ p with peerTakes := b }, none)
  | .forward lost => p.forwardStep lost
  | .backward => p.backwardStep
  | .handler => (p.handlerStep, none)

/-! ## Endings -/

/-- One of the connections was ended by its peer. -/
def Proxy.Ended (p : Proxy) : Prop := p.ws = .clean ∨ p.ws = .abnormal ∨ p.relayEof

/-- No task can take a step. -/
def Proxy.Quiet (p : Proxy) : Prop :=
  (∀ lost, (p.step (.forward lost)).1 = p) ∧ (p.step .backward).1 = p ∧ (p.step .handler).1 = p

/-- The handler has finished and both connections are closed. -/
def Proxy.Closed (p : Proxy) : Prop := p.handler = .finished ∧ p.writerClosed ∧ p.ws ≠ .open

/-- A relay that takes no bytes holds up a drain or the close of its connection. -/
def Proxy.HeldUp (p : Proxy) : Prop :=
  p.relayTakes = false ∧ p.handler ≠ .finished ∧ (p.forward = .draining ∨ p.handler = .closing)

/-- The WebSocket was closed abnormally, or both peers have ended, or a relay
frame was refused by the closed WebSocket, or a write to the ended relay failed. -/
def Propagates (h : List (Event × Option Exc)) (p : Proxy) : Prop :=
  p.ws = .abnormal ∨ (p.ws = .clean ∧ p.relayEof) ∨ ∃ e ∈ h, e.2 ≠ none

instance (p : Proxy) : Decidable p.Quiet := inferInstanceAs (Decidable (_ ∧ _))
instance (p : Proxy) : Decidable p.Closed := inferInstanceAs (Decidable (_ ∧ _))

/-! ## What one step does -/

/-- How a step of `_ws_to_tcp` moves it, and what is raised. -/
inductive Proxy.ForwardMoves (p : Proxy) : Forward → Option Exc → Prop where
  | stay : ForwardMoves p p.forward none
  | take (h : p.forward = .atLoop) : ForwardMoves p .draining none
  | drained (h : p.forward = .draining) : ForwardMoves p .atLoop none
  | lost (h : p.forward = .draining) : ForwardMoves p .raised (some .writeLost)
  | abnormal (h : p.forward = .atLoop) (hws : p.ws = .abnormal) : ForwardMoves p .raised none
  | closed (h : p.forward = .atLoop) (hws : p.ws = .clean ∨ p.ws = .served) : ForwardMoves p .returned none

theorem forwardStep_cases (p : Proxy) (lost : Bool) :
    ∃ msgs toRelay forward exc, p.forwardStep lost = ({ p with msgs := msgs, toRelay := toRelay, forward := forward }, exc) ∧
      p.ForwardMoves forward exc := by
  unfold Proxy.forwardStep
  split
  · rename_i hloop
    split
    · exact ⟨_, _, _, _, rfl, .stay⟩
    · exact ⟨_, _, _, _, rfl, .take hloop⟩
    · split
      · exact ⟨_, _, _, _, rfl, .stay⟩
      · exact ⟨_, _, _, _, rfl, .abnormal hloop ‹_›⟩
      · refine ⟨_, _, _, _, rfl, .closed hloop ?_⟩
        cases hws : p.ws <;> simp_all
  · rename_i hdrain
    split
    · exact ⟨_, _, _, _, rfl, .lost hdrain⟩
    · split
      · exact ⟨_, _, _, _, rfl, .drained hdrain⟩
      · exact ⟨_, _, _, _, rfl, .stay⟩
  · exact ⟨_, _, _, _, rfl, .stay⟩

/-- How a step of `_tcp_to_ws` moves it, and what is raised. -/
inductive Proxy.BackwardMoves (p : Proxy) : Backward → Option Exc → Prop where
  | stay : BackwardMoves p p.backward none
  | take (f : Bytes) (h : p.backward = .reading) : BackwardMoves p (.sending f) none
  | sent (f : Bytes) (h : p.backward = .sending f) : BackwardMoves p .reading none
  | refused (f : Bytes) (h : p.backward = .sending f) : BackwardMoves p .raised (some .sendRefused)
  | eof (h : p.backward = .reading) (heof : p.relayEof ∨ p.writerClosed) : BackwardMoves p .returned none

theorem backwardStep_cases (p : Proxy) :
    ∃ frames toPeer backward exc,
      p.backwardStep = ({ p with frames := frames, toPeer := toPeer, backward := backward }, exc) ∧
      p.BackwardMoves backward exc := by
  unfold Proxy.backwardStep
  split
  · rename_i hread
    split
    · exact ⟨_, _, _, _, rfl, .take _ hread⟩
    · split
      · exact ⟨_, _, _, _, rfl, .eof hread ‹_›⟩
      · exact ⟨_, _, _, _, rfl, .stay⟩
  · rename_i f hsend
    split
    · exact ⟨_, _, _, _, rfl, .refused f hsend⟩
    · split
      · exact ⟨_, _, _, _, rfl, .sent f hsend⟩
      · exact ⟨_, _, _, _, rfl, .stay⟩
  · exact ⟨_, _, _, _, rfl, .stay⟩

/-! ## What holds in every run -/

/-- How far the handler is follows from how the pumps ended, and that from what
the peers did. `E` says that an exception came out of a send or a drain. -/
structure Proxy.Inv (E : Prop) (p : Proxy) : Prop where
  forwardRaised : p.forward = .raised → p.ws = .abnormal ∨ E
  backwardRaised : p.backward = .raised → E
  raised : E → p.forward = .raised ∨ p.backward = .raised
  forwardReturned : p.handler = .gathering → p.forward = .returned → p.ws = .clean
  backwardReturned : p.handler = .gathering → p.backward = .returned → p.relayEof
  gathering : p.handler = .gathering → p.writerClosed = false ∧ p.ws ≠ .served
  joined : p.handler ≠ .gathering →
    p.writerClosed ∧ (p.forward = .raised ∨ p.backward = .raised ∨ (p.ws = .clean ∧ p.relayEof))
  finished : p.handler = .finished → p.ws ≠ .open

theorem Proxy.Inv.forwardStep {E : Prop} {p : Proxy} (h : p.Inv E) (lost : Bool) :
    (p.forwardStep lost).1.Inv (E ∨ (p.forwardStep lost).2 ≠ none) := by
  obtain ⟨msgs, toRelay, forward, exc, hstep, hmove⟩ := forwardStep_cases p lost
  rw [hstep]
  obtain ⟨hfraised, hbraised, hraised, hfreturned, hbreturned, hgathering, hjoined, hfinished⟩ := h
  cases hmove <;> constructor <;> grind

theorem Proxy.Inv.backwardStep {E : Prop} {p : Proxy} (h : p.Inv E) :
    p.backwardStep.1.Inv (E ∨ p.backwardStep.2 ≠ none) := by
  obtain ⟨frames, toPeer, backward, exc, hstep, hmove⟩ := backwardStep_cases p
  rw [hstep]
  obtain ⟨hfraised, hbraised, hraised, hfreturned, hbreturned, hgathering, hjoined, hfinished⟩ := h
  cases hmove <;> constructor <;> grind

theorem Proxy.Inv.handlerStep {E : Prop} {p : Proxy} (h : p.Inv E) : p.handlerStep.Inv E := by
  have ⟨hfraised, hbraised, hraised, hfreturned, hbreturned, hgathering, hjoined, hfinished⟩ := h
  unfold Proxy.handlerStep
  split
  · split
    · constructor <;> grind
    · exact h
  · split
    · constructor <;> grind
    · exact h
  · exact h

/-- What the peers do moves no task and raises nothing. -/
theorem Proxy.Inv.peer {E : Prop} {p : Proxy} (h : p.Inv E) {ws : Ws} {eof : Bool} {msgs : List Msg} {frames : List Bytes}
    {relayTakes peerTakes : Bool} (hws : ws = p.ws ∨ (p.ws = .open ∧ (ws = .clean ∨ ws = .abnormal)))
    (heof : p.relayEof → eof) :
    Proxy.Inv E { p with
      ws := ws, relayEof := eof, msgs := msgs, frames := frames, relayTakes := relayTakes, peerTakes := peerTakes } := by
  obtain ⟨hfraised, hbraised, hraised, hfreturned, hbreturned, hgathering, hjoined, hfinished⟩ := h
  constructor <;> grind

theorem Proxy.Inv.step {E : Prop} {p : Proxy} (h : p.Inv E) (e : Event) : (p.step e).1.Inv (E ∨ (p.step e).2 ≠ none) := by
  have hpeer : ∀ {q : Proxy}, q.Inv E → q.Inv (E ∨ (none : Option Exc) ≠ none) := fun hq => by simpa using hq
  cases e with
  | message m =>
    apply hpeer
    unfold Proxy.step
    dsimp only
    split
    · exact h.peer (.inl rfl) id
    · exact h
  | wsClose clean =>
    apply hpeer
    unfold Proxy.step
    dsimp only
    split
    · refine h.peer (.inr ⟨‹_›, ?_⟩) id
      cases clean with
      | true => exact .inl rfl
      | false => exact .inr rfl
    · exact h
  | frame f =>
    apply hpeer
    unfold Proxy.step
    dsimp only
    split
    · exact h
    · exact h.peer (.inl rfl) id
  | relayEof =>
    apply hpeer
    unfold Proxy.step
    dsimp only
    split
    · exact h
    · exact h.peer (.inl rfl) fun _ => rfl
  | relayTakes b => exact hpeer (h.peer (.inl rfl) id)
  | peerTakes b => exact hpeer (h.peer (.inl rfl) id)
  | forward lost => exact h.forwardStep lost
  | backward => exact h.backwardStep
  | handler => exact hpeer h.handlerStep

theorem inv_run (es : List Event) :
    (run Proxy.step .init es).1.Inv (∃ e ∈ (run Proxy.step .init es).2, e.2 ≠ none) := by
  refine run_keeps (fun h (p : Proxy) => p.Inv (∃ e ∈ h, e.2 ≠ none)) ?_ ?_ es
  · constructor <;> simp [Proxy.init]
  · intro h p e hp
    have hsnoc : (∃ x ∈ h ++ [(e, (p.step e).2)], x.2 ≠ none) ↔ (∃ x ∈ h, x.2 ≠ none) ∨ (p.step e).2 ≠ none := by
      simp [or_and_right, exists_or]
    rw [hsnoc]
    exact hp.step e

/-! ## Where the tasks come to rest -/

theorem quiet_forward {p : Proxy} (h : ∀ lost, (p.forwardStep lost).1 = p) :
    (p.forward = .atLoop ∧ p.ws = .open) ∨
    (p.forward = .draining ∧ p.relayTakes = false ∧ p.relayEof = false ∧ p.handler ≠ .finished) ∨
    p.forward = .returned ∨ p.forward = .raised := by
  -- A drain may find the connection lost or not: at rest it does neither.
  have hkeep := h false
  have hlost := h true
  unfold Proxy.forwardStep at hkeep hlost
  cases hf : p.forward with
  | atLoop =>
    rw [hf] at hkeep
    refine .inl ⟨rfl, ?_⟩
    dsimp only at hkeep
    split at hkeep
    · rename_i hmsgs
      exact absurd hkeep (ne_of_apply_ne Proxy.msgs (by simp [hmsgs]))
    · exact absurd hkeep (ne_of_apply_ne Proxy.forward (by simp [hf]))
    · split at hkeep
      · assumption
      · exact absurd hkeep (ne_of_apply_ne Proxy.forward (by simp [hf]))
      · exact absurd hkeep (ne_of_apply_ne Proxy.forward (by simp [hf]))
  | draining =>
    rw [hf] at hkeep hlost
    refine .inr (.inl ⟨rfl, ?_⟩)
    dsimp only at hkeep hlost
    rw [if_neg (by simp)] at hkeep
    have htakes : ¬ (p.relayTakes ∨ p.handler = .finished) := by
      intro ht
      rw [if_pos ht] at hkeep
      exact absurd hkeep (ne_of_apply_ne Proxy.forward (by simp [hf]))
    have heof : ¬ (p.relayEof ∨ p.writerClosed) := by
      intro he
      rw [if_pos ⟨rfl, he⟩] at hlost
      exact absurd hlost (ne_of_apply_ne Proxy.forward (by simp [hf]))
    rw [not_or] at htakes heof
    exact ⟨Bool.eq_false_of_not_eq_true htakes.1, Bool.eq_false_of_not_eq_true heof.1, htakes.2⟩
  | returned => exact .inr (.inr (.inl rfl))
  | raised => exact .inr (.inr (.inr rfl))

theorem quiet_backward {p : Proxy} (h : p.backwardStep.1 = p) :
    (p.backward = .reading ∧ p.relayEof = false) ∨ (∃ f, p.backward = .sending f ∧ p.ws = .open) ∨
      p.backward = .returned ∨ p.backward = .raised := by
  unfold Proxy.backwardStep at h
  cases hb : p.backward with
  | reading =>
    rw [hb] at h
    refine .inl ⟨rfl, ?_⟩
    dsimp only at h
    split at h
    · exact absurd h (ne_of_apply_ne Proxy.backward (by simp [hb]))
    · split at h
      · exact absurd h (ne_of_apply_ne Proxy.backward (by simp [hb]))
      · rename_i heof
        exact Bool.eq_false_of_not_eq_true fun he => heof (.inl he)
  | sending f =>
    rw [hb] at h
    refine .inr (.inl ⟨f, rfl, ?_⟩)
    dsimp only at h
    split at h
    · exact absurd h (ne_of_apply_ne Proxy.backward (by simp [hb]))
    · exact not_not.1 ‹_›
  | returned => exact .inr (.inr (.inl rfl))
  | raised => exact .inr (.inr (.inr rfl))

theorem quiet_handler {p : Proxy} (h : p.handlerStep = p) :
    (p.handler = .gathering ∧ p.forward ≠ .raised ∧ p.backward ≠ .raised ∧
        ¬ (p.forward = .returned ∧ p.backward = .returned)) ∨
      (p.handler = .closing ∧ p.relayTakes = false) ∨ p.handler = .finished := by
  unfold Proxy.handlerStep at h
  cases hh : p.handler with
  | gathering =>
    rw [hh] at h
    dsimp only at h
    split at h
    · exact absurd h (ne_of_apply_ne Proxy.handler (by simp [hh]))
    · rename_i hjoin
      simp only [not_or] at hjoin
      exact .inl ⟨rfl, hjoin.1, hjoin.2.1, hjoin.2.2⟩
  | closing =>
    rw [hh] at h
    dsimp only at h
    split at h
    · exact absurd h (ne_of_apply_ne Proxy.handler (by simp [hh]))
    · exact .inr (.inl ⟨rfl, Bool.eq_false_of_not_eq_true ‹_›⟩)
  | finished => exact .inr (.inr rfl)

/-- At rest the handler is still waiting for a pump that no ending reaches, or
for a relay that takes no bytes, or has finished. -/
theorem Proxy.Inv.rest {E : Prop} {p : Proxy} (h : p.Inv E) (hquiet : p.Quiet) :
    p.handler = .finished ∨ p.HeldUp ∨ ¬ (p.ws = .abnormal ∨ (p.ws = .clean ∧ p.relayEof) ∨ E) := by
  obtain ⟨hf, hb, hh⟩ := hquiet
  rcases quiet_handler hh with ⟨hgather, hfr, hbr, hboth⟩ | ⟨hclosing, htakes⟩ | hfin
  · have hE : ¬ E := fun hE => (h.raised hE).elim hfr hbr
    rcases quiet_forward hf with ⟨-, hopen⟩ | ⟨hdrain, htakes, -, hnot⟩ | hret | hraised
    · right
      right
      simp [hopen, hE]
    · exact .inr (.inl ⟨htakes, hnot, .inl hdrain⟩)
    · -- The forward pump has returned, so the WebSocket was closed cleanly.
      have hclean := h.forwardReturned hgather hret
      rcases quiet_backward hb with ⟨-, hopen⟩ | ⟨f, -, hopen⟩ | hbret | hbraised
      · right
        right
        simp [hclean, hopen, hE]
      · rw [hclean] at hopen
        cases hopen
      · exact absurd ⟨hret, hbret⟩ hboth
      · exact absurd hbraised hbr
    · exact absurd hraised hfr
  · exact .inr (.inl ⟨htakes, by rw [hclosing]; nofun, .inr hclosing⟩)
  · exact .inl hfin

/-- In every state of every run where one connection has been ended by its peer
and no task can take a step, the handler has finished and both connections are
closed exactly when the ending propagates and the relay holds nothing up. -/
theorem ending_propagates_iff (es : List Event) :
    let r := run Proxy.step .init es
    r.1.Ended → r.1.Quiet → (r.1.Closed ↔ Propagates r.2 r.1 ∧ ¬ r.1.HeldUp) := by
  intro r _ hquiet
  have hinv : r.1.Inv (∃ e ∈ r.2, e.2 ≠ none) := inv_run es
  constructor
  · rintro ⟨hfin, -, -⟩
    refine ⟨?_, fun hheld => hheld.2.1 hfin⟩
    obtain ⟨-, hf | hb | hboth⟩ := hinv.joined (by rw [hfin]; nofun)
    · exact (hinv.forwardRaised hf).imp_right .inr
    · exact .inr (.inr (hinv.backwardRaised hb))
    · exact .inr (.inl hboth)
  · rintro ⟨hprop, hheld⟩
    rcases hinv.rest hquiet with hfin | h | h
    · exact ⟨hfin, (hinv.joined (by rw [hfin]; nofun)).1, hinv.finished hfin⟩
    · exact absurd h hheld
    · exact absurd hprop h

/-- The browser vanishes, and the close reaches the relay. -/
theorem abnormal_close_propagates :
    let r := run Proxy.step .init [.wsClose false, .forward false, .handler, .handler, .backward]
    r.1.Closed ↔ Propagates r.2 r.1 ∧ ¬ r.1.HeldUp :=
  ending_propagates_iff _ (.inr (.inl rfl)) (by decide)

/-- The browser closes its WebSocket and the relay stays silent. -/
theorem clean_close_not_propagated :
    let p := (run Proxy.step .init [.wsClose true, .forward false]).1
    p.Ended ∧ p.Quiet ∧ p.writerClosed = false ∧ p.handler = .gathering ∧ ¬ p.Closed := by
  refine ⟨.inl rfl, ?_, rfl, rfl, ?_⟩ <;> decide

end CalcBridge.WsBridge
