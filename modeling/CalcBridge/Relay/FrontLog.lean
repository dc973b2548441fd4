import CalcBridge.LinkLib.Text
import CalcBridge.Relay.WsBridge
import Mathlib.Data.List.Forall2
/-!
# What the front-end logs (`tools/ws_bridge.py`, `Ingest.emit`)

`handle` emits an event when it starts, when it cannot dial the relay, behind
every message that a pump has passed on, and when it ends behind the pumps. The
events of a connection tell its traffic.
-/
open LinkLib LinkLib.Text LinkLib.Runs

namespace CalcBridge.WsBridge

/-! ## Events -/

def previewBytes : Nat := 64

def hexDigit (n : Nat) : Nat := if n < 10 then 0x30 + n else 0x61 + (n - 10)

/-- `binascii.hexlify(bs).decode("ascii")`. -/
def hexlify (bs : Bytes) : Str := bs.flatMap fun b => [hexDigit (b.toNat / 16), hexDigit (b.toNat % 16)]

/-- `_preview`. -/
def preview (data : Bytes) : Str × Str :=
  let snippet := data.take previewBytes
  let hexStr := hexlify snippet
  let asciiStr := snippet.map fun b => if 0x20 ≤ b ∧ b < 0x7F then b.toNat else 0x2E
  if previewBytes < data.length then (hexStr ++ str "...", asciiStr ++ str "...") else (hexStr, asciiStr)

inductive Direction where
  | open
  | c2s
  | s2c
  | info
  | close
  deriving DecidableEq, Repr

/-- The JSON that is posted. -/
structure Payload where
  tsMs : Nat
  direction : Direction
  length : Nat
  previewHex : Str
  previewAscii : Str
  connId : Str
  note : Option Str
  deriving DecidableEq, Repr

/-- `Ingest.emit`, up to the thread pool. -/
def emit (tsMs : Nat) (connId : Str) (direction : Direction) (length : Nat) (data : Option Bytes) (note : Option Str) :
    Payload :=
  let texts := match data with
    | some data => preview data
    | none => ([], note.getD [])
  ⟨tsMs, direction, length, texts.1, texts.2, connId, note⟩

example : emit 0 [] .c2s 3 (some [0x48, 0x69, 0x0A]) none = ⟨0, .c2s, 3, str "48690a", str "Hi.", [], none⟩ := by decide

/-! ## A connection and its events -/

/-- `handle` in front of the pumps: in `open_connection`, in the `ws.close` of a
relay that could not be dialled, ended behind it, or through. -/
inductive Dial where
  | dialling
  | refusing
  | refused
  | dialled
  deriving DecidableEq, Repr

/-- `held` is the message in `writer.drain()`, `log` what `emit` was called with. -/
structure Watched where
  connId : Str
  dial : Dial
  proxy : Proxy
  held : Bytes
  log : List Payload

/-- The start of `handle`. -/
def Watched.start (now : Nat) (connId host : Str) (port : Nat) (path : Str) : Watched where
  connId := connId
  dial := .dialling
  proxy := .init
  held := []
  log := [emit now connId .open 0 none (some (str "ws open from " ++ host ++ str ":" ++ decimal port ++ str " path=" ++ path))]

/-- What moves a connection: the end of `open_connection`, with the OSError if it
is one; the end of `ws.close` behind that; or an event of the WebSocket, the
relay and the pumps. -/
inductive Move where
  | dialEnds (err : Option Str)
  | closeEnds
  | event (e : Event)

/-- `msg[4:] if len(msg) >= 4 else msg`. -/
def bodyOf (msg : Bytes) : Bytes := if 4 ≤ msg.length then msg.drop 4 else msg

/-- The message that `_ws_to_tcp` takes in this step. -/
def Proxy.takes (p : Proxy) (e : Event) : Option Bytes :=
  match e, p.forward, p.msgs with
  | .forward _, .atLoop, .binary data :: _ => some data
  | _, _, _ => none

/-- What is emitted behind `gather`: when a drain or a send is over, and at the end of `handle`. -/
def Watched.tells (w : Watched) (e : Event) (now : Nat) : List Payload :=
  let p := (w.proxy.step e).1
  match e with
  | .forward _ =>
    if w.proxy.forward = .draining ∧ p.forward = .atLoop then
      [emit now w.connId .c2s (bodyOf w.held).length (some (bodyOf w.held)) none]
    else []
  | .backward =>
    match w.proxy.backward with
    | .sending framed =>
      if p.backward = .reading then [emit now w.connId .s2c (framed.drop 4).length (some (framed.drop 4)) none] else []
    | _ => []
  | .handler =>
    if w.proxy.handler = .closing ∧ p.handler = .finished then [emit now w.connId .close 0 none (some (str "ws closed"))]
    else []
  | _ => []

/-- What is emitted in a move. -/
def Watched.emits (w : Watched) (m : Move) (now : Nat) : List Payload :=
  match w.dial, m with
  | .dialling, .dialEnds (some err) => [emit now w.connId .info 0 none (some (str "relay dial failed: " ++ err))]
  | .dialled, .event e => w.tells e now
  | _, _ => []

/-- What the other end of the WebSocket does. -/
def Event.ofPeer : Event → Bool
  | .message _ | .wsClose _ | .peerTakes _ => true
  | _ => false

/-- One move of the connection. Without a relay only the WebSocket has a peer. -/
def Watched.next (w : Watched) (m : Move) (now : Nat) : Watched :=
  let log := w.log ++ w.emits m now
  match w.dial, m with
  | .dialling, .dialEnds err => { w with log, dial := if err = none then .dialled else .refusing }
  | .refusing, .closeEnds =>
    { w with
      log, dial := .refused
      proxy := { w.proxy with handler := .finished, ws := if w.proxy.ws = .open then .served else w.proxy.ws } }
  | .dialled, .event e => { w with log, proxy := (w.proxy.step e).1, held := (w.proxy.takes e).getD w.held }
  | _, .event e => if e.ofPeer then { w with log, proxy := (w.proxy.step e).1 } else { w with log }
  | _, _ => { w with log }

/-! ## What a row tells -/

/-- The event of a message with this body. -/
def Payload.Tells (d : Direction) (connId : Str) (body : Bytes) (p : Payload) : Prop :=
  p.direction = d ∧ p.connId = connId ∧ p.length = body.length ∧ (p.previewHex, p.previewAscii) = preview body

theorem emit_tells (now : Nat) (connId : Str) (d : Direction) (body : Bytes) :
    (emit now connId d body.length (some body) none).Tells d connId body := ⟨rfl, rfl, rfl, rfl⟩

theorem hexDigit_inj {m n : Nat} (hm : m < 16) (hn : n < 16) (h : hexDigit m = hexDigit n) : m = n := by
  unfold hexDigit at h
  split at h <;> split at h <;> omega

theorem hexlify_cons (b : UInt8) (bs : Bytes) :
    hexlify (b :: bs) = hexDigit (b.toNat / 16) :: hexDigit (b.toNat % 16) :: hexlify bs := rfl

theorem hexlify_inj {a b : Bytes} (h : hexlify a = hexlify b) : a = b := by
  induction a generalizing b with
  | nil =>
    cases b with
    | nil => rfl
    | cons y b => cases h
  | cons x a ih =>
    cases b with
    | nil => cases h
    | cons y b =>
      rw [hexlify_cons, hexlify_cons, List.cons.injEq, List.cons.injEq] at h
      obtain ⟨hhi, hlo, hrest⟩ := h
      have hx := x.toNat_lt
      have hy := y.toNat_lt
      have hhi' := hexDigit_inj (by omega) (by omega) hhi
      have hlo' := hexDigit_inj (Nat.mod_lt _ (by decide)) (Nat.mod_lt _ (by decide)) hlo
      have hxy : x = y := UInt8.toNat_inj.1 (by omega)
      rw [hxy, ih hrest]

/-- A row tells the length of the body and its first 64 bytes. -/
theorem Payload.Tells.determines {d d' : Direction} {c c' : Str} {a b : Bytes} {p : Payload} (ha : p.Tells d c a)
    (hb : p.Tells d' c' b) : a.length = b.length ∧ a.take previewBytes = b.take previewBytes := by
  obtain ⟨-, -, hla, hpa⟩ := ha
  obtain ⟨-, -, hlb, hpb⟩ := hb
  have hlen : a.length = b.length := hla.symm.trans hlb
  refine ⟨hlen, hexlify_inj ?_⟩
  have hhex : (preview a).1 = (preview b).1 := by rw [← hpa, ← hpb]
  unfold preview at hhex
  dsimp only at hhex
  rw [hlen] at hhex
  split at hhex
  · exact List.append_cancel_right hhex
  · exact hhex

/-! ## What the events of a connection tell -/

/-- The events of this direction. -/
def Watched.logged (w : Watched) (d : Direction) : List Payload := w.log.filter (·.direction = d)

/-- Of the messages handed to the relay's writer all are logged but `kept`, the
one in the drain or the one whose drain raised. -/
def Watched.UpTold (w : Watched) : Prop :=
  ∃ done kept, List.Forall₂ (Payload.Tells .c2s w.connId) (done.map bodyOf) (w.logged .c2s) ∧
    w.proxy.toRelay <+: (done ++ kept).flatten ∧ (w.proxy.writerClosed = false → w.proxy.toRelay = (done ++ kept).flatten) ∧
    kept.length ≤ 1 ∧ (w.proxy.forward ≠ .raised → kept = if w.proxy.forward = .draining then [w.held] else [])

/-- `handle` has not got behind its dial, so no pump has moved. It is over when
its `ws.close` is, which leaves no open WebSocket. -/
structure Watched.Unpumped (w : Watched) : Prop where
  forward : w.proxy.forward = .atLoop
  toRelay : w.proxy.toRelay = []
  toPeer : w.proxy.toPeer = []
  finished : w.proxy.handler = .finished ↔ w.dial = .refused
  closed : w.dial = .refused → w.proxy.ws ≠ .open

/-- The events of a connection tell its traffic: the messages to the relay, all
frames handed to the WebSocket, that it was opened, first of all, whether the
relay could not be dialled, and whether `handle` has ended behind its pumps. -/
structure Watched.Faithful (w : Watched) : Prop where
  up : w.UpTold
  down : List.Forall₂ (Payload.Tells .s2c w.connId) (w.proxy.toPeer.map (·.drop 4)) (w.logged .s2c)
  opens : ∃ p rest, w.log = p :: rest ∧ p.direction = .open ∧ ∀ q ∈ rest, q.direction ≠ .open
  refuses : (w.logged .info).length = if w.dial = .refusing ∨ w.dial = .refused then 1 else 0
  closes : (w.logged .close).length = if w.dial = .dialled ∧ w.proxy.handler = .finished then 1 else 0
  unpumped : w.dial ≠ .dialled → w.Unpumped

theorem forall₂_snoc {α β : Type} {R : α → β → Prop} {l : List α} {m : List β} {a : α} {b : β} (h : List.Forall₂ R l m)
    (hab : R a b) : List.Forall₂ R (l ++ [a]) (m ++ [b]) := List.rel_append h (.cons hab .nil)

/-- What only `_ws_to_tcp` moves. The writer is closed once and for all. -/
theorem step_toRelay (p : Proxy) {e : Event} (he : ∀ lost, e ≠ .forward lost) :
    (p.step e).1.toRelay = p.toRelay ∧ (p.step e).1.forward = p.forward ∧
      ((p.step e).1.writerClosed = false → p.writerClosed = false) := by
  cases e with
  | forward lost => exact absurd rfl (he lost)
  | message m | wsClose clean | frame f | relayEof =>
    unfold Proxy.step
    dsimp only
    split <;> exact ⟨rfl, rfl, id⟩
  | relayTakes b | peerTakes b => exact ⟨rfl, rfl, id⟩
  | backward =>
    obtain ⟨frames, toPeer, backward, exc, hstep, -⟩ := backwardStep_cases p
    rw [Proxy.step, hstep]
    exact ⟨rfl, rfl, id⟩
  | handler =>
    rw [Proxy.step]
    unfold Proxy.handlerStep
    split
    · split
      · exact ⟨rfl, rfl, nofun⟩
      · exact ⟨rfl, rfl, id⟩
    · split <;> exact ⟨rfl, rfl, id⟩
    · exact ⟨rfl, rfl, id⟩

/-- What only `_tcp_to_ws` moves. -/
theorem step_toPeer (p : Proxy) {e : Event} (he : e ≠ .backward) : (p.step e).1.toPeer = p.toPeer := by
  cases e with
  | backward => exact absurd rfl he
  | message m | wsClose clean | frame f | relayEof =>
    unfold Proxy.step
    dsimp only
    split <;> rfl
  | relayTakes b | peerTakes b => rfl
  | forward lost =>
    obtain ⟨msgs, toRelay, forward, exc, hstep, -⟩ := forwardStep_cases p lost
    rw [Proxy.step, hstep]
  | handler =>
    rw [Proxy.step]
    unfold Proxy.handlerStep
    split
    · split <;> rfl
    · split <;> rfl
    · rfl

/-- What only `handle` moves. -/
theorem step_ending (p : Proxy) {e : Event} (he : e ≠ .handler) : (p.step e).1.handler = p.handler := by
  cases e with
  | handler => exact absurd rfl he
  | message m | wsClose clean | frame f | relayEof =>
    unfold Proxy.step
    dsimp only
    split <;> rfl
  | relayTakes b | peerTakes b => rfl
  | forward lost =>
    obtain ⟨msgs, toRelay, forward, exc, hstep, -⟩ := forwardStep_cases p lost
    rw [Proxy.step, hstep]
  | backward =>
    obtain ⟨frames, toPeer, backward, exc, hstep, -⟩ := backwardStep_cases p
    rw [Proxy.step, hstep]

/-- What a step of `_ws_to_tcp` does with messages: it takes one, or is done with one, or neither. -/
inductive Proxy.Passes (p q : Proxy) (taken : Option Bytes) : Prop where
  | takes (data : Bytes) (hp : p.forward = .atLoop) (ht : taken = some data) (hq : q.forward = .draining)
      (hrelay : q.toRelay = if p.writerClosed then p.toRelay else p.toRelay ++ data)
  | done (hp : p.forward = .draining) (ht : taken = none) (hq : q.forward = .atLoop) (hrelay : q.toRelay = p.toRelay)
  | neither (hmoves : q.forward = p.forward ∨ q.forward = .raised ∨ p.forward = .atLoop ∧ q.forward = .returned)
      (ht : taken = none) (hrelay : q.toRelay = p.toRelay)

theorem forwardStep_passes (p : Proxy) (lost : Bool) :
    p.Passes (p.forwardStep lost).1 (p.takes (.forward lost)) ∧ (p.forwardStep lost).1.writerClosed = p.writerClosed := by
  unfold Proxy.forwardStep Proxy.takes
  cases hf : p.forward with
  | atLoop =>
    dsimp only
    split
    · exact ⟨.neither (.inl hf.symm) (by rename_i h; rw [h]) rfl, rfl⟩
    · exact ⟨.takes _ hf (by rename_i h; rw [h]) rfl rfl, rfl⟩
    · rename_i hmsgs
      rw [hmsgs]
      split
      · exact ⟨.neither (.inl rfl) rfl rfl, rfl⟩
      · exact ⟨.neither (.inr (.inl rfl)) rfl rfl, rfl⟩
      · exact ⟨.neither (.inr (.inr ⟨hf, rfl⟩)) rfl rfl, rfl⟩
  | draining =>
    dsimp only
    split
    · exact ⟨.neither (.inr (.inl rfl)) rfl rfl, rfl⟩
    · split
      · exact ⟨.done hf rfl rfl rfl, rfl⟩
      · exact ⟨.neither (.inl rfl) rfl rfl, rfl⟩
  | returned | raised => exact ⟨.neither (.inl rfl) rfl rfl, rfl⟩

/-- A step of `_tcp_to_ws` sends a frame, or none. -/
theorem backwardStep_sends (p : Proxy) :
    (∃ f, p.backward = .sending f ∧ p.backwardStep.1.backward = .reading ∧ p.backwardStep.1.toPeer = p.toPeer ++ [f]) ∨
      (∀ f, p.backward = .sending f → p.backwardStep.1.backward ≠ .reading) ∧ p.backwardStep.1.toPeer = p.toPeer := by
  unfold Proxy.backwardStep
  cases hb : p.backward with
  | reading =>
    right
    dsimp only
    split
    · exact ⟨nofun, rfl⟩
    · split <;> exact ⟨nofun, rfl⟩
  | sending f =>
    dsimp only
    split
    · exact Or.inr ⟨by simp, rfl⟩
    · split
      · exact Or.inl ⟨f, rfl, rfl, rfl⟩
      · exact Or.inr ⟨by simp [hb], rfl⟩
  | returned | raised => exact Or.inr ⟨nofun, rfl⟩

/-- A step of `handle` ends it, or leaves it ended or not. -/
theorem handlerStep_ends (p : Proxy) :
    p.handler = .closing ∧ p.handlerStep.handler = .finished ∨
      ¬(p.handler = .closing ∧ p.handlerStep.handler = .finished) ∧
        (p.handlerStep.handler = .finished ↔ p.handler = .finished) := by
  unfold Proxy.handlerStep
  cases hh : p.handler with
  | gathering =>
    dsimp only
    split <;> simp [hh]
  | closing =>
    dsimp only
    split <;> simp [hh]
  | finished => simp [hh]

theorem Watched.log_next (w : Watched) (m : Move) (now : Nat) : (w.next m now).log = w.log ++ w.emits m now := by
  unfold Watched.next
  dsimp only
  split <;> first | rfl | (split <;> rfl)

theorem Watched.next_eq {w : Watched} (hd : w.dial = .dialled) (e : Event) (now : Nat) : w.next (.event e) now =
    { w with proxy := (w.proxy.step e).1, held := (w.proxy.takes e).getD w.held, log := w.log ++ w.tells e now } := by
  simp only [Watched.next, Watched.emits, hd]

/-- Every task emits in its own direction. -/
theorem tells_direction (w : Watched) (e : Event) (now : Nat) : ∀ q ∈ w.tells e now,
    q.direction = .c2s ∧ (∃ lost, e = .forward lost) ∨ q.direction = .s2c ∧ e = .backward ∨
      q.direction = .close ∧ e = .handler := by
  intro q hq
  unfold Watched.tells at hq
  dsimp only at hq
  split at hq
  · split at hq
    · rw [List.mem_singleton] at hq
      exact Or.inl ⟨by rw [hq]; rfl, _, rfl⟩
    · cases hq
  · split at hq
    · split at hq
      · rw [List.mem_singleton] at hq
        exact Or.inr (Or.inl ⟨by rw [hq]; rfl, rfl⟩)
      · cases hq
    · cases hq
  · split at hq
    · rw [List.mem_singleton] at hq
      exact Or.inr (Or.inr ⟨by rw [hq]; rfl, rfl⟩)
    · cases hq
  · cases hq

section Step
variable {w : Watched} (hd : w.dial = .dialled) (now : Nat)
include hd

theorem next_parts (e : Event) : (w.next (.event e) now).connId = w.connId ∧
    (w.next (.event e) now).proxy = (w.proxy.step e).1 ∧ (w.next (.event e) now).held = (w.proxy.takes e).getD w.held := by
  rw [Watched.next_eq hd]
  exact ⟨rfl, rfl, rfl⟩

theorem logged_next (e : Event) (d : Direction) :
    (w.next (.event e) now).logged d = w.logged d ++ (w.tells e now).filter (·.direction = d) := by
  rw [Watched.next_eq hd, Watched.logged, List.filter_append]
  rfl

/-- A direction that the step does not emit in. -/
theorem logged_next_same {e : Event} {d : Direction} (h : ∀ q ∈ w.tells e now, q.direction ≠ d) :
    (w.next (.event e) now).logged d = w.logged d := by
  rw [logged_next hd, List.filter_eq_nil_iff.2 (by simpa using h), List.append_nil]

theorem up_next_forward (h : w.UpTold) (lost : Bool) : (w.next (.event (.forward lost)) now).UpTold := by
  obtain ⟨done, kept, hlog, hle, heq, hone, hkept⟩ := h
  obtain ⟨hpasses, hwriter⟩ := forwardStep_passes w.proxy lost
  obtain ⟨hconn, hproxy, hheld⟩ := next_parts hd now (.forward lost)
  have htells : w.tells (.forward lost) now =
      if w.proxy.forward = .draining ∧ (w.proxy.forwardStep lost).1.forward = .atLoop then
        [emit now w.connId .c2s (bodyOf w.held).length (some (bodyOf w.held)) none]
      else [] := rfl
  have hstep : (w.proxy.step (.forward lost)).1 = (w.proxy.forwardStep lost).1 := rfl
  rw [Watched.UpTold, hconn, hproxy, hheld, hstep, logged_next hd, htells]
  cases hpasses with
  | takes data hp ht hq hrelay =>
    obtain rfl : kept = [] := by simpa [hp] using hkept
    rw [List.append_nil] at hle heq
    refine ⟨done, [data], ?_, ?_, ?_, Nat.le_refl 1, ?_⟩
    · simpa [hp] using hlog
    · rw [hrelay, List.flatten_append, List.flatten_singleton]
      split
      · exact hle.trans (List.prefix_append _ _)
      · rename_i hopen
        have hall : w.proxy.toRelay = done.flatten := heq (by simpa using hopen)
        exact ⟨[], by rw [List.append_nil, hall]⟩
    · intro hopen
      rw [hwriter] at hopen
      rw [hrelay, if_neg (by simp [hopen]), heq hopen, List.flatten_append, List.flatten_singleton]
    · intro _
      simp [hq, ht]
  | done hp ht hq hrelay =>
    obtain rfl : kept = [w.held] := by simpa [hp] using hkept
    refine ⟨done ++ [w.held], [], ?_, ?_, ?_, Nat.zero_le 1, ?_⟩
    · rw [if_pos ⟨hp, hq⟩, List.map_append]
      exact forall₂_snoc hlog (emit_tells now w.connId .c2s (bodyOf w.held))
    · rwa [hrelay, List.append_nil]
    · intro hopen
      rw [hrelay, List.append_nil]
      exact heq (hwriter ▸ hopen)
    · intro _
      simp [hq]
  | neither hmoves ht hrelay =>
    have hsilent : ¬(w.proxy.forward = .draining ∧ (w.proxy.forwardStep lost).1.forward = .atLoop) := by
      rintro ⟨hp, hq⟩
      rcases hmoves with hsame | hraised | ⟨hp', -⟩ <;> simp_all
    refine ⟨done, kept, ?_, hrelay ▸ hle, ?_, hone, ?_⟩
    · simpa [hsilent] using hlog
    · intro hopen
      rw [hrelay]
      exact heq (hwriter ▸ hopen)
    · intro hq
      rw [ht, Option.getD_none]
      rcases hmoves with hsame | hraised | ⟨hp, hret⟩
      · rw [hsame] at hq ⊢
        exact hkept hq
      · exact absurd hraised hq
      · simpa [hp, hret] using hkept

theorem up_next (h : w.UpTold) (e : Event) : (w.next (.event e) now).UpTold := by
  by_cases he : ∃ lost, e = .forward lost
  · obtain ⟨lost, rfl⟩ := he
    exact up_next_forward hd now h lost
  · obtain ⟨done, kept, hlog, hle, heq, hone, hkept⟩ := h
    obtain ⟨hconn, hproxy, hheld⟩ := next_parts hd now e
    obtain ⟨hrelay, hforward, hwriter⟩ := step_toRelay w.proxy (e := e) fun lost h => he ⟨lost, h⟩
    have htakes : w.proxy.takes e = none := by
      unfold Proxy.takes
      split
      · exact absurd ⟨_, rfl⟩ he
      · rfl
    have hlogged := logged_next_same hd now (e := e) (d := .c2s) fun q hq hd => by
      rcases tells_direction w e now q hq with ⟨-, h⟩ | ⟨hd', -⟩ | ⟨hd', -⟩
      · exact he h
      · rw [hd] at hd'
        cases hd'
      · rw [hd] at hd'
        cases hd'
    rw [Watched.UpTold, hconn, hproxy, hheld, hlogged, hrelay, hforward, htakes]
    exact ⟨done, kept, hlog, hle, fun hopen => heq (hwriter hopen), hone, hkept⟩

theorem down_next (h : List.Forall₂ (Payload.Tells .s2c w.connId) (w.proxy.toPeer.map (·.drop 4)) (w.logged .s2c))
    (e : Event) :
    List.Forall₂ (Payload.Tells .s2c (w.next (.event e) now).connId) ((w.next (.event e) now).proxy.toPeer.map (·.drop 4))
      ((w.next (.event e) now).logged .s2c) := by
  obtain ⟨hconn, hproxy, -⟩ := next_parts hd now e
  rw [hconn, hproxy]
  by_cases he : e = .backward
  · subst he
    rw [logged_next hd]
    have htells : w.tells .backward now = match w.proxy.backward with
        | .sending framed =>
          if w.proxy.backwardStep.1.backward = .reading then
            [emit now w.connId .s2c (framed.drop 4).length (some (framed.drop 4)) none]
          else []
        | _ => [] := rfl
    rw [htells, Proxy.step]
    rcases backwardStep_sends w.proxy with ⟨f, hb, hq, hpeer⟩ | ⟨hsilent, hpeer⟩
    · rw [hpeer, hb, List.map_append]
      dsimp only
      rw [if_pos hq]
      exact forall₂_snoc h (emit_tells now w.connId .s2c (f.drop 4))
    · rw [hpeer]
      split
      · rename_i framed hb
        rw [if_neg (hsilent framed hb)]
        simpa using h
      · simpa using h
  · rw [step_toPeer w.proxy he, logged_next_same hd now fun q hq hd => ?_]
    · exact h
    · rcases tells_direction w e now q hq with ⟨hd', -⟩ | ⟨-, h⟩ | ⟨hd', -⟩
      · rw [hd] at hd'
        cases hd'
      · exact he h
      · rw [hd] at hd'
        cases hd'

theorem closes_next (h : (w.logged .close).length = if w.proxy.handler = .finished then 1 else 0) (e : Event) :
    ((w.next (.event e) now).logged .close).length = if (w.next (.event e) now).proxy.handler = .finished then 1 else 0 := by
  rw [(next_parts hd now e).2.1]
  by_cases he : e = .handler
  · subst he
    have htells : w.tells .handler now =
        if w.proxy.handler = .closing ∧ w.proxy.handlerStep.handler = .finished then
          [emit now w.connId .close 0 none (some (str "ws closed"))]
        else [] := rfl
    rw [logged_next hd, htells, Proxy.step, List.length_append, h]
    rcases handlerStep_ends w.proxy with hends | ⟨hsilent, hsame⟩
    · rw [if_pos hends, if_pos hends.2, if_neg (by rw [hends.1]; exact nofun)]
      rfl
    · rw [if_neg hsilent, if_congr hsame rfl rfl]
      rfl
  · rw [step_ending w.proxy he, logged_next_same hd now fun q hq hd => ?_]
    · exact h
    · rcases tells_direction w e now q hq with ⟨hd', -⟩ | ⟨hd', -⟩ | ⟨-, h⟩
      · rw [hd] at hd'
        cases hd'
      · rw [hd] at hd'
        cases hd'
      · exact he h

end Step

/-! ### In front of the pumps -/

/-- The other end of the WebSocket moves no task and opens nothing. -/
theorem step_ofPeer (p : Proxy) {e : Event} (he : e.ofPeer = true) :
    (p.step e).1.toRelay = p.toRelay ∧ (p.step e).1.forward = p.forward ∧ (p.step e).1.toPeer = p.toPeer ∧
      (p.step e).1.handler = p.handler ∧ (p.step e).1.writerClosed = p.writerClosed ∧
      (p.ws ≠ .open → (p.step e).1.ws ≠ .open) := by
  cases e with
  | message m | wsClose clean =>
    unfold Proxy.step
    dsimp only
    split
    · exact ⟨rfl, rfl, rfl, rfl, rfl, (absurd ‹_› ·)⟩
    · exact ⟨rfl, rfl, rfl, rfl, rfl, id⟩
  | peerTakes b => exact ⟨rfl, rfl, rfl, rfl, rfl, id⟩
  | frame | relayEof | relayTakes | forward | backward | handler => cases he

/-- Until the relay is dialled a move passes nothing on. -/
theorem next_undialled {w : Watched} (hd : w.dial ≠ .dialled) (m : Move) (now : Nat) :
    (w.next m now).connId = w.connId ∧ (w.next m now).held = w.held ∧ (w.next m now).proxy.toRelay = w.proxy.toRelay ∧
      (w.next m now).proxy.forward = w.proxy.forward ∧ (w.next m now).proxy.toPeer = w.proxy.toPeer ∧
      (w.next m now).proxy.writerClosed = w.proxy.writerClosed := by
  unfold Watched.next
  dsimp only
  split
  · exact ⟨rfl, rfl, rfl, rfl, rfl, rfl⟩
  · exact ⟨rfl, rfl, rfl, rfl, rfl, rfl⟩
  · exact absurd ‹_› hd
  · split
    · obtain ⟨hrelay, hforward, hpeer, -, hwriter, -⟩ := step_ofPeer w.proxy ‹_›
      exact ⟨rfl, rfl, hrelay, hforward, hpeer, hwriter⟩
    · exact ⟨rfl, rfl, rfl, rfl, rfl, rfl⟩
  · exact ⟨rfl, rfl, rfl, rfl, rfl, rfl⟩

/-- What is emitted then is about the dial. -/
theorem emits_undialled {w : Watched} (hd : w.dial ≠ .dialled) (m : Move) (now : Nat) :
    ∀ q ∈ w.emits m now, q.direction = .info := by
  intro q hq
  unfold Watched.emits at hq
  split at hq
  · rw [List.mem_singleton.1 hq]
    rfl
  · exact absurd ‹_› hd
  · cases hq

theorem logged_undialled {w : Watched} (hd : w.dial ≠ .dialled) (m : Move) (now : Nat) {d : Direction} (hne : d ≠ .info) :
    (w.next m now).logged d = w.logged d := by
  have hnone : (w.emits m now).filter (·.direction = d) = [] := by
    rw [List.filter_eq_nil_iff]
    intro q hq
    rw [emits_undialled hd m now q hq, decide_eq_true_eq]
    exact hne.symm
  rw [Watched.logged, Watched.log_next, List.filter_append, hnone, List.append_nil]
  rfl

theorem Watched.Unpumped.next {w : Watched} (h : w.Unpumped) (hd : w.dial ≠ .dialled) (m : Move) (now : Nat)
    (hd' : (w.next m now).dial ≠ .dialled) : (w.next m now).Unpumped := by
  obtain ⟨-, -, hrelay, hforward, hpeer, -⟩ := next_undialled hd m now
  have hmoves : ((w.next m now).proxy.handler = .finished ↔ (w.next m now).dial = .refused) ∧
      ((w.next m now).dial = .refused → (w.next m now).proxy.ws ≠ .open) := by
    unfold Watched.next at hd' ⊢
    dsimp only at hd' ⊢
    split
    · rename_i hdial
      have hrunning : w.proxy.handler ≠ .finished := fun hf => by
        have := h.finished.1 hf
        rw [hdial] at this
        cases this
      refine ⟨iff_of_false hrunning ?_, ?_⟩ <;> dsimp only <;> split <;> exact nofun
    · refine ⟨iff_of_true rfl rfl, ?_⟩
      intro _
      dsimp only
      split
      · exact nofun
      · exact ‹_›
    · exact absurd ‹_› hd
    · split
      · obtain ⟨-, -, -, hhandler, -, hws⟩ := step_ofPeer w.proxy ‹_›
        exact ⟨hhandler.symm ▸ h.finished, fun hr => hws (h.closed hr)⟩
      · exact ⟨h.finished, h.closed⟩
    · exact ⟨h.finished, h.closed⟩
  exact ⟨hforward.trans h.forward, hrelay.trans h.toRelay, hpeer.trans h.toPeer, hmoves.1, hmoves.2⟩

theorem Watched.dial_next (w : Watched) (m : Move) (now : Nat) : (w.next m now).dial = match w.dial, m with
    | .dialling, .dialEnds err => if err = none then .dialled else .refusing
    | .refusing, .closeEnds => .refused
    | dial, _ => dial := by
  unfold Watched.next
  cases w.dial <;> cases m <;> dsimp only <;> split <;> rfl

theorem refuses_next {w : Watched} (hd : w.dial ≠ .dialled) (m : Move) (now : Nat)
    (h : (w.logged .info).length = if w.dial = .refusing ∨ w.dial = .refused then 1 else 0) :
    ((w.next m now).logged .info).length =
      if (w.next m now).dial = .refusing ∨ (w.next m now).dial = .refused then 1 else 0 := by
  rw [Watched.logged, Watched.log_next, List.filter_append, List.length_append, Watched.dial_next]
  refine (congrArg (· + _) h).trans ?_
  unfold Watched.emits
  cases hdial : w.dial with
  | dialled => exact absurd hdial hd
  | dialling =>
    cases m with
    | dialEnds err => cases err <;> rfl
    | closeEnds | event => rfl
  | refusing | refused => cases m <;> rfl

theorem closes_undialled {w : Watched} (hd : w.dial ≠ .dialled) (hu : w.Unpumped) (m : Move) (now : Nat)
    (h : (w.logged .close).length = if w.dial = .dialled ∧ w.proxy.handler = .finished then 1 else 0) :
    ((w.next m now).logged .close).length =
      if (w.next m now).dial = .dialled ∧ (w.next m now).proxy.handler = .finished then 1 else 0 := by
  rw [logged_undialled hd m now (d := .close) nofun, h, if_neg fun h => hd h.1]
  refine (if_neg ?_).symm
  rintro ⟨hdialled, hfinished⟩
  rw [Watched.dial_next] at hdialled
  cases hdial : w.dial with
  | dialled => exact hd hdial
  | refusing | refused =>
    rw [hdial] at hdialled
    cases m <;> cases hdialled
  | dialling =>
    rw [hdial] at hdialled
    cases m with
    | dialEnds err =>
      have hproxy : (w.next (.dialEnds err) now).proxy = w.proxy := by simp only [Watched.next, hdial]
      rw [hproxy] at hfinished
      have hrefused := hu.finished.1 hfinished
      rw [hdial] at hrefused
      cases hrefused
    | closeEnds | event => cases hdialled

/-! ### Every move -/

theorem Watched.Faithful.dialled {w : Watched} (h : w.Faithful) (hd : w.dial = .dialled) (e : Event) (now : Nat) :
    (w.next (.event e) now).Faithful := by
  have hdial : (w.next (.event e) now).dial = .dialled := by rw [Watched.next_eq hd]; exact hd
  refine ⟨up_next hd now h.up e, down_next hd now h.down e, ?_, ?_, ?_, absurd hdial⟩
  · obtain ⟨p, rest, hlog, hp, hrest⟩ := h.opens
    refine ⟨p, rest ++ w.tells e now, ?_, hp, ?_⟩
    · rw [Watched.next_eq hd, hlog]
      rfl
    · rw [List.forall_mem_append]
      refine ⟨hrest, ?_⟩
      intro q hq hd'
      rcases tells_direction w e now q hq with ⟨h, -⟩ | ⟨h, -⟩ | ⟨h, -⟩ <;> rw [hd'] at h <;> cases h
  · rw [logged_next_same hd now fun q hq hd' => ?_, hdial, h.refuses, hd]
    rcases tells_direction w e now q hq with ⟨h, -⟩ | ⟨h, -⟩ | ⟨h, -⟩ <;> rw [hd'] at h <;> cases h
  · have hcloses := h.closes
    simp only [hd, true_and] at hcloses
    simp only [hdial, true_and]
    exact closes_next hd now hcloses e

theorem Watched.Faithful.undialled {w : Watched} (h : w.Faithful) (hd : w.dial ≠ .dialled) (m : Move) (now : Nat) :
    (w.next m now).Faithful := by
  obtain ⟨hconn, hheld, hrelay, hforward, hpeer, hwriter⟩ := next_undialled hd m now
  refine ⟨?_, ?_, ?_, refuses_next hd m now h.refuses, closes_undialled hd (h.unpumped hd) m now h.closes,
    (h.unpumped hd).next hd m now⟩
  · rw [Watched.UpTold, hconn, hheld, hrelay, hforward, hwriter, logged_undialled hd m now (d := .c2s) nofun]
    exact h.up
  · rw [hconn, hpeer, logged_undialled hd m now (d := .s2c) nofun]
    exact h.down
  · obtain ⟨p, rest, hlog, hp, hrest⟩ := h.opens
    refine ⟨p, rest ++ w.emits m now, ?_, hp, ?_⟩
    · rw [Watched.log_next, hlog]
      rfl
    · rw [List.forall_mem_append]
      refine ⟨hrest, ?_⟩
      intro q hq
      rw [emits_undialled hd m now q hq]
      exact nofun

theorem Watched.Faithful.next {w : Watched} (h : w.Faithful) (m : Move) (now : Nat) : (w.next m now).Faithful := by
  by_cases hd : w.dial = .dialled
  · cases m with
    | event e => exact h.dialled hd e now
    | dialEnds err | closeEnds =>
      obtain ⟨connId, dial, proxy, held, log⟩ := w
      cases hd
      simpa only [Watched.next, Watched.emits, List.append_nil] using h
  · exact h.undialled hd m now

theorem faithful_start (now : Nat) (connId host : Str) (port : Nat) (path : Str) :
    (Watched.start now connId host port path).Faithful where
  up := ⟨[], [], .nil, List.nil_prefix, fun _ => rfl, Nat.zero_le 1, fun _ => rfl⟩
  down := .nil
  opens := ⟨_, [], rfl, rfl, by simp⟩
  refuses := rfl
  closes := rfl
  unpumped _ := ⟨rfl, rfl, rfl, iff_of_false nofun nofun, nofun⟩

end CalcBridge.WsBridge
