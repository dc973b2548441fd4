import CalcBridge.Bridge.Pages
import CalcBridge.Bridge.Supervisor
/-!
# The supervisor's sockets (`src/bridge.py`, `run`)

`run()` call by call: each step is one call that its loop makes and how that
call ends, or a KeyboardInterrupt in it. A raw socket is the number of the
attempt of `open_socket` that made it. It is released by `close()`, unless the
attempt failed behind it or `WSClient.close` returns early. `run_sockets`
accounts for each of them after any steps.
-/
open LinkLib LinkLib.Text LinkLib.Runs CalcBridge.Tokens

namespace CalcBridge.Bridge

/-! ## The code -/

/-- How a call of `on_var` or of the timeout check ends. -/
inductive Ending where
  | returned
  | osError
  /-- An exception that is no OSError. -/
  | otherError
  deriving DecidableEq, Repr

def ending (o : Option Output) : Ending :=
  match o.map Output.fate with
  | some .failed => .osError
  | some .unencodable => .otherError
  | _ => .returned

/-- The call that `run()` makes next, or how it has ended. -/
inductive Control where
  /-- `_wifi_with_retry`, before the loop or in the handler of an OSError. -/
  | wifi
  /-- `open_socket`, called by `_connect_socket` until it works. -/
  | connect
  /-- `listen_loop`, which calls `on_var`. -/
  | listen
  /-- `_maybe_flush_stale_pair`. -/
  | check
  /-- `FrameReader.poll`. -/
  | poll
  /-- `_push_paginated_reply`. -/
  | push (frame : Bytes)
  /-- `isconnected()`, in the handler of an OSError. -/
  | handle
  /-- `run()` has returned. -/
  | done
  /-- A KeyboardInterrupt has left `run()`. -/
  | interrupted
  /-- Another exception has left `run()`. -/
  | crashed
  deriving DecidableEq, Repr

/-- How `open_socket` ends: with a socket, or with an OSError before or after it
has made its raw socket, which nothing closes then. -/
inductive Dial where
  | connected
  | failedEarly
  | failedLate
  deriving DecidableEq, Repr

/-- How `poll` ends. -/
inductive Polled where
  | nothing
  | frame (body : Bytes)
  /-- An OSError; `sawEnd` when a `WSClient` has met the end of its stream or a close frame. -/
  | raised (sawEnd : Bool)
  deriving DecidableEq, Repr

/-- A call that has ended. -/
inductive Made where
  | dial (d : Dial)
  | call (e : Event) (o : Option Output)
  | poll (r : Polled)
  | push (frame : Bytes) (sent : List VarPush)
  deriving DecidableEq

/-- `sock_holder[0]` and the socket `reader_holder[0]` reads from, how many raw
sockets were made, which of them failed attempts left, which `close()` was
called on and whether that released them, in order, the pair and the calls. -/
structure Life where
  control : Control
  held : Option Nat
  reader : Option Nat
  opened : Nat
  failed : List Nat
  closed : List (Nat × Bool)
  pair : Pair
  log : List Made
  deriving DecidableEq

/-- `run()` starts with the wifi. -/
def Life.init : Life := ⟨.wifi, none, none, 0, [], [], .empty, []⟩

/-- How the next call ends. -/
inductive Happens where
  | wifi (ok : Bool)
  | dial (d : Dial)
  | onVar (typeId : UInt8) (name8 data : Bytes) (now : Nat) (send : Send)
  | listened
  | check (now : Nat) (send : Send)
  | poll (r : Polled)
  | push (env : Nat → SendVarResult)
  | isconnected (ok : Bool)
  /-- A KeyboardInterrupt in the call. `late`: the attempt has made its raw
  socket, or the poll has met the end of the stream. -/
  | interrupt (late : Bool)

section Step
variable (wss : Bool)

/-- `if sock_holder[0]: sock_holder[0].close()`. A `WSClient` that has seen the
end of its stream returns early. -/
def Life.close (s : Life) (sawEnd : Bool) : Life :=
  { s with closed := s.closed ++ s.held.toList.map fun id => (id, !(wss && sawEnd)) }

/-- The `except OSError` of the loop, up to `isconnected()`. -/
def Life.handle (s : Life) (sawEnd : Bool) : Life :=
  { s.close wss sawEnd with control := .handle, held := none, reader := none }

/-- The next pass of the loop. -/
def Life.pass (s : Life) : Life := { s with control := if s.held = none then .connect else .listen }

/-- An attempt of `_connect_socket`, which tries again when it fails. -/
def Life.dial (s : Life) (d : Dial) : Life :=
  let s : Life := { s with log := s.log ++ [.dial d] }
  match d with
  | .connected => { s with control := .listen, held := some s.opened, reader := some s.opened, opened := s.opened + 1 }
  | .failedEarly => s
  | .failedLate => { s with opened := s.opened + 1, failed := s.failed ++ [s.opened] }

/-- A call of `on_var` or of the timeout check: a socket whose send raises is
closed and dropped at once. -/
def Life.call (s : Life) (e : Event) (next : Control) : Life :=
  let r := step ⟨s.held.isSome, s.pair⟩ e
  let s : Life := { s with pair := r.1.pair, log := s.log ++ [.call e r.2] }
  let s : Life := if r.1.sock then s else { s.close wss false with held := none }
  match ending r.2 with
  | .returned => { s with control := next }
  | .osError => s.handle wss false
  | .otherError => { s with control := .crashed }

/-- What `poll` has returned or raised. -/
def Life.poll (s : Life) (r : Polled) : Life :=
  let s : Life := { s with log := s.log ++ [.poll r] }
  match r with
  | .nothing => s.pass
  | .frame frame => { s with control := .push frame }
  | .raised sawEnd => s.handle wss sawEnd

/-- A KeyboardInterrupt: `except KeyboardInterrupt` is around the loop's calls alone. -/
def Life.interrupt (s : Life) (late : Bool) : Life :=
  match s.control with
  | .connect =>
    if late then { s with control := .done, opened := s.opened + 1, failed := s.failed ++ [s.opened] }
    else { s with control := .done }
  | .poll => { s.close wss late with control := .done }
  | .listen | .check | .push _ => { s.close wss false with control := .done }
  | .wifi | .handle => { s with control := .interrupted }
  | .done | .interrupted | .crashed => s

/-- One call of `run()`. What does not answer the call it makes changes nothing. -/
def Life.next (s : Life) : Happens → Life
  | .wifi ok => if s.control = .wifi ∧ ok then s.pass else s
  | .dial d => if s.control = .connect then s.dial d else s
  | .onVar typeId name8 data now send =>
    if s.control = .listen then s.call wss ⟨.onVar typeId name8 data, now, send, s.held.isSome⟩ .listen else s
  | .listened => if s.control = .listen then { s with control := .check } else s
  | .check now send => if s.control = .check then s.call wss ⟨.check, now, send, s.held.isSome⟩ .poll else s
  | .poll r => if s.control = .poll then s.poll wss r else s
  | .push env =>
    match s.control with
    -- It raises nothing, and nobody looks at its result.
    | .push frame => { s with control := .poll, log := s.log ++ [.push frame (pushPaginatedReply env frame).2] }
    | _ => s
  | .isconnected ok => if s.control = .handle then (if ok then s.pass else { s with control := .wifi }) else s
  | .interrupt late => s.interrupt wss late

/-- The step is one behind which a raw socket stays open: of an attempt that
does not succeed, or of a client whose end was seen. -/
def Leaks (s : Life) : Happens → Bool
  | .dial .failedLate => s.control = .connect
  | .poll (.raised sawEnd) => s.control = .poll ∧ wss ∧ sawEnd
  | .interrupt late => late ∧ (s.control = .connect ∨ (s.control = .poll ∧ wss))
  | _ => false

def lifeStep (s : Life) (h : Happens) : Life × Bool := (s.next wss h, Leaks wss s h)

end Step

/-! ## What a call does to the socket -/

/-- Over a socket that is up, an OSError is what takes it down, and no call raises anything else. -/
theorem step_ending {s : State} (hb : Buffered s) {e : Event} (hsock : e.sock = true) :
    ((step s e).1.sock = true ∧ ending (step s e).2 = .returned) ∨
      ((step s e).1.sock = false ∧ ending (step s e).2 = .osError) := by
  have heffect := effect_of s e
  have hprintable : ∀ promptText mathText fate, (step s e).2 = some (.pair promptText mathText fate) →
      ∃ payload, encodeAscii (pairBody promptText mathText) = some payload := by
    intro promptText mathText fate ho
    obtain ⟨payload, hpayload, -⟩ := pairBody_parses (frame_printable hb ho .text) (frame_printable hb ho .math)
    exact ⟨payload, hpayload⟩
  generalize step s e = r at heffect hprintable ⊢
  -- A flush is the only effect that may meet text it cannot encode.
  have hflush : ∀ pair : Pair, (∀ promptText mathText fate,
      (flushPair ⟨e.sock, pair⟩ e.send).2 = some (.pair promptText mathText fate) →
        ∃ payload, encodeAscii (pairBody promptText mathText) = some payload) →
      ((flushPair ⟨e.sock, pair⟩ e.send).1.sock = true ∧ ending (flushPair ⟨e.sock, pair⟩ e.send).2 = .returned) ∨
        ((flushPair ⟨e.sock, pair⟩ e.send).1.sock = false ∧ ending (flushPair ⟨e.sock, pair⟩ e.send).2 = .osError) := by
    intro pair hp
    obtain ⟨payload, hpayload⟩ := hp _ _ _ rfl
    have hemit : emitPair e.sock e.send (pair.prompt.getD []) (pair.math.getD []) = trySend e.send payload := by
      rw [emitPair, if_pos hsock, hpayload]
    rw [flushPair]
    dsimp only
    rw [hemit]
    cases e.send
    · exact .inl ⟨rfl, rfl⟩
    · exact .inr ⟨rfl, rfl⟩
  cases heffect with
  | waits => exact .inl ⟨hsock, rfl⟩
  | completes => exact hflush _ hprintable
  | flushes => exact hflush _ hprintable
  | keeps => exact .inl ⟨hsock, rfl⟩
  | relays hd payload =>
    rw [relayRaw, if_pos hsock]
    cases e.send
    · exact .inl ⟨rfl, rfl⟩
    · exact .inr ⟨rfl, rfl⟩

/-! ## Sockets -/

/-- The calls that need a socket. -/
def Control.Up : Control → Prop
  | .listen | .check | .poll | .push _ => True
  | _ => False

/-- The raw sockets that `run()` is through with. -/
def Life.gone (s : Life) : List Nat := s.closed.map Prod.fst ++ s.failed

/-- Of these, the ones that stay open. -/
def Life.leaked (s : Life) : List Nat := (s.closed.filter fun c => !c.2).map Prod.fst ++ s.failed

/-- `run()` is through with every raw socket but the one held, and with none twice. -/
structure Life.Sockets (s : Life) : Prop where
  fresh : ∀ id ∈ s.gone, id < s.opened
  once : s.gone.Nodup
  left : ∀ id < s.opened, id ∉ s.gone → s.held = some id
  held : ∀ id, s.held = some id → id < s.opened ∧ id ∉ s.gone

/-- All raw sockets are gone, and none twice. -/
structure Life.Gone (s : Life) : Prop where
  once : s.gone.Nodup
  all : ∀ id, id ∈ s.gone ↔ id < s.opened

/-- What holds of the sockets at each point of `run()`. -/
def Life.Safe (s : Life) : Prop :=
  match s.control with
  | .listen | .check | .poll | .push _ => s.Sockets ∧ ∃ id, s.held = some id ∧ s.reader = some id
  | .wifi | .connect | .handle | .interrupted => s.Gone ∧ s.held = none
  | .done => s.Gone
  | .crashed => False

/-- What a step needs of the state it starts from. -/
structure Life.Inv (s : Life) : Prop where
  safe : s.Safe
  buffered : Buffered ⟨true, s.pair⟩

theorem Life.inv_init : Life.init.Inv where
  safe := ⟨⟨List.nodup_nil, fun id => by simp [Life.init, Life.gone]⟩, rfl⟩
  buffered := buffered_empty true

section Inv
variable {wss : Bool}

theorem Life.mem_gone_close {s : Life} {sawEnd : Bool} {id : Nat} :
    id ∈ (s.close wss sawEnd).gone ↔ id ∈ s.gone ∨ s.held = some id := by
  simp only [Life.gone, Life.close, List.map_append, List.map_map, List.mem_append, List.mem_map, Option.mem_toList,
    Function.comp_apply]
  constructor
  · rintro ((h | ⟨_, h, rfl⟩) | h)
    · exact .inl (.inl h)
    · exact .inr h
    · exact .inl (.inr h)
  · rintro ((h | h) | h)
    · exact .inl (.inl h)
    · exact .inr h
    · exact .inl (.inr ⟨id, h, rfl⟩)

/-- With the held socket closed all are gone. -/
theorem Life.Sockets.close {s : Life} (h : s.Sockets) (sawEnd : Bool) : (s.close wss sawEnd).Gone where
  once := by
    have hperm : (s.close wss sawEnd).gone.Perm (s.gone ++ s.held.toList) := by
      simp only [Life.gone, Life.close, List.map_append, List.map_map, List.append_assoc]
      refine List.Perm.append_left _ (List.perm_append_comm.trans (List.Perm.append_left _ ?_))
      simp [Function.comp_def]
    refine hperm.nodup_iff.2 (List.nodup_append.2 ⟨h.once, ?_, ?_⟩)
    · cases s.held <;> simp
    · rintro id hid _ hheld rfl
      exact (h.held id (Option.mem_toList.1 hheld)).2 hid
  all id := by
    rw [Life.mem_gone_close]
    constructor
    · rintro (hid | hid)
      · exact h.fresh id hid
      · exact (h.held id hid).1
    · intro hlt
      by_cases hid : id ∈ s.gone
      · exact .inl hid
      · exact .inr (h.left id hlt hid)

theorem Life.Sockets.handle {s : Life} (h : s.Sockets) (sawEnd : Bool) : (s.handle wss sawEnd).Safe :=
  ⟨⟨(h.close sawEnd).once, (h.close sawEnd).all⟩, rfl⟩

/-- A socket that was dropped is not closed again. -/
theorem Life.Gone.handle {s : Life} (h : s.Gone) (hnone : s.held = none) (sawEnd : Bool) : (s.handle wss sawEnd).Safe := by
  have hsame : (s.handle wss sawEnd).gone = s.gone := by simp [Life.handle, Life.close, Life.gone, hnone]
  exact ⟨⟨hsame ▸ h.once, hsame ▸ h.all⟩, rfl⟩

theorem Life.Safe.up {s : Life} (h : s.Safe) (hup : s.control.Up) :
    s.Sockets ∧ ∃ id, s.held = some id ∧ s.reader = some id := by
  unfold Life.Safe at h
  cases hc : s.control <;> rw [hc] at h hup <;> first | exact h | exact hup.elim

theorem Life.Safe.down {s : Life} (h : s.Safe) (hdown : ¬ s.control.Up) : s.control ≠ .crashed ∧ s.Gone := by
  unfold Life.Safe at h
  cases hc : s.control <;> rw [hc] at h hdown
  case wifi | connect | handle | interrupted => exact ⟨nofun, h.1⟩
  case listen | check | poll | push => exact absurd trivial hdown
  case done => exact ⟨nofun, h⟩
  case crashed => exact h.elim

theorem Life.Safe.of_up {s : Life} (hup : s.control.Up) (h : s.Sockets) {id : Nat} (hheld : s.held = some id)
    (hreader : s.reader = some id) : s.Safe := by
  unfold Life.Safe
  cases hc : s.control <;> rw [hc] at hup <;> first | exact ⟨h, id, hheld, hreader⟩ | exact hup.elim

/-- A call ends in the next one, or in the handler. -/
theorem Life.Inv.call {s : Life} (h : s.Inv) (hup : s.control.Up) {e : Event} (hsock : e.sock = true) {next : Control}
    (hnext : next.Up) : (s.call wss e next).Inv := by
  obtain ⟨hsockets, id, hheld, hreader⟩ := h.safe.up hup
  have hb : Buffered ⟨s.held.isSome, s.pair⟩ := ⟨h.buffered.stamp, h.buffered.single, h.buffered.printable⟩
  have hb' := step_buffered hb e
  unfold Life.call
  dsimp only
  rcases step_ending hb hsock with ⟨hup', hending⟩ | ⟨hdown, hending⟩
  · rw [hending, if_pos hup']
    exact ⟨.of_up hnext ⟨hsockets.fresh, hsockets.once, hsockets.left, hsockets.held⟩ hheld hreader, hb'.stamp, hb'.single,
      hb'.printable⟩
  · rw [hending, hdown]
    have hclosed : (s.close wss false).Gone := hsockets.close false
    exact ⟨Life.Gone.handle (s := { s.close wss false with pair := _, log := _, held := none })
      ⟨hclosed.once, hclosed.all⟩ rfl false, hb'.stamp, hb'.single, hb'.printable⟩

/-- One more raw socket that stays behind. -/
theorem Life.Gone.fail {s : Life} (h : s.Gone) :
    Life.Gone { s with opened := s.opened + 1, failed := s.failed ++ [s.opened] } where
  once := by
    have hassoc : s.closed.map Prod.fst ++ (s.failed ++ [s.opened]) = s.gone ++ [s.opened] := by
      rw [Life.gone, List.append_assoc]
    rw [Life.gone, hassoc]
    refine List.nodup_append.2 ⟨h.once, List.pairwise_singleton _ _, ?_⟩
    rintro id hid _ hlast rfl
    rw [List.mem_singleton.1 hlast] at hid
    exact Nat.lt_irrefl _ ((h.all _).1 hid)
  all id := by
    have hmem : id ∈ Life.gone { s with opened := s.opened + 1, failed := s.failed ++ [s.opened] } ↔
        id ∈ s.gone ∨ id = s.opened := by
      simp only [Life.gone, List.mem_append, List.mem_singleton, or_assoc]
    rw [hmem, h.all, Nat.lt_succ_iff_lt_or_eq]

theorem Life.Inv.dial {s : Life} (h : s.Inv) (hc : s.control = .connect) (d : Dial) : (s.dial d).Inv := by
  have hsafe := h.safe
  unfold Life.Safe at hsafe
  rw [hc] at hsafe
  obtain ⟨hgone, hnone⟩ := hsafe
  cases d with
  | connected =>
    refine ⟨⟨⟨fun id hid => Nat.lt_succ_of_lt ((hgone.all id).1 hid), hgone.once, ?_, ?_⟩, s.opened, rfl, rfl⟩, h.buffered⟩
    · intro id hlt hid
      have hge : ¬ id < s.opened := fun hlt' => hid ((hgone.all id).2 hlt')
      exact congrArg some (Nat.le_antisymm (Nat.not_lt.1 hge) (Nat.lt_succ_iff.1 hlt))
    · rintro id hid
      cases hid
      exact ⟨Nat.lt_succ_self _, fun hid => Nat.lt_irrefl _ ((hgone.all _).1 hid)⟩
  | failedEarly =>
    refine ⟨?_, h.buffered⟩
    unfold Life.Safe Life.dial
    dsimp only
    rw [hc]
    exact ⟨⟨hgone.once, hgone.all⟩, hnone⟩
  | failedLate =>
    refine ⟨?_, h.buffered⟩
    unfold Life.Safe Life.dial
    dsimp only
    rw [hc]
    exact ⟨⟨hgone.fail.once, hgone.fail.all⟩, hnone⟩

/-- Without a socket the next pass connects. -/
theorem Life.Inv.pass_down {s : Life} (h : s.Inv) (hgone : s.Gone) (hnone : s.held = none) : s.pass.Inv := by
  have hpass : s.pass = { s with control := .connect } := by simp [Life.pass, hnone]
  rw [hpass]
  exact ⟨⟨⟨hgone.once, hgone.all⟩, hnone⟩, h.buffered⟩

theorem Life.Inv.poll {s : Life} (h : s.Inv) (hc : s.control = .poll) (r : Polled) : (s.poll wss r).Inv := by
  obtain ⟨hs, id, hheld, hreader⟩ := h.safe.up (by rw [hc]; trivial)
  have hlogged : Life.Sockets { s with log := s.log ++ [.poll r] } := ⟨hs.fresh, hs.once, hs.left, hs.held⟩
  cases r with
  | nothing =>
    have hpass : s.poll wss .nothing = { s with log := s.log ++ [.poll .nothing], control := .listen } := by
      simp [Life.poll, Life.pass, hheld]
    rw [hpass]
    exact ⟨⟨⟨hs.fresh, hs.once, hs.left, hs.held⟩, id, hheld, hreader⟩, h.buffered⟩
  | frame frame => exact ⟨⟨⟨hs.fresh, hs.once, hs.left, hs.held⟩, id, hheld, hreader⟩, h.buffered⟩
  | raised sawEnd => exact ⟨hlogged.handle sawEnd, h.buffered⟩

theorem Life.Inv.interrupt {s : Life} (h : s.Inv) (late : Bool) : (s.interrupt wss late).Inv := by
  have hsafe := h.safe
  unfold Life.Safe at hsafe
  refine ⟨?_, ?_⟩
  · unfold Life.interrupt
    cases hc : s.control <;> rw [hc] at hsafe <;> dsimp only
    case wifi | handle => exact ⟨⟨hsafe.1.once, hsafe.1.all⟩, hsafe.2⟩
    case connect =>
      split
      · exact ⟨hsafe.1.fail.once, hsafe.1.fail.all⟩
      · exact ⟨hsafe.1.once, hsafe.1.all⟩
    case poll => exact ⟨(hsafe.1.close late).once, (hsafe.1.close late).all⟩
    case listen | check | push => exact ⟨(hsafe.1.close false).once, (hsafe.1.close false).all⟩
    case done | interrupted => unfold Life.Safe; rw [hc]; exact hsafe
    case crashed => exact hsafe.elim
  · unfold Life.interrupt
    split
    · split <;> exact h.buffered
    all_goals exact h.buffered

theorem Life.Inv.next {s : Life} (h : s.Inv) (e : Happens) : (s.next wss e).Inv := by
  have hsafe := h.safe
  unfold Life.Safe at hsafe
  unfold Life.next
  cases e with
  | wifi ok =>
    dsimp only
    split
    · rename_i hc
      rw [hc.1] at hsafe
      exact h.pass_down hsafe.1 hsafe.2
    · exact h
  | dial d =>
    dsimp only
    split
    · exact h.dial ‹_› d
    · exact h
  | onVar typeId name8 data now send =>
    dsimp only
    split
    · rename_i hc
      rw [hc] at hsafe
      obtain ⟨-, id, hheld, -⟩ := hsafe
      exact h.call (by rw [hc]; trivial) (by rw [hheld]; rfl) trivial
    · exact h
  | listened =>
    dsimp only
    split
    · rename_i hc
      rw [hc] at hsafe
      obtain ⟨hs, id, hheld, hreader⟩ := hsafe
      exact ⟨⟨⟨hs.fresh, hs.once, hs.left, hs.held⟩, id, hheld, hreader⟩, h.buffered⟩
    · exact h
  | check now send =>
    dsimp only
    split
    · rename_i hc
      rw [hc] at hsafe
      obtain ⟨-, id, hheld, -⟩ := hsafe
      exact h.call (by rw [hc]; trivial) (by rw [hheld]; rfl) trivial
    · exact h
  | poll r =>
    dsimp only
    split
    · exact h.poll ‹_› r
    · exact h
  | push env =>
    dsimp only
    split
    · rename_i hc
      rw [hc] at hsafe
      obtain ⟨hs, id, hheld, hreader⟩ := hsafe
      exact ⟨⟨⟨hs.fresh, hs.once, hs.left, hs.held⟩, id, hheld, hreader⟩, h.buffered⟩
    · exact h
  | isconnected ok =>
    dsimp only
    split
    · rename_i hc
      rw [hc] at hsafe
      split
      · exact h.pass_down hsafe.1 hsafe.2
      · exact ⟨⟨⟨hsafe.1.once, hsafe.1.all⟩, hsafe.2⟩, h.buffered⟩
    · exact h
  | interrupt late => exact h.interrupt late

/-! ## What stays open -/

variable (wss) in
theorem Life.leaked_close (s : Life) (sawEnd : Bool) :
    (s.close wss sawEnd).leaked.length = s.leaked.length + if wss ∧ sawEnd then s.held.toList.length else 0 := by
  have hkept : ∀ (ids : List Nat) (b : Bool),
      ((ids.map fun id => (id, b)).filter fun c => !c.2).length = if b then 0 else ids.length := by
    intro ids b
    cases b <;> simp [List.filter_map, Function.comp_def]
  simp only [Life.leaked, Life.close, List.filter_append, List.map_append, List.length_append, List.length_map, hkept]
  cases wss <;> cases sawEnd <;> simp
  omega

/-- A call that does not see the end leaves no socket open. -/
theorem Life.leaked_call (s : Life) (e : Event) (next : Control) :
    (s.call wss e next).leaked.length = s.leaked.length := by
  have hclose (t : Life) : (t.close wss false).leaked.length = t.leaked.length := by rw [Life.leaked_close]; simp
  have hhandle (t : Life) : (t.handle wss false).leaked.length = t.leaked.length := hclose t
  have hsame : ∀ (sock : Bool) (t : Life),
      (if sock then t else { t.close wss false with held := none }).leaked.length = t.leaked.length := by
    intro sock t
    cases sock
    · exact hclose t
    · rfl
  unfold Life.call
  dsimp only
  split
  · exact hsame _ _
  · rw [hhandle, hsame]
    rfl
  · exact hsame _ _

/-- One raw socket for each step that leaks. -/
theorem Life.leaked_next {s : Life} (h : s.Inv) (e : Happens) :
    (s.next wss e).leaked.length = s.leaked.length + if Leaks wss s e then 1 else 0 := by
  have hfail : Life.leaked { s with opened := s.opened + 1, failed := s.failed ++ [s.opened] } = s.leaked ++ [s.opened] := by
    simp [Life.leaked]
  have hheld (hc : s.control = .poll) : s.held.toList.length = 1 := by
    obtain ⟨-, id, hheld, -⟩ := h.safe.up (by rw [hc]; trivial)
    rw [hheld]
    rfl
  have hkeeps : ∀ {t : Life}, t.closed = s.closed → t.failed = s.failed → t.leaked.length = s.leaked.length := by
    intro t hclosed hfailed
    rw [Life.leaked, hclosed, hfailed, Life.leaked]
  unfold Life.next
  cases e with
  | wifi ok | listened | isconnected ok =>
    dsimp only [Leaks]
    repeat' split
    all_goals exact hkeeps rfl rfl
  | dial d =>
    dsimp only
    split
    · rename_i hc
      cases d with
      | connected | failedEarly => exact hkeeps rfl rfl
      | failedLate => simpa [Leaks, hc, Life.dial, Life.leaked] using (by omega)
    · rename_i hc
      cases d <;> simp [Leaks, hc]
  | onVar typeId name8 data now send =>
    dsimp only [Leaks]
    split
    · exact Life.leaked_call _ _ _
    · rfl
  | check now send =>
    dsimp only [Leaks]
    split
    · exact Life.leaked_call _ _ _
    · rfl
  | poll r =>
    dsimp only
    split
    · rename_i hc
      cases r with
      | nothing | frame => exact hkeeps rfl rfl
      | raised sawEnd =>
        have hclose := Life.leaked_close wss { s with log := s.log ++ [.poll (.raised sawEnd)] } sawEnd
        rw [show Life.held _ = s.held from rfl, hheld hc] at hclose
        refine hclose.trans ?_
        simp [Leaks, hc, Life.leaked]
    · rename_i hc
      cases r <;> simp [Leaks, hc]
  | push env =>
    dsimp only [Leaks]
    split <;> exact hkeeps rfl rfl
  | interrupt late =>
    unfold Life.interrupt
    cases hc : s.control with
    | connect =>
      cases late
      · exact hkeeps rfl rfl
      · simpa [Leaks, hc, Life.leaked] using (by omega)
    | poll =>
      refine (Life.leaked_close wss s late).trans ?_
      rw [hheld hc]
      simp [Leaks, hc, and_comm]
    | listen | check | push =>
      refine (Life.leaked_close wss s false).trans ?_
      simp [Leaks, hc]
    | wifi | handle | done | interrupted | crashed =>
      have hleaks : Leaks wss s (.interrupt late) = false := by simp [Leaks, hc]
      rw [hleaks]
      exact hkeeps rfl rfl

theorem Life.inv_run (hs : List Happens) : (run (lifeStep wss) Life.init hs).1.Inv :=
  run_keeps (fun _ s => Life.Inv s) Life.inv_init (fun _ _ e h => h.next e) hs

theorem Life.leaked_run (hs : List Happens) :
    (run (lifeStep wss) Life.init hs).1.leaked.length = (run (lifeStep wss) Life.init hs).2.countP fun x => x.2 := by
  let I (h : List (Happens × Bool)) (s : Life) : Prop := s.Inv ∧ s.leaked.length = h.countP fun x => x.2
  have hstep (h : List (Happens × Bool)) (s : Life) (e : Happens) (hI : I h s) :
      I (h ++ [(e, (lifeStep wss s e).2)]) (lifeStep wss s e).1 := by
    refine ⟨hI.1.next e, ?_⟩
    rw [List.countP_append, List.countP_singleton, ← hI.2]
    exact Life.leaked_next hI.1 e
  exact (run_keeps I ⟨Life.inv_init, rfl⟩ hstep hs).2

end Inv

/-- Over a `WSClient`: an attempt that fails late, a connection that the server
ends, and one that is up. Two of the three raw sockets stay open. -/
example : (run (lifeStep true) Life.init [.wifi true, .dial .failedLate, .dial .connected, .listened, .check 0 .ok,
    .poll (.raised true), .isconnected true, .dial .connected]).1.leaked = [1, 0] := by
  decide

end CalcBridge.Bridge
