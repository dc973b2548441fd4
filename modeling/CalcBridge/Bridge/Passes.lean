import CalcBridge.Bridge.Lifecycle
/-!
# The supervisor's passes (`src/bridge.py`, `run`)

`run()` call by call against `run()` pass by pass. `passLogs` is what whole
passes do, one after the other, and its calls of `on_var` and of the timeout
check are those of `supervise`. At every moment the calls `run()` has made are
the front of those of some passes.
-/
open LinkLib LinkLib.Runs CalcBridge.Tokens

namespace CalcBridge.Bridge

/-! ## Whole passes -/

/-- A pass with all that it does: the attempts to connect that fail before one
works, if it has to connect, and whether they fail late; what `listen_loop`
hands to `on_var`; the timeout check; the frames that are polled and how the
`send_var` calls of their pushes end; and whether the last poll raises. -/
structure WholePass where
  dials : List Bool
  listen : List Delivery
  checkAt : Nat
  checkSend : Send
  pushes : List (Bytes × (Nat → SendVarResult))
  ended : Option Bool

def WholePass.pass (p : WholePass) : Pass := ⟨p.listen, p.checkAt, p.checkSend, p.ended.isSome⟩

def failedDial (late : Bool) : Made := .dial (if late then .failedLate else .failedEarly)

/-- What a pass does until it has a socket. -/
def opening (s : State) (dials : List Bool) : List Made :=
  if s.sock then [] else dials.map failedDial ++ [.dial .connected]

def callMade (x : Event × Option Output) : Made := .call x.1 x.2

/-- A frame that is polled, and its push. -/
def pushed (x : Bytes × (Nat → SendVarResult)) : List Made :=
  [.poll (.frame x.1), .push x.1 (pushPaginatedReply x.2 x.1).2]

/-- One pass, and the calls it makes. -/
def passLog (s : State) (p : WholePass) : State × List Made :=
  let l := listen ⟨true, s.pair⟩ p.listen
  let log := opening s p.dials ++ l.2.1.map callMade
  if l.2.2 then (⟨false, l.1.pair⟩, log)
  else
    let e : Event := ⟨.check, p.checkAt, p.checkSend, l.1.sock⟩
    let c := step l.1 e
    let log := log ++ [.call e c.2]
    if raises c.2 then (⟨false, c.1.pair⟩, log)
    else
      let log := log ++ p.pushes.flatMap pushed
      match p.ended with
      | some sawEnd => (⟨false, c.1.pair⟩, log ++ [.poll (.raised sawEnd)])
      | none => (c.1, log ++ [.poll .nothing])

/-- Pass after pass. -/
def passLogs (s : State) : List WholePass → State × List Made
  | [] => (s, [])
  | p :: ps =>
    let r := passLog s p
    let t := passLogs r.1 ps
    (t.1, r.2 ++ t.2)

theorem passLogs_snoc (s : State) (ps : List WholePass) (p : WholePass) :
    passLogs s (ps ++ [p]) =
      ((passLog (passLogs s ps).1 p).1, (passLogs s ps).2 ++ (passLog (passLogs s ps).1 p).2) := by
  induction ps generalizing s with
  | nil => simp [passLogs]
  | cons q ps ih =>
    rw [List.cons_append, passLogs, ih]
    simp [passLogs]

/-! ## Their calls of `on_var` and of the check -/

def Made.called : Made → Option (Event × Option Output)
  | .call e o => some (e, o)
  | _ => none

/-- The history of a log. -/
def callsOf (log : List Made) : History := log.filterMap Made.called

@[simp] theorem callsOf_append (a b : List Made) : callsOf (a ++ b) = callsOf a ++ callsOf b := List.filterMap_append

@[simp] theorem callsOf_calls (h : History) : callsOf (h.map callMade) = h := by
  rw [callsOf, List.filterMap_map, show Made.called ∘ callMade = some from rfl, List.filterMap_some]

@[simp] theorem callsOf_dials (dials : List Bool) : callsOf (dials.map failedDial) = [] := by
  rw [callsOf, List.filterMap_map, show Made.called ∘ failedDial = fun _ => none from rfl, List.filterMap_none]

@[simp] theorem callsOf_nil : callsOf [] = [] := rfl

@[simp] theorem callsOf_call (e : Event) (o : Option Output) (log : List Made) :
    callsOf (.call e o :: log) = (e, o) :: callsOf log := rfl

@[simp] theorem callsOf_poll (r : Polled) (log : List Made) : callsOf (.poll r :: log) = callsOf log := rfl

@[simp] theorem callsOf_opening (s : State) (dials : List Bool) : callsOf (opening s dials) = [] := by
  rw [opening]
  split
  · rfl
  · rw [callsOf_append, callsOf_dials]
    rfl

@[simp] theorem callsOf_pushed (xs : List (Bytes × (Nat → SendVarResult))) : callsOf (xs.flatMap pushed) = [] := by
  induction xs with
  | nil => rfl
  | cons x xs ih => rw [List.flatMap_cons, callsOf_append, ih]; rfl

/-- A pass is one of the supervisor's. -/
theorem passLog_supervise (s : State) (p : WholePass) :
    ((passLog s p).1, callsOf (passLog s p).2) = superviseOne s p.pass := by
  obtain ⟨dials, ds, checkAt, send, pushes, ended⟩ := p
  unfold passLog superviseOne
  dsimp only [WholePass.pass]
  split
  · simp
  · split
    · rename_i hraises
      simp [hraises]
    · rename_i hraises
      rw [Bool.not_eq_true] at hraises
      cases ended <;> simp [hraises]

theorem passLogs_supervise (s : State) (ps : List WholePass) :
    ((passLogs s ps).1, callsOf (passLogs s ps).2) = supervise s (ps.map WholePass.pass) := by
  induction ps generalizing s with
  | nil => rfl
  | cons p ps ih =>
    have hone := passLog_supervise s p
    rw [List.map_cons, supervise, ← hone, passLogs]
    dsimp only
    rw [← ih, callsOf_append]

/-! ## A pass in progress -/

/-- One more delivery, while none has raised. -/
theorem listen_snoc {s s' : State} {ds : List Delivery} {h : History} (hl : listen s ds = (s', h, false)) (d : Delivery) :
    let e : Event := ⟨.onVar d.typeId d.name8 d.data, d.now, d.send, s'.sock⟩
    listen s (ds ++ [d]) = ((step s' e).1, h ++ [(e, (step s' e).2)], raises (step s' e).2) := by
  induction ds generalizing s h with
  | nil =>
    cases hl
    simp only [List.nil_append, listen]
    split <;> simp_all
  | cons d' ds ih =>
    simp only [listen] at hl
    split at hl
    · cases hl
    · rename_i hraises
      simp only [Prod.mk.injEq] at hl
      obtain ⟨hs', rfl, hok⟩ := hl
      have hrest := ih (Prod.ext hs' (Prod.ext rfl hok))
      simp only [List.cons_append, listen, if_neg hraises, hrest]

theorem raises_of_ending {o : Option Output} :
    (ending o = .returned → raises o = false) ∧ (ending o = .osError → raises o = true) := by
  cases o with
  | none => exact ⟨fun _ => rfl, nofun⟩
  | some out =>
    simp only [ending, raises, Option.map_some, Option.any_some]
    cases out.fate <;> simp

/-- What a pass has done when it has listened. -/
theorem passLog_front (s : State) (p : WholePass) :
    opening s p.dials ++ (listen ⟨true, s.pair⟩ p.listen).2.1.map callMade <+: (passLog s p).2 := by
  unfold passLog
  dsimp only
  split
  · exact List.prefix_refl _
  · split
    · exact List.prefix_append _ _
    · split
      · rw [List.append_assoc, List.append_assoc]
        exact List.prefix_append _ _
      · rw [List.append_assoc, List.append_assoc]
        exact List.prefix_append _ _

/-- A pass whose `listen_loop` raises ends there. -/
theorem passLog_raised {s s' : State} {p : WholePass} {h : History} (hl : listen ⟨true, s.pair⟩ p.listen = (s', h, true)) :
    passLog s p = (⟨false, s'.pair⟩, opening s p.dials ++ h.map callMade) := by
  simp [passLog, hl]

theorem passLog_check_raised {s s' : State} {p : WholePass} {h : History}
    (hl : listen ⟨true, s.pair⟩ p.listen = (s', h, false))
    (hraises : raises (step s' ⟨.check, p.checkAt, p.checkSend, s'.sock⟩).2 = true) :
    passLog s p = (⟨false, (step s' ⟨.check, p.checkAt, p.checkSend, s'.sock⟩).1.pair⟩,
      opening s p.dials ++ h.map callMade ++
        [.call ⟨.check, p.checkAt, p.checkSend, s'.sock⟩ (step s' ⟨.check, p.checkAt, p.checkSend, s'.sock⟩).2]) := by
  simp [passLog, hl, hraises]

def lastPoll : Option Bool → Polled
  | none => .nothing
  | some sawEnd => .raised sawEnd

/-- From `s` the pass has done `front` and polls now: whatever more it polls and
pushes and however its last poll ends, this comes behind. -/
def Polling (s : State) (pair : Pair) (front : List Made) (p : WholePass) : Prop :=
  ∀ xs ended, passLog s { p with pushes := p.pushes ++ xs, ended } =
    (⟨ended.isNone, pair⟩, front ++ xs.flatMap pushed ++ [.poll (lastPoll ended)])

theorem Polling.push {s : State} {pair : Pair} {front : List Made} {p : WholePass} (h : Polling s pair front p)
    (x : Bytes × (Nat → SendVarResult)) :
    Polling s pair (front ++ pushed x) { p with pushes := p.pushes ++ [x] } := by
  intro xs ended
  have hmore := h (x :: xs) ended
  rw [List.flatMap_cons, ← List.append_assoc front] at hmore
  rw [← hmore]
  simp

/-- A pass polls once its check has returned. -/
theorem polling_start {s : State} {pair pair' : Pair} (dials : List Bool) {ds : List Delivery} {h : History} {now : Nat}
    {send : Send} {o : Option Output} (hl : listen ⟨true, s.pair⟩ ds = (⟨true, pair⟩, h, false))
    (hstep : step ⟨true, pair⟩ ⟨.check, now, send, true⟩ = (⟨true, pair'⟩, o)) (ho : raises o = false) :
    Polling s pair' (opening s dials ++ h.map callMade ++ [.call ⟨.check, now, send, true⟩ o])
      ⟨dials, ds, now, send, [], none⟩ := by
  intro xs ended
  unfold passLog
  simp only [hl, hstep, ho]
  cases ended <;> simp [lastPoll]

/-! ## The refinement -/

/-- The passes of `run()` from its start. -/
abbrev wholePasses (ps : List WholePass) : State × List Made := passLogs ⟨false, .empty⟩ ps

/-- The calls so far are those of whole passes and the front of one more. -/
def Life.Follows (s : Life) : Prop :=
  ∃ ps, match s.control with
  | .wifi | .handle => wholePasses ps = (⟨false, s.pair⟩, s.log)
  | .connect => ∃ (dials : List Bool) (log : List Made), wholePasses ps = (⟨false, s.pair⟩, log) ∧
      s.log = log ++ dials.map failedDial
  | .listen | .check => ∃ (dials : List Bool) (ds : List Delivery) (h : History),
      listen ⟨true, (wholePasses ps).1.pair⟩ ds = (⟨true, s.pair⟩, h, false) ∧
      s.log = (wholePasses ps).2 ++ (opening (wholePasses ps).1 dials ++ h.map callMade)
  | .poll => ∃ front p, Polling (wholePasses ps).1 s.pair front p ∧ s.log = (wholePasses ps).2 ++ front
  | .push frame => ∃ front p, Polling (wholePasses ps).1 s.pair front p ∧
      s.log = (wholePasses ps).2 ++ (front ++ [.poll (.frame frame)])
  | .done | .interrupted | .crashed => s.log <+: (wholePasses ps).2

theorem wholePasses_snoc (ps : List WholePass) (p : WholePass) :
    wholePasses (ps ++ [p]) = ((passLog (wholePasses ps).1 p).1, (wholePasses ps).2 ++ (passLog (wholePasses ps).1 p).2) :=
  passLogs_snoc _ ps p

/-- What one more pass begins with. -/
theorem wholePasses_front {ps : List WholePass} {p : WholePass} {front : List Made}
    (h : front <+: (passLog (wholePasses ps).1 p).2) : (wholePasses ps).2 ++ front <+: (wholePasses (ps ++ [p])).2 := by
  rw [wholePasses_snoc]
  exact (List.prefix_append_right_inj _).2 h

theorem Polling.front {s : State} {pair : Pair} {front : List Made} {p : WholePass} (h : Polling s pair front p)
    (xs : List (Bytes × (Nat → SendVarResult))) :
    front ++ xs.flatMap pushed <+: (passLog s { p with pushes := p.pushes ++ xs, ended := none }).2 := by
  rw [h xs none]
  exact List.prefix_append _ _

theorem Life.Follows.front {s : Life} (h : s.Follows) : ∃ ps, s.log <+: (wholePasses ps).2 := by
  obtain ⟨ps, h⟩ := h
  cases hc : s.control <;> rw [hc] at h <;> dsimp only at h
  case wifi | handle => exact ⟨ps, congrArg Prod.snd h ▸ List.prefix_refl _⟩
  case connect =>
    obtain ⟨dials, log, hps, hlog⟩ := h
    refine ⟨ps ++ [⟨dials, [], 0, .ok, [], none⟩], ?_⟩
    have hfront := wholePasses_front (passLog_front (wholePasses ps).1 ⟨dials, [], 0, .ok, [], none⟩)
    refine List.IsPrefix.trans ?_ hfront
    rw [hlog, hps]
    simp [opening, List.append_assoc]
  case listen | check =>
    obtain ⟨dials, ds, k, hl, hlog⟩ := h
    have hfront := passLog_front (wholePasses ps).1 ⟨dials, ds, 0, .ok, [], none⟩
    rw [hl] at hfront
    exact ⟨_, hlog ▸ wholePasses_front hfront⟩
  case poll =>
    obtain ⟨front, p, hp, hlog⟩ := h
    have hfront := hp.front []
    rw [List.flatMap_nil, List.append_nil] at hfront
    exact ⟨_, hlog ▸ wholePasses_front hfront⟩
  case push frame =>
    obtain ⟨front, p, hp, hlog⟩ := h
    have hfront := hp.front [(frame, fun _ => .returned true)]
    refine ⟨_, hlog ▸ wholePasses_front (List.IsPrefix.trans ?_ hfront)⟩
    exact (List.prefix_append_right_inj _).2 (List.prefix_append _ [_])
  case done | interrupted | crashed => exact ⟨ps, h⟩

/-- A call over a socket that is up returns, or it raises and the handler has the socket. -/
theorem Life.call_up (wss : Bool) {s : Life} (hb : Buffered ⟨true, s.pair⟩) (hheld : s.held.isSome) {e : Event}
    (hsock : e.sock = true) (next : Control) :
    let r := step ⟨true, s.pair⟩ e
    let t := s.call wss e next
    t.pair = r.1.pair ∧ t.log = s.log ++ [.call e r.2] ∧
      ((r.1 = ⟨true, r.1.pair⟩ ∧ raises r.2 = false ∧ t.control = next) ∨ (raises r.2 = true ∧ t.control = .handle)) := by
  intro r t
  have ht : t = s.call wss e next := rfl
  unfold Life.call at ht
  rw [hheld] at ht
  dsimp only at ht
  rcases step_ending hb hsock with ⟨hup, hending⟩ | ⟨hdown, hending⟩
  · rw [hending, if_pos hup] at ht
    rw [ht]
    exact ⟨rfl, rfl, .inl ⟨congrArg (State.mk · _) hup, raises_of_ending.1 hending, rfl⟩⟩
  · rw [hending, hdown] at ht
    rw [ht]
    exact ⟨rfl, rfl, .inr ⟨raises_of_ending.2 hending, rfl⟩⟩

section Next
variable {wss : Bool} {s : Life}

/-- Between two passes, without a socket. -/
theorem Life.Follows.pass_down {ps : List WholePass} (h : wholePasses ps = (⟨false, s.pair⟩, s.log)) (hnone : s.held = none) :
    s.pass.Follows := by
  have hpass : s.pass = { s with control := .connect } := by simp [Life.pass, hnone]
  rw [hpass]
  exact ⟨ps, [], s.log, h, (List.append_nil _).symm⟩

theorem Life.Follows.dial (h : s.Follows) (hc : s.control = .connect) (d : Dial) : (s.dial d).Follows := by
  obtain ⟨ps, h⟩ := h
  rw [hc] at h
  obtain ⟨dials, log, hps, hlog⟩ := h
  have hfailed (late : Bool) : s.log ++ [failedDial late] = log ++ (dials ++ [late]).map failedDial := by
    rw [hlog, List.map_append, List.append_assoc]
    rfl
  cases d with
  | connected =>
    refine ⟨ps, dials, [], [], ?_, ?_⟩
    · rw [hps]
      rfl
    · rw [hps, Life.dial, hlog]
      simp [opening]
  | failedEarly =>
    refine ⟨ps, ?_⟩
    rw [show (s.dial .failedEarly).control = .connect from hc]
    exact ⟨dials ++ [false], log, hps, hfailed false⟩
  | failedLate =>
    refine ⟨ps, ?_⟩
    rw [show (s.dial .failedLate).control = .connect from hc]
    exact ⟨dials ++ [true], log, hps, hfailed true⟩

/-- A call of `on_var`: the pass goes on, or it has raised and the pass is over. -/
theorem Life.Follows.onVar (h : s.Follows) (hb : Buffered ⟨true, s.pair⟩) (hheld : s.held.isSome) (hc : s.control = .listen)
    (d : Delivery) : (s.call wss ⟨.onVar d.typeId d.name8 d.data, d.now, d.send, true⟩ .listen).Follows := by
  obtain ⟨ps, h⟩ := h
  rw [hc] at h
  obtain ⟨dials, ds, k, hl, hlog⟩ := h
  have hsnoc := listen_snoc hl d
  obtain ⟨hpair, hlog', hcase⟩ := Life.call_up wss hb hheld
    (e := ⟨.onVar d.typeId d.name8 d.data, d.now, d.send, true⟩) rfl .listen
  dsimp only at hsnoc
  have hmade : ∀ (e : Event) (o : Option Output), s.log ++ [Made.call e o] =
      (wholePasses ps).2 ++ (opening (wholePasses ps).1 dials ++ (k ++ [(e, o)]).map callMade) := by
    intro e o
    rw [hlog, List.map_append]
    simp only [List.append_assoc]
    rfl
  rcases hcase with ⟨hup, hraises, hcontrol⟩ | ⟨hraises, hcontrol⟩
  · refine ⟨ps, ?_⟩
    rw [hcontrol, hpair, hlog', hmade]
    rw [hraises, hup] at hsnoc
    exact ⟨dials, ds ++ [d], _, hsnoc, rfl⟩
  · refine ⟨ps ++ [⟨dials, ds ++ [d], 0, .ok, [], none⟩], ?_⟩
    rw [hraises] at hsnoc
    rw [hcontrol, hpair, hlog', hmade]
    dsimp only
    rw [wholePasses_snoc, passLog_raised (p := ⟨dials, ds ++ [d], 0, .ok, [], none⟩) hsnoc]

/-- The timeout check: the polls begin, or it has raised and the pass is over. -/
theorem Life.Follows.check (h : s.Follows) (hb : Buffered ⟨true, s.pair⟩) (hheld : s.held.isSome) (hc : s.control = .check)
    (now : Nat) (send : Send) : (s.call wss ⟨.check, now, send, true⟩ .poll).Follows := by
  obtain ⟨ps, h⟩ := h
  rw [hc] at h
  obtain ⟨dials, ds, k, hl, hlog⟩ := h
  obtain ⟨hpair, hlog', hcase⟩ := Life.call_up wss hb hheld (e := ⟨.check, now, send, true⟩) rfl .poll
  rcases hcase with ⟨hup, hraises, hcontrol⟩ | ⟨hraises, hcontrol⟩
  · refine ⟨ps, ?_⟩
    rw [hcontrol, hpair, hlog', hlog]
    exact ⟨_, _, polling_start dials hl (Prod.ext hup rfl) hraises, by simp [List.append_assoc]⟩
  · refine ⟨ps ++ [⟨dials, ds, now, send, [], none⟩], ?_⟩
    rw [hcontrol, hpair, hlog', hlog]
    dsimp only
    rw [wholePasses_snoc, passLog_check_raised (p := ⟨dials, ds, now, send, [], none⟩) hl hraises]
    simp only [List.append_assoc]

theorem Life.Follows.poll (h : s.Follows) (hheld : s.held.isSome) (hc : s.control = .poll) (r : Polled) :
    (s.poll wss r).Follows := by
  obtain ⟨ps, h⟩ := h
  rw [hc] at h
  obtain ⟨front, p, hp, hlog⟩ := h
  have hended (ended : Option Bool) : wholePasses (ps ++ [{ p with ended }]) =
      (⟨ended.isNone, s.pair⟩, s.log ++ [.poll (lastPoll ended)]) := by
    have hlast := hp [] ended
    rw [List.append_nil] at hlast
    rw [wholePasses_snoc, hlast, hlog]
    simp
  cases r with
  | nothing =>
    have hnext : s.poll wss .nothing = { s with log := s.log ++ [.poll .nothing], control := .listen } := by
      have hne : s.held ≠ none := Option.isSome_iff_ne_none.1 hheld
      simp [Life.poll, Life.pass, hne]
    rw [hnext]
    refine ⟨ps ++ [{ p with ended := none }], [], [], [], ?_, ?_⟩
    · rw [hended]
      rfl
    · rw [hended]
      simp [opening, lastPoll]
  | frame frame => exact ⟨ps, front, p, hp, by rw [← List.append_assoc, ← hlog]; rfl⟩
  | raised sawEnd =>
    refine ⟨ps ++ [{ p with ended := some sawEnd }], ?_⟩
    rw [show (s.poll wss (.raised sawEnd)).control = .handle from rfl]
    exact hended (some sawEnd)

theorem Life.Follows.push {frame : Bytes} (h : s.Follows) (hc : s.control = .push frame) (env : Nat → SendVarResult) :
    Life.Follows { s with control := .poll, log := s.log ++ [.push frame (pushPaginatedReply env frame).2] } := by
  obtain ⟨ps, h⟩ := h
  rw [hc] at h
  obtain ⟨front, p, hp, hlog⟩ := h
  refine ⟨ps, _, _, hp.push (frame, env), ?_⟩
  simp [hlog, pushed]

theorem Life.Follows.interrupt (h : s.Follows) (late : Bool) : (s.interrupt wss late).Follows := by
  obtain ⟨ps, hfront⟩ := h.front
  unfold Life.interrupt
  cases hc : s.control with
  | connect =>
    dsimp only
    split <;> exact ⟨ps, hfront⟩
  | wifi | listen | check | poll | push | handle => exact ⟨ps, hfront⟩
  | done | interrupted | crashed => exact h

theorem Life.Inv.up (hI : s.Inv) (hup : s.control.Up) : s.held.isSome := by
  obtain ⟨-, id, hheld, -⟩ := hI.safe.up hup
  rw [hheld]
  rfl

theorem Life.Follows.next (hI : s.Inv) (h : s.Follows) (e : Happens) : (s.next wss e).Follows := by
  have hsafe := hI.safe
  unfold Life.Safe at hsafe
  have hpass : (s.control = .wifi ∨ s.control = .handle) → s.pass.Follows := by
    intro hc
    obtain ⟨ps, h⟩ := h
    rcases hc with hc | hc <;> rw [hc] at h hsafe <;> exact .pass_down h hsafe.2
  unfold Life.next
  cases e with
  | wifi ok =>
    dsimp only
    split
    · rename_i hc
      exact hpass (.inl hc.1)
    · exact h
  | dial d =>
    dsimp only
    split
    · exact h.dial ‹_› d
    · exact h
  | onVar typeId name8 data now send =>
    dsimp only
    split
    · rename_i hc
      have hheld := hI.up (by rw [hc]; trivial)
      rw [hheld]
      exact h.onVar hI.buffered hheld hc ⟨typeId, name8, data, now, send⟩
    · exact h
  | listened =>
    dsimp only
    split
    · rename_i hc
      obtain ⟨ps, h⟩ := h
      rw [hc] at h
      exact ⟨ps, h⟩
    · exact h
  | check now send =>
    dsimp only
    split
    · rename_i hc
      have hheld := hI.up (by rw [hc]; trivial)
      rw [hheld]
      exact h.check hI.buffered hheld hc now send
    · exact h
  | poll r =>
    dsimp only
    split
    · rename_i hc
      exact h.poll (hI.up (by rw [hc]; trivial)) hc r
    · exact h
  | push env =>
    dsimp only
    split
    · exact h.push ‹_› env
    · exact h
  | isconnected ok =>
    dsimp only
    split
    · rename_i hc
      split
      · exact hpass (.inr hc)
      · obtain ⟨ps, h⟩ := h
        rw [hc] at h
        exact ⟨ps, h⟩
    · exact h
  | interrupt late => exact h.interrupt late

/-- The buffer is what the calls of the log leave. -/
theorem Life.paired_next (h : RunsTo ⟨false, .empty⟩ (callsOf s.log) s.pair) (e : Happens) :
    RunsTo ⟨false, .empty⟩ (callsOf (s.next wss e).log) (s.next wss e).pair := by
  have hcall (e : Event) (next : Control) :
      RunsTo ⟨false, .empty⟩ (callsOf (s.call wss e next).log) (s.call wss e next).pair := by
    have hone : RunsTo ⟨false, .empty⟩ (callsOf s.log ++ [(e, (step ⟨s.held.isSome, s.pair⟩ e).2)])
        (step ⟨s.held.isSome, s.pair⟩ e).1.pair := h.append (runsTo_one ⟨s.held.isSome, s.pair⟩ e)
    have hsame : (s.call wss e next).pair = (step ⟨s.held.isSome, s.pair⟩ e).1.pair ∧
        (s.call wss e next).log = s.log ++ [.call e (step ⟨s.held.isSome, s.pair⟩ e).2] := by
      unfold Life.call
      dsimp only
      split <;> split <;> exact ⟨rfl, rfl⟩
    rw [hsame.1, hsame.2, callsOf_append]
    exact hone
  have hkeeps : ∀ {t : Life}, t.pair = s.pair → callsOf t.log = callsOf s.log →
      RunsTo ⟨false, .empty⟩ (callsOf t.log) t.pair := by
    intro t hpair hlog
    rw [hpair, hlog]
    exact h
  have hlogged (m : Made) (hm : m.called = none) : callsOf (s.log ++ [m]) = callsOf s.log := by
    simp [callsOf, hm]
  unfold Life.next
  cases e with
  | onVar typeId name8 data now send =>
    dsimp only
    split
    · exact hcall _ _
    · exact h
  | check now send =>
    dsimp only
    split
    · exact hcall _ _
    · exact h
  | dial d =>
    dsimp only
    split
    · exact hkeeps (by cases d <;> rfl) (by cases d <;> exact hlogged _ rfl)
    · exact h
  | poll r =>
    dsimp only
    split
    · exact hkeeps (by cases r <;> rfl) (by cases r <;> exact hlogged _ rfl)
    · exact h
  | push env =>
    dsimp only
    split
    · exact hkeeps rfl (hlogged _ rfl)
    · exact h
  | interrupt late =>
    unfold Life.interrupt
    cases s.control with
    | connect => cases late <;> exact h
    | wifi | listen | check | poll | push | handle | done | interrupted | crashed => exact h
  | wifi ok | listened | isconnected ok =>
    dsimp only
    repeat' split
    all_goals exact h

end Next

end CalcBridge.Bridge
