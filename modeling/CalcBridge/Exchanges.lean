import CalcBridge.Transfer
/-!
# What reaches `on_var`

`listen_loop` over any stream of `recv_packet` results and any pattern of
`send_packet` results. An exchange is a stretch of the trace of receives and
sends. One turn of the loop leaves one of a few short traces (`Turn`), and only
the last of them is an exchange.
-/
open LinkLib

namespace CalcBridge.Transfer

/-- A receive or a send, and how it ended. -/
inductive Ev where
  | got (p : Option Packet)
  | sent (p : Packet) (ok : Bool)
  deriving DecidableEq, Repr

/-- The results of the receives of a trace. -/
def gots (tr : List Ev) : List (Option Packet) :=
  tr.filterMap fun | .got p => some p | .sent _ _ => none

/-- The results of the sends of a trace. -/
def sents (tr : List Ev) : List Bool :=
  tr.filterMap fun | .got _ => none | .sent _ ok => some ok

theorem gots_snoc_got (tr : List Ev) (p : Option Packet) : gots (tr ++ [.got p]) = gots tr ++ [p] := List.filterMap_append

theorem gots_snoc_sent (tr : List Ev) (p : Packet) (ok : Bool) : gots (tr ++ [.sent p ok]) = gots tr := by
  simp [gots]

theorem sents_snoc_got (tr : List Ev) (p : Option Packet) : sents (tr ++ [.got p]) = sents tr := by
  simp [sents]

theorem sents_snoc_sent (tr : List Ev) (p : Packet) (ok : Bool) : sents (tr ++ [.sent p ok]) = sents tr ++ [ok] :=
  List.filterMap_append

/-- The list is the start of the stream `f`. -/
def Starts {α : Type} (f : Nat → α) (l : List α) : Prop := l = (List.range l.length).map f

theorem Starts.snoc {α : Type} {f : Nat → α} {l : List α} (h : Starts f l) : Starts f (l ++ [f l.length]) := by
  rw [Starts, List.length_append, List.length_singleton, List.range_succ, List.map_append, ← h]
  rfl

/-- A trace whose `n`th receive gave `recvs n` and whose `n`th send gave `sends n`. -/
structure Tape (recvs : Nat → Option Packet) (sends : Nat → Bool) where
  trace : List Ev
  gots_starts : Starts recvs (gots trace)
  sents_starts : Starts sends (sents trace)

section Tape
variable {recvs : Nat → Option Packet} {sends : Nat → Bool}

/-- Nothing received and nothing sent yet. -/
def Tape.blank : Tape recvs sends := ⟨[], rfl, rfl⟩

def Tape.recv (t : Tape recvs sends) : Option Packet × Tape recvs sends :=
  let p := recvs (gots t.trace).length
  (p, {
    trace := t.trace ++ [.got p]
    gots_starts := by rw [gots_snoc_got]; exact t.gots_starts.snoc
    sents_starts := by rw [sents_snoc_got]; exact t.sents_starts })

def Tape.send (p : Packet) (t : Tape recvs sends) : Bool × Tape recvs sends :=
  let ok := sends (sents t.trace).length
  (ok, {
    trace := t.trace ++ [.sent p ok]
    gots_starts := by rw [gots_snoc_sent]; exact t.gots_starts
    sents_starts := by rw [sents_snoc_sent]; exact t.sents_starts.snoc })

def tapeLink (recvs : Nat → Option Packet) (sends : Nat → Bool) : Link (Tape recvs sends) := ⟨fun _ t => t.recv, Tape.send⟩

end Tape

/-- The packet with command `cmd` and no body that answers `o`. -/
def answerTo (o : Packet) (cmd : UInt8) : Packet := ⟨pcIdFor o.machine, cmd, []⟩

/-! ## Exchanges in a trace -/

/-- The opener, the ACK and the DATA packet of a completed exchange. -/
def IsExchange (o a d : Packet) : Prop :=
  (o.cmd = Cmd.rts ∨ o.cmd = Cmd.var) ∧ 11 ≤ o.data.length ∧ a.cmd = Cmd.ack ∧ d.cmd = Cmd.data

instance (o a d : Packet) : Decidable (IsExchange o a d) := inferInstanceAs (Decidable (_ ∧ _))

/-- The variable of the exchange that the trace starts with: an opener answered
by an ACK and a CTS, an ACK, the DATA packet, and its ACK. -/
def exchangeAt : List Ev → Option Variable
  | .got (some o) :: .sent p true :: .sent q true :: .got (some a) :: .got (some d) :: .sent r true :: _ =>
    if IsExchange o a d ∧ p = answerTo o Cmd.ack ∧ q = answerTo o Cmd.cts ∧ r = answerTo o Cmd.ack then
      some (variableOf o.data d.data)
    else none
  | _ => none

/-- The variables of all exchanges of a trace, wherever they start. -/
def exchanges (tr : List Ev) : List Variable := tr.tails.filterMap exchangeAt

theorem exchanges_cons (e : Ev) (tr : List Ev) :
    exchanges (e :: tr) = (exchangeAt (e :: tr)).toList ++ exchanges tr := by
  change List.filterMap exchangeAt ((e :: tr) :: tr.tails) = _
  rw [List.filterMap_cons]
  cases exchangeAt (e :: tr) <;> rfl

/-- Nothing starts at a send. -/
@[simp] theorem exchanges_sent (p : Packet) (ok : Bool) (tr : List Ev) : exchanges (.sent p ok :: tr) = exchanges tr := by
  rw [exchanges_cons]
  rfl

/-- The shape of a trace that an exchange starts. -/
theorem exchangeAt_eq_some {tr : List Ev} {v : Variable} (h : exchangeAt tr = some v) :
    ∃ o a d rest, IsExchange o a d ∧ v = variableOf o.data d.data ∧
      tr = .got (some o) :: .sent (answerTo o Cmd.ack) true :: .sent (answerTo o Cmd.cts) true :: .got (some a) ::
        .got (some d) :: .sent (answerTo o Cmd.ack) true :: rest := by
  unfold exchangeAt at h
  split at h
  · rename_i o p q a d r rest
    split at h
    · rename_i hex
      obtain ⟨hex, rfl, rfl, rfl⟩ := hex
      cases h
      exact ⟨o, a, d, rest, hex, rfl, rfl⟩
    · cases h
  · cases h

/-- Where no exchange starts. -/
theorem exchanges_skip {e : Ev} {tr : List Ev}
    (h : ∀ o a d rest, IsExchange o a d → e :: tr ≠ .got (some o) :: .sent (answerTo o Cmd.ack) true ::
      .sent (answerTo o Cmd.cts) true :: .got (some a) :: .got (some d) :: .sent (answerTo o Cmd.ack) true :: rest) :
    exchanges (e :: tr) = exchanges tr := by
  rw [exchanges_cons]
  cases hat : exchangeAt (e :: tr) with
  | none => rfl
  | some v =>
    obtain ⟨o, a, d, rest, hex, -, heq⟩ := exchangeAt_eq_some hat
    exact absurd heq (h o a d rest hex)

/-- A trace that does not go on with a send. -/
def NoSend (tr : List Ev) : Prop := ∀ p ok rest, tr ≠ .sent p ok :: rest

theorem NoSend.got (p : Option Packet) (tr : List Ev) : NoSend (.got p :: tr) := nofun

/-- Nothing starts at a receive that no send follows. -/
theorem exchanges_got {p : Option Packet} {tr : List Ev} (h : NoSend tr) : exchanges (.got p :: tr) = exchanges tr := by
  apply exchanges_skip
  intro o a d rest _ heq
  exact h _ _ _ (List.cons.inj heq).2

/-- Nor at a receive that one send follows. -/
theorem exchanges_got_sent {p : Option Packet} {q : Packet} {ok : Bool} {tr : List Ev} (h : NoSend tr) :
    exchanges (.got p :: .sent q ok :: tr) = exchanges tr := by
  rw [← exchanges_sent q ok tr]
  apply exchanges_skip
  intro o a d rest _ heq
  exact h _ _ _ (List.cons.inj (List.cons.inj heq).2).2

/-! ## One turn -/

/-- What one turn of `listen_loop`, without filters and without `on_req`,
leaves in the trace, and what it heard. -/
inductive Turn : List Ev → Heard → Prop where
  | silence : Turn [.got none] .silence
  | noOpener {o} (ok : Bool) (h : o.cmd ≠ Cmd.rts ∧ o.cmd ≠ Cmd.var) :
      Turn [.got (some o), .sent (answerTo o Cmd.ack) ok] .handled
  | ackFailed {o} : Turn [.got (some o), .sent (answerTo o Cmd.ack) false] .handled
  | ctsFailed {o} :
      Turn [.got (some o), .sent (answerTo o Cmd.ack) true, .sent (answerTo o Cmd.cts) false] .handled
  | noAck {o a} (h : ∀ p, a = some p → p.cmd ≠ Cmd.ack) :
      Turn [.got (some o), .sent (answerTo o Cmd.ack) true, .sent (answerTo o Cmd.cts) true, .got a] .handled
  | noData {o a d} (h : ∀ p, d = some p → p.cmd ≠ Cmd.data) :
      Turn [.got (some o), .sent (answerTo o Cmd.ack) true, .sent (answerTo o Cmd.cts) true, .got (some a), .got d] .handled
  | dataAckFailed {o a d} :
      Turn [.got (some o), .sent (answerTo o Cmd.ack) true, .sent (answerTo o Cmd.cts) true, .got (some a), .got (some d),
        .sent (answerTo o Cmd.ack) false] .handled
  | shortHeader {o a d x} (h : o.data.length < 11) :
      Turn [.got (some o), .sent (answerTo o Cmd.ack) true, .sent (answerTo o Cmd.cts) true, .got (some a), .got (some d),
        .sent (answerTo o Cmd.ack) true, .got x] .handled
  | call {o a d x} (h : IsExchange o a d) :
      Turn [.got (some o), .sent (answerTo o Cmd.ack) true, .sent (answerTo o Cmd.cts) true, .got (some a), .got (some d),
        .sent (answerTo o Cmd.ack) true, .got x] (.call (variableOf o.data d.data))

/-- The call of `on_var` that a turn ends with. -/
def Heard.calls : Heard → List Variable
  | .call v => [v]
  | _ => []

section Tape
variable {recvs : Nat → Option Packet} {sends : Nat → Bool}

theorem ifSent_tape {β : Type} (fail : β) (p : Packet) (t : Tape recvs sends)
    (next : Tape recvs sends → β × Tape recvs sends) :
    (∃ t', t'.trace = t.trace ++ [.sent p false] ∧ ifSent fail ((tapeLink recvs sends).send p t) next = (fail, t')) ∨
    ∃ t', t'.trace = t.trace ++ [.sent p true] ∧ ifSent fail ((tapeLink recvs sends).send p t) next = next t' := by
  obtain ⟨ok, t', hsend, htrace⟩ :
      ∃ ok t', (tapeLink recvs sends).send p t = (ok, t') ∧ t'.trace = t.trace ++ [.sent p ok] :=
    ⟨_, _, rfl, rfl⟩
  rw [hsend]
  cases ok with
  | false => exact .inl ⟨t', htrace, rfl⟩
  | true => exact .inr ⟨t', htrace, rfl⟩

theorem ifGot_tape {β : Type} (fail : β) (ms : Nat) (t : Tape recvs sends)
    (next : Packet → Tape recvs sends → β × Tape recvs sends) :
    (∃ t', t'.trace = t.trace ++ [.got none] ∧ ifGot fail ((tapeLink recvs sends).recv ms t) next = (fail, t')) ∨
    ∃ p t', t'.trace = t.trace ++ [.got (some p)] ∧ ifGot fail ((tapeLink recvs sends).recv ms t) next = next p t' := by
  obtain ⟨x, t', hrecv, htrace⟩ : ∃ x t', (tapeLink recvs sends).recv ms t = (x, t') ∧ t'.trace = t.trace ++ [.got x] :=
    ⟨_, _, rfl, rfl⟩
  rw [hrecv]
  cases x with
  | none => exact .inl ⟨t', htrace, rfl⟩
  | some p => exact .inr ⟨p, t', htrace, rfl⟩

/-- What `_finish_recv_after_first_pkt` leaves in the trace behind opener `o`:
a part of a handshake, or all of it. -/
theorem finishRecv_tape {o : Packet} (ho : o.cmd = Cmd.rts ∨ o.cmd = Cmd.var) (ms : Nat) (t : Tape recvs sends) :
    (∃ seg t', finishRecvAfterFirstPkt (tapeLink recvs sends) o.machine o.cmd o.data ms t = (none, t') ∧
      t'.trace = t.trace ++ seg ∧ Turn (.got (some o) :: seg) .handled) ∨
    ∃ a d x t', a.cmd = Cmd.ack ∧ d.cmd = Cmd.data ∧
      finishRecvAfterFirstPkt (tapeLink recvs sends) o.machine o.cmd o.data ms t = (some (o.data, d.data), t') ∧
      t'.trace = t.trace ++ [.sent (answerTo o Cmd.ack) true, .sent (answerTo o Cmd.cts) true, .got (some a), .got (some d),
        .sent (answerTo o Cmd.ack) true, .got x] := by
  unfold finishRecvAfterFirstPkt
  dsimp only
  rw [if_neg (by tauto)]
  -- Each send and each receive either ends the turn or adds one entry.
  rcases ifSent_tape none (answerTo o Cmd.ack) t _ with ⟨t₁, h₁, h⟩ | ⟨t₁, h₁, h⟩ <;> rw [answerTo] at h <;> rw [h]
  · exact .inl ⟨_, t₁, rfl, h₁, .ackFailed⟩
  rcases ifSent_tape none (answerTo o Cmd.cts) t₁ _ with ⟨t₂, h₂, h⟩ | ⟨t₂, h₂, h⟩ <;> rw [answerTo] at h <;> rw [h] <;>
    rw [h₁, List.append_assoc] at h₂
  · exact .inl ⟨_, t₂, rfl, h₂, .ctsFailed⟩
  rcases ifGot_tape none ms t₂ _ with ⟨t₃, h₃, h⟩ | ⟨a, t₃, h₃, h⟩ <;> rw [h] <;> rw [h₂, List.append_assoc] at h₃
  · exact .inl ⟨_, t₃, rfl, h₃, .noAck nofun⟩
  by_cases ha : a.cmd = Cmd.ack
  swap
  · rw [if_pos ha]
    exact .inl ⟨_, t₃, rfl, h₃, .noAck fun p hp => Option.some.inj hp ▸ ha⟩
  rw [if_neg (not_not.2 ha)]
  rcases ifGot_tape none ms t₃ _ with ⟨t₄, h₄, h⟩ | ⟨d, t₄, h₄, h⟩ <;> rw [h] <;> rw [h₃, List.append_assoc] at h₄
  · exact .inl ⟨_, t₄, rfl, h₄, .noData nofun⟩
  by_cases hd : d.cmd = Cmd.data
  swap
  · rw [if_pos hd]
    exact .inl ⟨_, t₄, rfl, h₄, .noData fun p hp => Option.some.inj hp ▸ hd⟩
  rw [if_neg (not_not.2 hd)]
  rcases ifSent_tape none (answerTo o Cmd.ack) t₄ _ with ⟨t₅, h₅, h⟩ | ⟨t₅, h₅, h⟩ <;> rw [answerTo] at h <;> rw [h] <;>
    rw [h₄, List.append_assoc] at h₅
  · exact .inl ⟨_, t₅, rfl, h₅, .dataAckFailed⟩
  refine .inr ⟨a, d, t₅.recv.1, t₅.recv.2, ha, hd, rfl, ?_⟩
  change t₅.trace ++ [.got t₅.recv.1] = _
  rw [h₅, List.append_assoc]
  rfl

/-- One turn, from any tape. -/
theorem listenIter_turn (ms : Nat) (t : Tape recvs sends) :
    ∃ seg heard t', listenIter (tapeLink recvs sends) (unfiltered none ms) t = (heard, t') ∧ t'.trace = t.trace ++ seg ∧
      Turn seg heard := by
  unfold listenIter
  rcases ifGot_tape Heard.silence _ t _ with ⟨t₁, h₁, h⟩ | ⟨o, t₁, h₁, h⟩ <;> rw [h]
  · exact ⟨_, _, t₁, rfl, h₁, Turn.silence⟩
  have hnone : (if o.cmd = Cmd.req then (unfiltered none ms).onReq else none) = none := ite_self _
  rw [hnone]
  dsimp only
  by_cases ho : o.cmd ≠ Cmd.rts ∧ o.cmd ≠ Cmd.var
  · -- An RDY and an unknown opener are answered alike.
    rw [if_pos ho, ite_self]
    refine ⟨_, _, _, rfl, ?_, .noOpener (t₁.send (answerTo o Cmd.ack)).1 ho⟩
    change t₁.trace ++ [.sent (answerTo o Cmd.ack) (t₁.send (answerTo o Cmd.ack)).1] = _
    rw [h₁, List.append_assoc]
    rfl
  have ho' : o.cmd = Cmd.rts ∨ o.cmd = Cmd.var := by tauto
  rw [if_neg (by rcases ho' with h | h <;> rw [h] <;> decide), if_neg ho]
  unfold takeVariable
  rcases finishRecv_tape ho' 10000 t₁ with ⟨seg, t₂, hfin, h₂, hturn⟩ | ⟨a, d, x, t₂, ha, hd, hfin, h₂⟩ <;> rw [hfin] <;>
    rw [h₁, List.append_assoc] at h₂
  · exact ⟨_, _, t₂, rfl, h₂, hturn⟩
  dsimp only
  by_cases hlen : o.data.length < 11
  · rw [if_pos hlen]
    exact ⟨_, _, t₂, rfl, h₂, .shortHeader hlen⟩
  · rw [if_neg hlen]
    exact ⟨_, _, t₂, rfl, h₂, .call ⟨ho', Nat.not_lt.1 hlen, ha, hd⟩⟩

end Tape

/-! ## Every turn but a completed one is no exchange -/

/-- In the trace of a turn and what comes after it, only the turn's own start
can be the start of an exchange. -/
theorem Turn.exchanges {seg : List Ev} {heard : Heard} (h : Turn seg heard) {rest : List Ev} (hrest : NoSend rest) :
    Transfer.exchanges (seg ++ rest) = heard.calls ++ Transfer.exchanges rest := by
  have hlast : ∀ p, Transfer.exchanges (.got p :: rest) = Transfer.exchanges rest := fun p => exchanges_got hrest
  have hdrain : ∀ d q x, Transfer.exchanges (.got d :: .sent q true :: .got x :: rest) = Transfer.exchanges rest :=
    fun d q x => (exchanges_got_sent (NoSend.got _ _)).trans (hlast x)
  cases h with
  | silence => exact hlast none
  | noOpener => exact exchanges_got_sent hrest
  | ackFailed => exact exchanges_got_sent hrest
  | ctsFailed =>
    refine (exchanges_skip ?_).trans (by simp [Heard.calls])
    rintro o a d rest - heq
    cases heq
  | noAck ha =>
    refine (exchanges_skip ?_).trans (by simp [Heard.calls, hlast])
    rintro o a d rest ⟨-, -, hack, -⟩ heq
    cases heq
    exact ha a rfl hack
  | noData hd =>
    refine (exchanges_skip ?_).trans (by simp [Heard.calls, hlast, exchanges_got (NoSend.got _ _)])
    rintro o a d rest ⟨-, -, -, hdata⟩ heq
    cases heq
    exact hd d rfl hdata
  | dataAckFailed =>
    refine (exchanges_skip ?_).trans (by simp [Heard.calls, exchanges_got (NoSend.got _ _), exchanges_got_sent hrest])
    rintro o a d rest - heq
    cases heq
  | shortHeader hlen =>
    refine (exchanges_skip ?_).trans (by simp [Heard.calls, exchanges_got (NoSend.got _ _), hdrain])
    rintro o a d rest ⟨-, hlong, -⟩ heq
    cases heq
    omega
  | @call o a d x hex =>
    refine (exchanges_cons _ _).trans (congrArg₂ (· ++ ·) ?_ ?_)
    · exact congrArg Option.toList (if_pos ⟨hex, rfl, rfl, rfl⟩)
    · simp [exchanges_got (NoSend.got _ _), hdrain]

theorem Turn.noSend {seg : List Ev} {heard : Heard} (h : Turn seg heard) (rest : List Ev) : NoSend (seg ++ rest) := by
  cases h <;> exact NoSend.got _ _

/-! ## The loop -/

/-- Each call of `listen_loop`, also one that goes on where an earlier one
stopped, calls `on_var` with the variables of the exchanges in the trace it
adds, in order, and with nothing else. -/
theorem on_var_exchanges (recvs : Nat → Option Packet) (sends : Nat → Bool) (ms fuel : Nat) (t : Tape recvs sends) :
    ∃ seg, (listenLoop (tapeLink recvs sends) (unfiltered none ms) fuel t).2.trace = t.trace ++ seg ∧ NoSend seg ∧
      (listenLoop (tapeLink recvs sends) (unfiltered none ms) fuel t).1 = exchanges seg := by
  induction fuel generalizing t with
  | zero => exact ⟨[], (List.append_nil _).symm, nofun, rfl⟩
  | succ fuel ih =>
    obtain ⟨seg, heard, t', hiter, htrace, hturn⟩ := listenIter_turn ms t
    obtain ⟨more, hgo, hmore, hcalls⟩ := ih t'
    have hsplit := hturn.exchanges hmore
    rw [htrace, List.append_assoc] at hgo
    rw [listenLoop, hiter]
    cases heard with
    | silence =>
      dsimp only
      split
      · cases hturn
        exact ⟨_, htrace, NoSend.got _ _, rfl⟩
      · exact ⟨seg ++ more, hgo, hturn.noSend more, hcalls.trans hsplit.symm⟩
    | handled => exact ⟨seg ++ more, hgo, hturn.noSend more, hcalls.trans hsplit.symm⟩
    | call v =>
      refine ⟨seg ++ more, hgo, hturn.noSend more, ?_⟩
      rw [hsplit, ← hcalls]
      rfl

/-- An RTS that is read where an EOT may come opens nothing. -/
example :
    let rts : Packet := ⟨0x73, Cmd.rts, [2, 0, 0x04, 0xAA, 0, 0, 0, 0, 0, 0, 0]⟩
    let recvs n := [rts, ⟨0x73, Cmd.ack, []⟩, ⟨0x73, Cmd.data, [7, 7]⟩, rts, ⟨0x73, Cmd.ack, []⟩][n]?
    (listenLoop (tapeLink recvs fun _ => true) (unfiltered none 500) 9 .blank).1 = [variableOf rts.data [7, 7]] := by
  rfl

end CalcBridge.Transfer
