import CalcBridge.LinkLib.Runs
import CalcBridge.Net.WsClient
/-!
# Closing the client (`src/net.py`, `WSClient.close`)

`close` returns at once when `_closed` is set, and only `close` releases the
socket. The parser sets the flag too, at the end of the stream and at a close
frame (`FindsEnd`), so a call that gets there is what keeps the socket open.
-/
open LinkLib LinkLib.Source LinkLib.Runs

namespace CalcBridge.Net

/-! ## The calls -/

/-- `_pump_until_data`, left alone after `steps` parser steps (`none`): the
loop sleeps and looks again while there is nothing to read. -/
def pumpUntilData : Nat → Client → Option (Except Raised Bool) × Client
  | steps, c =>
    if c.recvBuf ≠ [] then (some (.ok true), c)
    else match steps with
      | 0 => (none, c)
      | steps + 1 =>
        match pumpOneStep c with
        | (.ok .closed, c) => (some (.ok false), c)
        | (.ok _, c) => pumpUntilData steps c
        | (.error e, c) => (some (.error e), c)

/-- A blocking `recv`. -/
def recvBlocking (steps : Nat) (c : Client) (n : Nat) : Option (Except Raised (Option Bytes)) × Client :=
  if c.recvBuf ≠ [] then
    let r := takeRecv c n
    (some (.ok r.1), r.2)
  else if c.closed then (some (.ok (some [])), c)
  else match pumpUntilData steps c with
    | (some (.ok false), c) => (some (.ok (some [])), c)
    | (some (.ok true), c) =>
      let r := takeRecv c n
      (some (.ok r.1), r.2)
    | (some (.error e), c) => (some (.error e), c)
    | (none, c) => (none, c)

/-- A call on the client. A blocking `recv` is interrupted after `steps` parser
steps, if it has not ended by then. -/
inductive Call where
  | recv (n : Nat)
  | recvBlocking (n steps : Nat)
  | sendall (data : Bytes)
  deriving DecidableEq, Repr

/-- What a call returned or raised; `none` is an interrupted one. -/
inductive CallResult where
  | bytes (r : Option (Except Raised (Option Bytes)))
  | unit (r : Except Raised Unit)
  deriving DecidableEq

def Client.call (c : Client) : Call → Client × CallResult
  | .recv n => ((recv c n).2, .bytes (some (recv c n).1))
  | .recvBlocking n steps => ((recvBlocking steps c n).2, .bytes (recvBlocking steps c n).1)
  | .sendall data => ((sendall c data).2, .unit (sendall c data).1)

/-! ## Where the stream ends -/

def isClose (b1 : UInt8) : Prop := b1 &&& 0x80 ≠ 0 ∧ b1 &&& 0x0F = 0x8

/-- The next parser step reads the end of the stream, or completes a close frame. -/
def FindsEnd (c : Client) : Prop :=
  match c.frameState with
  | .hdr2 | .ext16 => (tryFill c 2).1 = .eof
  | .ext64 => (tryFill c 8).1 = .eof
  | .body =>
    if 0 < c.frameN then
      ∃ xs, (tryRead (c.frameN - c.frameBody.length) c.inp).1 = .chunk xs ∧
        (xs = [] ∨ (c.frameN ≤ (c.frameBody ++ xs).length ∧ isClose c.frameB1))
    else isClose c.frameB1

/-- Pumping from `c`, one of the first `steps` parser steps finds the end of the
stream. A blocking `recv` goes on when there was nothing to read. -/
inductive PumpsToEnd (blocking : Bool) : Nat → Client → Prop where
  | here {c : Client} {steps : Nat} (hbuf : c.recvBuf = []) (h : FindsEnd c) : PumpsToEnd blocking (steps + 1) c
  | next {c c' : Client} {steps : Nat} {p : Pump} (hbuf : c.recvBuf = []) (hstep : pumpOneStep c = (.ok p, c'))
      (hp : p = .progress ∨ (p = .noData ∧ blocking)) (h : PumpsToEnd blocking steps c') : PumpsToEnd blocking (steps + 1) c

/-- One of the call's parser steps finds the end of the stream. -/
def Client.ReachesEnd (c : Client) : Call → Prop
  | .recv _ => c.closed = false ∧ ∃ steps, PumpsToEnd false steps c
  | .recvBlocking _ steps => c.closed = false ∧ PumpsToEnd true steps c
  | .sendall _ => False

/-! ## One parser step -/

/-- The socket is left as it is, and the flag is set just when `E`. -/
structure Flags (c : Client) (E : Prop) (c' : Client) : Prop where
  sock : c'.sock.closed = c.sock.closed
  flag : c'.closed = true ↔ c.closed = true ∨ E

theorem Flags.of_eq {c c' : Client} {E : Prop} (hsock : c'.sock.closed = c.sock.closed) (hclosed : c'.closed = c.closed)
    (hE : ¬ E) : Flags c E c' :=
  ⟨hsock, by simp [hclosed, hE]⟩

theorem write_closed (s : Sock) (bs : Bytes) : (s.write bs).2.closed = s.closed := by
  unfold Sock.write
  split <;> rfl

theorem sendMessage_flags (c : Client) (payload : Bytes) (opcode : UInt8) :
    Flags c False (sendMessage c payload opcode).2 := by
  obtain ⟨sock, hc⟩ := sendMessage_frame c payload opcode
  refine .of_eq ?_ (by rw [hc]) id
  unfold sendMessage
  dsimp only
  split
  · rename_i hw
    rw [← write_closed c.sock _, hw]
  · rename_i hw
    split
    · rw [write_closed, ← write_closed c.sock _, hw]
    · rw [← write_closed c.sock _, hw]

/-- What a parser step does to the flags, and that it says so. -/
structure Ends (c : Client) (E : Prop) (r : Except Raised Pump × Client) : Prop extends Flags c E r.2 where
  result : r.1 = .ok .closed ↔ E

theorem Ends.keeps {c c' : Client} {E : Prop} {res : Except Raised Pump} (hsock : c'.sock.closed = c.sock.closed)
    (hclosed : c'.closed = c.closed) (hres : res ≠ .ok .closed) (hE : ¬ E) : Ends c E (res, c') :=
  ⟨.of_eq hsock hclosed hE, iff_of_false hres hE⟩

/-- The socket and the flag are all that counts of the state before. -/
theorem Ends.of_eq {c c₀ : Client} {E : Prop} {r : Except Raised Pump × Client} (h : Ends c₀ E r)
    (hsock : c₀.sock.closed = c.sock.closed) (hclosed : c₀.closed = c.closed) : Ends c E r :=
  ⟨⟨h.sock.trans hsock, by rw [h.flag, hclosed]⟩, h.result⟩

theorem handleFrame_ends (c : Client) (b1 : UInt8) (payload : Bytes) : Ends c (isClose b1) (handleFrame c b1 payload) := by
  unfold handleFrame isClose
  dsimp only
  split
  · rename_i hfin
    exact .keeps rfl rfl (by nofun) (by simp [hfin])
  · rename_i hfin
    split
    · rename_i h9
      have h := sendMessage_flags c payload 0xA
      refine ⟨⟨h.sock, by simpa [h9] using h.flag⟩, iff_of_false ?_ (by simp [h9])⟩
      cases (sendMessage c payload 0xA).1 <;> nofun
    · split
      · rename_i hA
        exact .keeps rfl rfl (by nofun) (by simp [hA])
      · split
        · rename_i h8
          exact ⟨⟨(sendMessage_flags c [] 0x8).sock, by simp [h8, hfin]⟩, by simp [h8, hfin]⟩
        · rename_i h8
          split
          · exact .keeps rfl rfl (by nofun) (by simp [h8])
          · exact .keeps rfl rfl (by nofun) (by simp [h8])

theorem stopped_ends (stop : Stop) (c : Client) : Ends c (stop = .eof) (stopped stop c) := by
  cases stop with
  | done => exact .keeps rfl rfl (by nofun) (by nofun)
  | none => exact .keeps rfl rfl (by nofun) (by nofun)
  | eof => exact ⟨⟨rfl, by simp [stopped]⟩, by simp [stopped]⟩
  | error e => exact .keeps rfl rfl (by nofun) (by nofun)

theorem startFrame_ends (c : Client) (hdr : Bytes) : Ends c False (startFrame c hdr) := by
  unfold startFrame
  dsimp only
  split
  · exact .keeps rfl rfl (by nofun) id
  · split
    · exact .keeps rfl rfl (by nofun) id
    · split
      · exact .keeps rfl rfl (by nofun) id
      · exact .keeps rfl rfl (by nofun) id

theorem startBody_ends (c : Client) (ext : Bytes) : Ends c False (startBody c ext) := .keeps rfl rfl (by nofun) id

theorem withFill_ends (c : Client) (n : Nat) {next : Client → Bytes → Except Raised Pump × Client}
    (hnext : ∀ c bs, Ends c False (next c bs)) : Ends c ((tryFill c n).1 = .eof) (withFill c n next) := by
  obtain ⟨taken, inp, hc, -⟩ := tryFill_spec c n
  unfold withFill
  cases hf : tryFill c n with
  | mk stop c' =>
    rw [hf] at hc
    obtain rfl : c' = { c with framePartial := some taken, inp := inp } := hc
    cases stop with
    | done =>
      have h := (hnext { c with framePartial := none, inp := inp } taken).of_eq (c := c) rfl rfl
      exact ⟨⟨h.sock, h.flag.trans (by simp)⟩, h.result.trans (by simp)⟩
    | none => exact (stopped_ends .none _).of_eq rfl rfl
    | eof => exact (stopped_ends .eof _).of_eq rfl rfl
    | error e => exact (stopped_ends (.error e) _).of_eq rfl rfl

theorem pump_ends (c : Client) : Ends c (FindsEnd c) (pumpOneStep c) := by
  unfold pumpOneStep FindsEnd
  cases c.frameState with
  | hdr2 => exact withFill_ends c 2 startFrame_ends
  | ext16 => exact withFill_ends c 2 startBody_ends
  | ext64 => exact withFill_ends c 8 startBody_ends
  | body =>
    dsimp only
    -- A body is read chunk by chunk, and only its last chunk completes the frame.
    split
    · cases tryRead (c.frameN - c.frameBody.length) c.inp with
      | mk r inp =>
        cases r with
        | none => exact .keeps rfl rfl (by nofun) (by simp)
        | error e => exact .keeps rfl rfl (by nofun) (by simp)
        | chunk xs =>
          dsimp only
          split
          · rename_i hnil
            exact ⟨⟨rfl, by simp [stopped, hnil]⟩, by simp [stopped, hnil]⟩
          · rename_i hne
            split
            · rename_i hmore
              refine .keeps rfl rfl (by nofun) ?_
              rintro ⟨ys, hys, hnil | ⟨hle, -⟩⟩ <;> cases hys
              · exact hne hnil
              · exact Nat.not_le_of_lt hmore hle
            · rename_i hdone
              have hE : isClose c.frameB1 ↔ ∃ ys, Read.chunk xs = Read.chunk ys ∧
                  (ys = [] ∨ (c.frameN ≤ (c.frameBody ++ ys).length ∧ isClose c.frameB1)) := by
                constructor
                · exact fun h => ⟨xs, rfl, .inr ⟨Nat.le_of_not_lt hdone, h⟩⟩
                · rintro ⟨ys, hys, hnil | ⟨-, h⟩⟩
                  · cases hys
                    exact absurd hnil hne
                  · exact h
              rw [← hE]
              exact (handleFrame_ends _ c.frameB1 _).of_eq rfl rfl
    · exact (handleFrame_ends c.reset c.frameB1 c.frameBody).of_eq rfl rfl

/-! ## One call -/

theorem PumpsToEnd.buf {blocking : Bool} {steps : Nat} {c : Client} (h : PumpsToEnd blocking steps c) : c.recvBuf = [] := by
  cases h with
  | here hbuf => exact hbuf
  | next hbuf => exact hbuf

/-- A step that goes on passes the question to the next one. -/
theorem pumpsToEnd_goes {blocking : Bool} {steps : Nat} {c c' : Client} {p : Pump} (hbuf : c.recvBuf = [])
    (hstep : pumpOneStep c = (.ok p, c')) (hp : p = .progress ∨ (p = .noData ∧ blocking)) :
    PumpsToEnd blocking (steps + 1) c ↔ PumpsToEnd blocking steps c' := by
  have hne : ¬ FindsEnd c := by
    rw [← (pump_ends c).result, hstep]
    rcases hp with rfl | ⟨rfl, -⟩ <;> nofun
  constructor
  · intro h
    cases h with
    | here _ hend => exact absurd hend hne
    | next _ hstep' _ h' =>
      rw [hstep] at hstep'
      cases hstep'
      exact h'
  · exact .next hbuf hstep hp

/-- A step that does not go on settles it. -/
theorem pumpsToEnd_stops {blocking : Bool} {steps : Nat} {c c' : Client} {r : Except Raised Pump} (hbuf : c.recvBuf = [])
    (hstep : pumpOneStep c = (r, c')) (hr : r ≠ .ok .progress) (hr' : r = .ok .noData → blocking = false) :
    PumpsToEnd blocking (steps + 1) c ↔ FindsEnd c := by
  constructor
  · intro h
    cases h with
    | here _ hend => exact hend
    | next _ hstep' hp _ =>
      rw [hstep] at hstep'
      cases hstep'
      rcases hp with rfl | ⟨rfl, hb⟩
      · exact absurd rfl hr
      · rw [hr' rfl] at hb
        cases hb
  · exact .here hbuf

theorem exists_pumpsToEnd {blocking : Bool} {c : Client} :
    (∃ steps, PumpsToEnd blocking steps c) ↔ ∃ steps, PumpsToEnd blocking (steps + 1) c := by
  constructor
  · rintro ⟨steps, h⟩
    cases steps with
    | zero => cases h
    | succ steps => exact ⟨steps, h⟩
  · exact fun ⟨steps, h⟩ => ⟨steps + 1, h⟩

/-- What follows a step that goes on decides. -/
theorem Flags.of_goes {c c₁ c' : Client} {E E₁ : Prop} {p : Pump} (hstep : pumpOneStep c = (.ok p, c₁)) (hp : p ≠ .closed)
    (hE : E ↔ E₁) (h : Flags c₁ E₁ c') : Flags c E c' := by
  have hends := pump_ends c
  rw [hstep] at hends
  have hne : ¬ FindsEnd c := by
    rw [← hends.result]
    simpa using hp
  refine ⟨h.sock.trans hends.sock, ?_⟩
  rw [h.flag, hends.flag, hE]
  simp [hne]

theorem Flags.of_stops {c c' : Client} {E : Prop} {r : Except Raised Pump} (hstep : pumpOneStep c = (r, c'))
    (hE : E ↔ FindsEnd c) : Flags c E c' := by
  have hends := pump_ends c
  rw [hstep] at hends
  exact ⟨hends.sock, by rw [hE]; exact hends.flag⟩

theorem pumpUntilData_flags (steps : Nat) (c : Client) :
    Flags c (PumpsToEnd true steps c) (pumpUntilData steps c).2 := by
  induction steps generalizing c with
  | zero =>
    unfold pumpUntilData
    split
    · exact .of_eq rfl rfl nofun
    · exact .of_eq rfl rfl nofun
  | succ steps ih =>
    unfold pumpUntilData
    split
    · rename_i hbuf
      exact .of_eq rfl rfl fun h => hbuf h.buf
    · rename_i hbuf
      have hbuf : c.recvBuf = [] := Classical.not_not.1 hbuf
      dsimp only
      cases hstep : pumpOneStep c with
      | mk r c₁ =>
        cases r with
        | error e => exact .of_stops hstep (pumpsToEnd_stops hbuf hstep nofun nofun)
        | ok p =>
          cases p with
          | closed => exact .of_stops hstep (pumpsToEnd_stops hbuf hstep nofun nofun)
          | progress => exact .of_goes hstep nofun (pumpsToEnd_goes hbuf hstep (.inl rfl)) (ih c₁)
          | noData => exact .of_goes hstep nofun (pumpsToEnd_goes hbuf hstep (.inr ⟨rfl, rfl⟩)) (ih c₁)

theorem pumpUntil_flags (c : Client) : Flags c (∃ steps, PumpsToEnd false steps c) (pumpUntil c).2 := by
  rw [pumpUntil]
  split
  · rename_i hbuf
    refine .of_eq rfl rfl ?_
    rintro ⟨_, h⟩
    exact hbuf h.buf
  · rename_i hbuf
    have hbuf : c.recvBuf = [] := Classical.not_not.1 hbuf
    have hstop : ∀ {r c'}, pumpOneStep c = (r, c') → r ≠ .ok .progress →
        ((∃ steps, PumpsToEnd false steps c) ↔ FindsEnd c) := by
      intro r c' hstep hr
      have hstops : ∀ steps, PumpsToEnd false (steps + 1) c ↔ FindsEnd c := fun _ =>
        pumpsToEnd_stops hbuf hstep hr fun _ => rfl
      rw [exists_pumpsToEnd]
      simp only [hstops, exists_const]
    split
    · rename_i c' hstep
      refine .of_goes hstep (by simp) ?_ (pumpUntil_flags c')
      rw [exists_pumpsToEnd]
      exact exists_congr fun _ => pumpsToEnd_goes hbuf hstep (.inl rfl)
    · rename_i hstep
      exact .of_stops hstep (hstop hstep (by simp))
    · rename_i hstep
      exact .of_stops hstep (hstop hstep (by simp))
    · rename_i hstep
      exact .of_stops hstep (hstop hstep (by simp))
  termination_by c.todo
  decreasing_by exact pump_todo_lt ‹_›

theorem Flags.and_open {c c' : Client} {E : Prop} (hopen : c.closed = false) (h : Flags c E c') :
    Flags c (c.closed = false ∧ E) c' :=
  ⟨h.sock, by simpa [hopen] using h.flag⟩

theorem recv_flags (c : Client) (n : Nat) : Flags c (c.ReachesEnd (.recv n)) (recv c n).2 := by
  unfold recv
  split
  · rename_i hbuf
    exact .of_eq rfl rfl fun ⟨_, _, h⟩ => hbuf h.buf
  · split
    · rename_i hclosed
      refine .of_eq rfl rfl fun ⟨hopen, _⟩ => ?_
      rw [hclosed] at hopen
      cases hopen
    · rename_i hopen
      have h := (pumpUntil_flags c).and_open (Bool.eq_false_of_not_eq_true hopen)
      split <;> rename_i heq <;> rw [heq] at h <;> exact ⟨h.sock, h.flag⟩

theorem recvBlocking_flags (c : Client) (n steps : Nat) :
    Flags c (c.ReachesEnd (.recvBlocking n steps)) (recvBlocking steps c n).2 := by
  unfold recvBlocking
  split
  · rename_i hbuf
    exact .of_eq rfl rfl fun ⟨_, h⟩ => hbuf h.buf
  · split
    · rename_i hclosed
      refine .of_eq rfl rfl fun ⟨hopen, _⟩ => ?_
      rw [hclosed] at hopen
      cases hopen
    · rename_i hopen
      have h := (pumpUntilData_flags steps c).and_open (Bool.eq_false_of_not_eq_true hopen)
      split <;> rename_i heq <;> rw [heq] at h <;> exact ⟨h.sock, h.flag⟩

theorem Flags.trans {c c₁ c' : Client} (h : Flags c False c₁) (h' : Flags c₁ False c') : Flags c False c' :=
  ⟨h'.sock.trans h.sock, by rw [h'.flag, h.flag, or_false]⟩

theorem drain_flags (c : Client) : Flags c False (drain c).2 := by
  fun_induction drain c with
  | case1 c h4 total hshort => exact .of_eq rfl rfl id
  | case2 c h4 total hlen frame c' hsend ih =>
    have h := sendMessage_flags { c with sendBuf := c.sendBuf.drop total } frame 0x2
    rw [hsend] at h
    have h₀ : Flags c False c' := ⟨h.sock, h.flag⟩
    exact h₀.trans ih
  | case3 c h4 total hlen frame e c' hsend =>
    have h := sendMessage_flags { c with sendBuf := c.sendBuf.drop total } frame 0x2
    rw [hsend] at h
    exact ⟨h.sock, h.flag⟩
  | case4 c h4 => exact .of_eq rfl rfl id

theorem call_flags (c : Client) (call : Call) : Flags c (c.ReachesEnd call) (c.call call).1 := by
  cases call with
  | recv n => exact recv_flags c n
  | recvBlocking n steps => exact recvBlocking_flags c n steps
  | sendall data =>
    change Flags c False (sendall c data).2
    unfold sendall
    split
    · exact .of_eq rfl rfl id
    · obtain ⟨hsock, hflag⟩ := drain_flags { c with sendBuf := c.sendBuf ++ data }
      exact ⟨hsock, hflag⟩

/-! ## Whole runs -/

/-- A run leaves the socket open, and the flag clear as long as no call of it
finds the end of the stream. -/
theorem run_flags (c : Client) (calls : List Call) :
    Flags c (¬ Holds Client.call (fun c call => ¬ c.ReachesEnd call) c calls) (run Client.call c calls).1 := by
  induction calls generalizing c with
  | nil => exact .of_eq rfl rfl (not_not_intro trivial)
  | cons call calls ih =>
    obtain ⟨hsock, hflag⟩ := call_flags c call
    refine ⟨(ih _).sock.trans hsock, ?_⟩
    rw [run_cons, (ih _).flag, hflag, Holds, not_and_or, Classical.not_not, or_assoc]

theorem close_sock {c : Client} (h : c.sock.closed = false) : (close c).sock.closed = true ↔ ¬ c.closed = true := by
  unfold close
  split
  · rename_i hclosed
    simp [h, hclosed]
  · rename_i hopen
    simp [hopen]

/-- After any calls `close` releases the socket exactly when none of them found
the end of the stream. -/
theorem close_releases_iff (leftover : Bytes) (reads : List (Chunk UInt8)) (writes : List Write) (masks : Nat → WsFrame.Mask)
    (calls : List Call) :
    (close (run Client.call (Client.init leftover reads writes masks) calls).1).sock.closed = true ↔
      Holds Client.call (fun c call => ¬ c.ReachesEnd call) (Client.init leftover reads writes masks) calls := by
  obtain ⟨hsock, hflag⟩ := run_flags (Client.init leftover reads writes masks) calls
  rw [close_sock hsock, hflag]
  simp [Client.init]

/-- A `recv` at the end of the stream returns `b""`, and `close` does nothing after it. -/
theorem close_after_end {c : Client} (hbuf : c.recvBuf = []) (hopen : c.closed = false) (hend : FindsEnd c) (n : Nat) :
    (recv c n).1 = .ok (some []) ∧ (close (recv c n).2).sock.closed = c.sock.closed := by
  have hends := pump_ends c
  have hpump : pumpUntil c = (.ok .closed, (pumpOneStep c).2) := by
    have hres := hends.result.2 hend
    rw [pumpUntil, if_neg (by simp [hbuf])]
    split <;> rename_i heq <;> rw [heq] at hres ⊢ <;> cases hres
  have hrecv : recv c n = (.ok (some []), (pumpOneStep c).2) := by
    rw [recv, if_neg (by simp [hbuf]), if_neg (by simp [hopen]), hpump]
  rw [hrecv, close, if_pos (hends.flag.2 (.inr hend))]
  exact ⟨rfl, hends.sock⟩

/-- The server closes its side, `recv` says so, and `close` leaves the socket open. -/
theorem close_leaks :
    let c := Client.init [] [.data []] [] fun _ => ⟨[1, 2, 3, 4], rfl⟩
    (recv c 1).1 = .ok (some []) ∧ (close (recv c 1).2).sock.closed = false := by
  intro c
  have hfill : fill tryRead 2 [] c.inp = (.eof, [], c.inp) := fill_eof (by decide) rfl
  have heof : (tryFill c 2).1 = .eof := congrArg Prod.fst hfill
  exact close_after_end (c := c) rfl rfl heof 1

end CalcBridge.Net
