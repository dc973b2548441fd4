import CalcBridge.LinkLib.Source
import CalcBridge.LinkLib.WsFrame
/-!
# The WebSocket client (`src/net.py`, `WSClient`)

The client parses server frames from whatever the socket has (`pumpOneStep`,
`recv`) and ships one message for each complete bridge frame written to it
(`sendall`). It runs in non-blocking mode, as `FrameReader` sets it up.
-/
open LinkLib LinkLib.Source LinkLib.WsFrame

namespace CalcBridge.Net

/-! ## The socket -/

/-- EAGAIN on Linux and Darwin, and ETIMEDOUT. -/
def softErrnos : List Nat := [11, 35, 110]

/-- What a call can raise: an OSError with an errno or with a text, or `struct.error`. -/
inductive Raised where
  | errno (n : Nat)
  | msg (text : String)
  | structError
  deriving DecidableEq, Repr

/-- How one write ends: it takes everything, or a prefix, or nothing, or raises. -/
inductive Write where
  | all
  | part (k : Nat)
  | none
  | error (errno : Nat)
  deriving DecidableEq, Repr

/-- The write side of the socket: how its writes will end (a list that has run
out takes everything), the bytes it took, and whether it was closed. -/
structure Sock where
  writes : List Write
  written : Bytes
  closed : Bool
  deriving DecidableEq, Repr

/-- `sock.write`. The code does not look at the count it returns. -/
def Sock.write (s : Sock) (bs : Bytes) : Except Raised Unit × Sock :=
  match s.writes with
  | [] => (.ok (), { s with written := s.written ++ bs })
  | .all :: ws => (.ok (), { s with writes := ws, written := s.written ++ bs })
  | .part k :: ws => (.ok (), { s with writes := ws, written := s.written ++ bs.take k })
  | .none :: ws => (.ok (), { s with writes := ws })
  | .error e :: ws => (.error (.errno e), { s with writes := ws })

/-- The read side: `_prepend` in front of what the socket's reads will find. -/
structure Input where
  prepend : Bytes
  reads : List (Chunk UInt8)
  deriving DecidableEq, Repr

inductive FrameState where
  | hdr2
  | ext16
  | ext64
  | body
  deriving DecidableEq, Repr

structure Client where
  inp : Input
  sock : Sock
  sendBuf : Bytes
  recvBuf : Bytes
  frameState : FrameState
  frameB1 : UInt8
  frameB2 : UInt8
  frameN : Nat
  framePartial : Option Bytes
  frameBody : Bytes
  closed : Bool
  /-- `_make_mask`: what each call will return, and how many were made. -/
  masks : Nat → Mask
  masksUsed : Nat

/-- `__init__`, with the bytes the handshake left over. -/
def Client.init (leftover : Bytes) (reads : List (Chunk UInt8)) (writes : List Write) (masks : Nat → Mask) : Client where
  inp := ⟨leftover, reads⟩
  sock := ⟨writes, [], false⟩
  sendBuf := []
  recvBuf := []
  frameState := .hdr2
  frameB1 := 0
  frameB2 := 0
  frameN := 0
  framePartial := none
  frameBody := []
  closed := false
  masks := masks
  masksUsed := 0

/-! ## Sending -/

/-- The mask flag and the length bytes of `_send_message`. -/
def lenBytes (n : Nat) : Bytes :=
  if n < 126 then [UInt8.ofNat (0x80 ||| n)]
  else if n < 1 <<< 16 then
    [UInt8.ofNat (0x80 ||| 126), UInt8.ofNat ((n >>> 8) &&& 0xFF), UInt8.ofNat (n &&& 0xFF)]
  else UInt8.ofNat (0x80 ||| 127) :: [56, 48, 40, 32, 24, 16, 8, 0].map fun sh => UInt8.ofNat ((n >>> sh) &&& 0xFF)

/-- `_send_message`: the header, then the masked payload when there is one. -/
def sendMessage (c : Client) (payload : Bytes) (opcode : UInt8) : Except Raised Unit × Client :=
  let n := payload.length
  let mask := c.masks c.masksUsed
  let hdr := [0x80 ||| (opcode &&& 0x0F)] ++ lenBytes n ++ mask.key
  let masked := payload.mapIdx fun i b => b ^^^ mask.key.getD (i &&& 3) 0
  let c := { c with masksUsed := c.masksUsed + 1 }
  match c.sock.write hdr with
  | (.error e, sock) => (.error e, { c with sock := sock })
  | (.ok (), sock) =>
    if n ≠ 0 then
      let r := sock.write masked
      (r.1, { c with sock := r.2 })
    else (.ok (), { c with sock := sock })

/-- A send touches the write side and the masks only. -/
theorem sendMessage_frame (c : Client) (payload : Bytes) (opcode : UInt8) :
    ∃ sock, (sendMessage c payload opcode).2 = { c with sock := sock, masksUsed := c.masksUsed + 1 } := by
  unfold sendMessage
  dsimp only
  split
  · exact ⟨_, rfl⟩
  · split <;> exact ⟨_, rfl⟩

/-- The loop of `sendall`: ship every complete frame. -/
def drain (c : Client) : Except Raised Unit × Client :=
  if 4 ≤ c.sendBuf.length then
    let total := 4 + Bytes.ofBe (c.sendBuf.take 4)
    if c.sendBuf.length < total then (.ok (), c)
    else
      let frame := c.sendBuf.take total
      match _h : sendMessage { c with sendBuf := c.sendBuf.drop total } frame 0x2 with
      | (.ok (), c') => drain c'
      | (.error e, c') => (.error e, c')
  else (.ok (), c)
  termination_by c.sendBuf.length
  decreasing_by
    obtain ⟨sock, hc⟩ := sendMessage_frame { c with sendBuf := c.sendBuf.drop total } frame 0x2
    rw [_h] at hc
    have hlen : c'.sendBuf.length = c.sendBuf.length - total := by
      rw [show c' = _ from hc]
      exact List.length_drop
    omega

/-- `sendall`. -/
def sendall (c : Client) (data : Bytes) : Except Raised Unit × Client :=
  if c.closed then (.error (.msg "WS closed"), c) else drain { c with sendBuf := c.sendBuf ++ data }

/-- What `send_framed` passes to its two `sendall` calls. `none` is the
`struct.error` of a payload whose length does not fit `>I`. -/
def framedParts (payload : Bytes) : Option (Bytes × Bytes) :=
  if payload.length < 2 ^ 32 then some (Bytes.toBe 4 payload.length, payload) else none

/-- `send_framed` on a `WSClient`. -/
def sendFramed (c : Client) (payload : Bytes) : Except Raised Unit × Client :=
  match framedParts payload with
  | none => (.error .structError, c)
  | some (hdr, body) =>
    match sendall c hdr with
    | (.ok (), c) => sendall c body
    | (.error e, c) => (.error e, c)

/-! ## Receiving -/

/-- `_try_read`. The end of the stream is `chunk []`, where the source raises `_WSClosed`. -/
def tryRead (n : Nat) (inp : Input) : Read UInt8 × Input :=
  if inp.prepend ≠ [] then (.chunk (inp.prepend.take n), { inp with prepend := inp.prepend.drop n })
  else
    let r := Source.read n inp.reads
    let inp := { inp with reads := r.2 }
    match r.1 with
    | .error e => if e ∈ softErrnos then (.none, inp) else (.error e, inp)
    | r => (r, inp)

/-- `_try_fill`. -/
def tryFill (c : Client) (n : Nat) : Stop × Client :=
  let r := fill tryRead n (c.framePartial.getD []) c.inp
  (r.1, { c with framePartial := some r.2.1, inp := r.2.2 })

inductive Pump where
  | progress
  | noData
  | closed
  deriving DecidableEq, Repr

/-- `_pump_one_step` when a read did not give what it wanted. -/
def stopped (stop : Stop) (c : Client) : Except Raised Pump × Client :=
  match stop with
  | .error e => (.error (.errno e), c)
  | .eof => (.ok .closed, { c with closed := true })
  | _ => (.ok .noData, c)

/-- The first two bytes of a frame are in `hdr`. -/
def startFrame (c : Client) (hdr : Bytes) : Except Raised Pump × Client :=
  let c := { c with frameB1 := hdr.getD 0 0, frameB2 := hdr.getD 1 0 }
  if c.frameB2 &&& 0x80 ≠ 0 then (.error (.msg "WS server frame masked (protocol error)"), c)
  else
    let n := (c.frameB2 &&& 0x7F).toNat
    if n = 126 then (.ok .progress, { c with frameState := .ext16 })
    else if n = 127 then (.ok .progress, { c with frameState := .ext64 })
    else (.ok .progress, { c with frameN := n, frameBody := [], frameState := .body })

/-- The parser state between two frames. -/
def Client.reset (c : Client) : Client :=
  { c with frameState := .hdr2, frameB1 := 0, frameB2 := 0, frameN := 0, frameBody := [] }

/-- What a complete frame with first byte `b1` does. -/
def handleFrame (c : Client) (b1 : UInt8) (payload : Bytes) : Except Raised Pump × Client :=
  let opcode := b1 &&& 0x0F
  if b1 &&& 0x80 = 0 then (.error (.msg "WS fragmentation not supported"), c)
  else if opcode = 0x9 then
    let r := sendMessage c payload 0xA
    (r.1.map fun _ => .progress, r.2)
  else if opcode = 0xA then (.ok .progress, c)
  else if opcode = 0x8 then (.ok .closed, { (sendMessage c [] 0x8).2 with closed := true })
  else if opcode = 0x1 ∨ opcode = 0x2 then (.ok .progress, { c with recvBuf := c.recvBuf ++ payload })
  else (.ok .progress, c)

/-- The frame's body is complete. -/
def finishFrame (c : Client) : Except Raised Pump × Client := handleFrame c.reset c.frameB1 c.frameBody

/-- The extended length is in `ext`. -/
def startBody (c : Client) (ext : Bytes) : Except Raised Pump × Client :=
  (.ok .progress, { c with frameN := Bytes.ofBe ext, frameBody := [], frameState := .body })

/-- `_try_fill` and `_consume_partial`, then `next` on the bytes. -/
def withFill (c : Client) (n : Nat) (next : Client → Bytes → Except Raised Pump × Client) : Except Raised Pump × Client :=
  match tryFill c n with
  | (.done, c) => next { c with framePartial := none } (c.framePartial.getD [])
  | (stop, c) => stopped stop c

/-- `_pump_one_step`. -/
def pumpOneStep (c : Client) : Except Raised Pump × Client :=
  match c.frameState with
  | .hdr2 => withFill c 2 startFrame
  | .ext16 => withFill c 2 startBody
  | .ext64 => withFill c 8 startBody
  | .body =>
    if 0 < c.frameN then
      match tryRead (c.frameN - c.frameBody.length) c.inp with
      | (.none, inp) => stopped .none { c with inp := inp }
      | (.error e, inp) => stopped (.error e) { c with inp := inp }
      | (.chunk xs, inp) =>
        if xs = [] then stopped .eof { c with inp := inp }
        else
          let c := { c with inp := inp, frameBody := c.frameBody ++ xs }
          if c.frameBody.length < c.frameN then (.ok .progress, c) else finishFrame c
    else finishFrame c

/-! ## Every step makes progress -/

/-- The bytes that are still to be parsed. -/
def Input.unread (inp : Input) : Bytes := inp.prepend ++ items inp.reads

def Input.misses (inp : Input) : Nat := stalls inp.reads

/-- A read drains `_prepend` first; then it is the socket's, with a soft error
turned into "nothing yet". -/
theorem tryRead_cases {n : Nat} {inp inp' : Input} {r : Read UInt8} (h : tryRead n inp = (r, inp')) :
    (inp.prepend ≠ [] ∧ r = .chunk (inp.prepend.take n) ∧ inp' = { inp with prepend := inp.prepend.drop n }) ∨
    (inp.prepend = [] ∧ ∃ r' src, Source.read n inp.reads = (r', src) ∧ inp' = { inp with reads := src } ∧
      ((∃ e ∈ softErrnos, r' = .error e ∧ r = .none) ∨ (r = r' ∧ ∀ e, r' = .error e → e ∉ softErrnos))) := by
  unfold tryRead at h
  split at h
  · rename_i hp
    cases h
    exact .inl ⟨hp, rfl, rfl⟩
  · rename_i hp
    refine .inr ⟨Classical.not_not.1 hp, (Source.read n inp.reads).1, (Source.read n inp.reads).2, rfl, ?_⟩
    dsimp only at h
    split at h
    · rename_i e he
      split at h
      · cases h
        exact ⟨rfl, .inl ⟨e, ‹_›, he, rfl⟩⟩
      · cases h
        exact ⟨rfl, .inr ⟨he.symm, fun e' h' => by rw [he] at h'; cases h'; assumption⟩⟩
    · rename_i hne
      cases h
      exact ⟨rfl, .inr ⟨rfl, fun e he => absurd he (hne e)⟩⟩

/-- `_prepend` and the socket together hand over their bytes in order. -/
theorem tryRead_lossless : Lossless tryRead Input.unread Input.misses where
  chunk {n s s' xs} hn hr := by
    rcases tryRead_cases hr with ⟨-, hxs, rfl⟩ | ⟨hp, r', src, hsrc, rfl, ⟨e, -, -, hno⟩ | ⟨rfl, -⟩⟩
    · cases hxs
      refine ⟨?_, by rw [List.length_take]; exact Nat.min_le_left _ _, rfl⟩
      rw [Input.unread, Input.unread, ← List.append_assoc, List.take_append_drop]
    · cases hno
    · simp only [Input.unread, Input.misses, hp, List.nil_append]
      exact read_lossless.chunk hn hsrc
  none {n s s'} hr := by
    rcases tryRead_cases hr with ⟨-, hno, -⟩ | ⟨hp, r', src, hsrc, rfl, ⟨e, -, rfl, -⟩ | ⟨rfl, -⟩⟩
    · cases hno
    · obtain ⟨hu, hm⟩ := read_lossless.error hsrc
      simp only [Input.unread, Input.misses, hp, List.nil_append]
      exact ⟨hu, Nat.le_of_lt hm, .inl hm⟩
    · simp only [Input.unread, Input.misses, hp, List.nil_append]
      exact read_lossless.none hsrc
  error {n e s s'} hr := by
    rcases tryRead_cases hr with ⟨-, hno, -⟩ | ⟨hp, r', src, hsrc, rfl, ⟨e, -, -, hno⟩ | ⟨rfl, -⟩⟩
    · cases hno
    · cases hno
    · simp only [Input.unread, Input.misses, hp, List.nil_append]
      exact read_lossless.error hsrc

/-- What is unread after filling, and what was taken. -/
theorem tryFill_spec (c : Client) (n : Nat) :
    ∃ taken inp, (tryFill c n).2 = { c with framePartial := some taken, inp := inp } ∧
      taken ++ inp.unread = c.framePartial.getD [] ++ c.inp.unread ∧ inp.misses ≤ c.inp.misses ∧
      ((tryFill c n).1 = .done ↔ n ≤ taken.length) :=
  ⟨_, _, rfl, fill_conserves tryRead_lossless _ _ _, (fill_misses tryRead_lossless _ _ _).1, fill_done_iff _ _ _ _⟩

/-- What is left to do: the bytes not parsed yet, and a body to be closed. -/
def Client.todo (c : Client) : Nat :=
  2 * ((c.framePartial.getD []).length + c.inp.unread.length) + if c.frameState = .body then 1 else 0

/-- Handling a frame leaves the parser and the input alone. -/
theorem handleFrame_frame (c : Client) (b1 : UInt8) (payload : Bytes) :
    ∃ sock recvBuf closed used, (handleFrame c b1 payload).2 =
      { c with sock := sock, recvBuf := recvBuf, closed := closed, masksUsed := used } := by
  have hpong := sendMessage_frame c payload 0xA
  have hclose := sendMessage_frame c [] 0x8
  unfold handleFrame
  dsimp only
  split
  · exact ⟨_, _, _, _, rfl⟩
  · split
    · obtain ⟨sock, hc⟩ := hpong
      exact ⟨_, _, _, _, hc⟩
    · split
      · exact ⟨_, _, _, _, rfl⟩
      · split
        · obtain ⟨sock, hc⟩ := hclose
          exact ⟨sock, c.recvBuf, true, _, by rw [hc]⟩
        · split <;> exact ⟨_, _, _, _, rfl⟩

/-- Starting a frame or a body leaves the input alone. -/
theorem startFrame_frame (c : Client) (hdr : Bytes) :
    ∃ b1 b2 n body state, (startFrame c hdr).2 =
      { c with frameB1 := b1, frameB2 := b2, frameN := n, frameBody := body, frameState := state } := by
  unfold startFrame
  dsimp only
  split
  · exact ⟨_, _, _, _, _, rfl⟩
  · split
    · exact ⟨_, _, _, _, _, rfl⟩
    · split <;> exact ⟨_, _, _, _, _, rfl⟩

theorem read_zero {inp inp' : Input} {xs : Bytes} (h : tryRead 0 inp = (.chunk xs, inp')) : xs = [] := by
  rcases tryRead_cases h with ⟨-, hxs, -⟩ | ⟨-, r', src, hsrc, -, ⟨e, -, -, hno⟩ | ⟨rfl, -⟩⟩
  · cases hxs; rfl
  · cases hno
  · unfold Source.read at hsrc
    split at hsrc <;> cases hsrc <;> rfl

theorem todo_lt_of_input {c c' : Client} (hp : c'.framePartial = c.framePartial)
    (hi : c'.inp.unread.length < c.inp.unread.length) : c'.todo < c.todo := by
  unfold Client.todo
  rw [hp]
  split <;> split <;> omega

/-- A step that got its bytes used at least two of them. -/
theorem withFill_todo {c c' : Client} {n : Nat} (hn : 2 ≤ n) {next : Client → Bytes → Except Raised Pump × Client}
    (hnext : ∀ c hdr, (next c hdr).2.framePartial = c.framePartial ∧ (next c hdr).2.inp = c.inp)
    (h : withFill c n next = (.ok .progress, c')) : c'.todo < c.todo := by
  obtain ⟨taken, inp, hc, hu, -, hdone⟩ := tryFill_spec c n
  unfold withFill at h
  cases hf : tryFill c n with
  | mk stop cf =>
    rw [hf] at h hc hdone
    cases stop with
    | done =>
      have hlen : n ≤ taken.length := hdone.1 rfl
      obtain ⟨h1, h2⟩ := hnext { cf with framePartial := none } (cf.framePartial.getD [])
      have hc' : c' = (next { cf with framePartial := none } (cf.framePartial.getD [])).2 := (congrArg Prod.snd h).symm
      have hu := congrArg List.length hu
      simp only [List.length_append] at hu
      have hcf : cf.inp = inp := by rw [show cf = _ from hc]
      have hpart : (c'.framePartial.getD []).length = 0 := by rw [hc', h1]; rfl
      have hinp : c'.inp.unread.length = inp.unread.length := by rw [hc', h2, ← hcf]
      unfold Client.todo
      split <;> split <;> omega
    | none => cases h
    | eof => cases h
    | error e => cases h

/-- Every step that says `progress` leaves less to do, so `recv` stops. -/
theorem pump_todo_lt {c c' : Client} (h : pumpOneStep c = (.ok .progress, c')) : c'.todo < c.todo := by
  have hfin : ∀ c : Client, c.frameState = .body → (finishFrame c).2.todo < c.todo := by
    intro c hs
    obtain ⟨sock, recvBuf, closed, used, hc⟩ := handleFrame_frame c.reset c.frameB1 c.frameBody
    rw [finishFrame, hc]
    simp [Client.todo, Client.reset, hs]
  unfold pumpOneStep at h
  split at h
  · exact withFill_todo (Nat.le_refl 2) (fun c hdr => by
      obtain ⟨b1, b2, n, body, st, hc⟩ := startFrame_frame c hdr
      rw [hc]
      exact ⟨rfl, rfl⟩) h
  · exact withFill_todo (Nat.le_refl 2) (fun _ _ => ⟨rfl, rfl⟩) h
  · exact withFill_todo (by decide) (fun _ _ => ⟨rfl, rfl⟩) h
  · rename_i hs
    split at h
    · split at h
      · cases h
      · cases h
      · rename_i xs inp hr
        split at h
        · cases h
        · rename_i hne
          -- A body chunk is not empty, so the input gets shorter.
          have hpos : 0 < c.frameN - c.frameBody.length := by
            by_contra hz
            rw [Nat.eq_zero_of_not_pos hz] at hr
            exact hne (read_zero hr)
          have hu := congrArg List.length (tryRead_lossless.chunk hpos hr).1
          have hxs := List.length_pos_iff.2 hne
          rw [List.length_append] at hu
          have hlt : Client.todo { c with inp := inp, frameBody := c.frameBody ++ xs } < c.todo :=
            todo_lt_of_input rfl (by dsimp only; omega)
          dsimp only at h
          split at h
          · cases h; exact hlt
          · rw [show c' = _ from (congrArg Prod.snd h).symm]
            exact Nat.lt_trans (hfin _ hs) hlt
    · rw [show c' = _ from (congrArg Prod.snd h).symm]
      exact hfin c hs

/-- The loop of a non-blocking `recv`: pump until a data byte is there or the
parser has nothing more to do. -/
def pumpUntil (c : Client) : Except Raised Pump × Client :=
  if c.recvBuf ≠ [] then (.ok .progress, c)
  else
    match _h : pumpOneStep c with
    | (.ok .progress, c') => pumpUntil c'
    | (.ok .noData, c') => (.ok .noData, c')
    | (.ok .closed, c') => (.ok .closed, c')
    | (.error e, c') => (.error e, c')
  termination_by c.todo
  decreasing_by exact pump_todo_lt _h

/-- Up to `n` bytes off `_recv_buf`. -/
def takeRecv (c : Client) (n : Nat) : Option Bytes × Client :=
  (some (c.recvBuf.take n), { c with recvBuf := c.recvBuf.drop n })

/-- A non-blocking `recv`. -/
def recv (c : Client) (n : Nat) : Except Raised (Option Bytes) × Client :=
  if c.recvBuf ≠ [] then
    let r := takeRecv c n
    (.ok r.1, r.2)
  else if c.closed then (.ok (some []), c)
  else match pumpUntil c with
    | (.ok .closed, c) => (.ok (some []), c)
    | (.ok .noData, c) => (.ok none, c)
    | (.ok .progress, c) =>
      let r := takeRecv c n
      (.ok r.1, r.2)
    | (.error e, c) => (.error e, c)

/-- `close`. A second call finds `_closed` set and does nothing. -/
def close (c : Client) : Client :=
  if c.closed then c
  else
    let c := (sendMessage { c with closed := true } [] 0x8).2
    { c with sock := { c.sock with closed := true } }

end CalcBridge.Net
