import CalcBridge.LinkLib.Framing
import CalcBridge.LinkLib.Runs
import CalcBridge.Net.WsClient
import Mathlib.Data.List.Forall2
/-!
# The send path ships one message a frame

`sendMessage` lays out one masked frame in the shortest length form, and
`sendall` calls it once for each complete bridge frame of its input.
-/
open LinkLib LinkLib.WsFrame LinkLib.Framing LinkLib.Runs

namespace CalcBridge.Net

/-- A message of the client: FIN, masked, the shortest length form. -/
def message (opcode : UInt8) (mask : Mask) (payload : Bytes) (h : payload.length < 2 ^ 64) : Frame where
  b1 := 0x80 ||| (opcode &&& 0x0F)
  mask := some mask
  form := .minimal payload.length
  payload := payload
  fits := LenForm.fits_minimal h

/-! ## One message on the wire -/

theorem lenBytes_eq {n : Nat} (h : n < 2 ^ 64) (mask : Mask) :
    lenBytes n = [UInt8.ofNat (maskBit (some mask) + (LenForm.minimal n).field n)] ++ (LenForm.minimal n).ext n := by
  have hor : ∀ k < 128, (0x80 ||| k : Nat) = 128 + k := by decide
  have hbit : maskBit (some mask) = 128 := rfl
  unfold lenBytes LenForm.minimal
  split
  · rw [hor n (by omega), hbit]
    rfl
  · split
    · rw [if_pos (by omega)]
      simp only [LenForm.field, LenForm.ext, hbit, Bytes.toBe_eq_map]
      rfl
    · rw [if_neg (by omega)]
      simp only [LenForm.field, LenForm.ext, hbit, Bytes.toBe_eq_map]
      rfl

theorem masked_eq (mask : Mask) (payload : Bytes) :
    (payload.mapIdx fun i b => b ^^^ mask.key.getD (i &&& 3) 0) = mask.apply payload := by
  simp only [Mask.apply, Mask.get, Nat.and_two_pow_sub_one_eq_mod _ 2]

/-- The client once message `m` is on the wire. -/
def afterMessage (c : Client) (m : Frame) : Client :=
  { c with sock := { c.sock with written := c.sock.written ++ encode m }, masksUsed := c.masksUsed + 1 }

/-- A message whose writes are taken whole is one frame on the wire. -/
theorem sendMessage_ok (c : Client) (hw : c.sock.writes = []) (payload : Bytes) (h : payload.length < 2 ^ 64)
    (opcode : UInt8) :
    sendMessage c payload opcode = (.ok (), afterMessage c (message opcode (c.masks c.masksUsed) payload h)) := by
  have hmask := masked_eq (c.masks c.masksUsed) payload
  unfold sendMessage afterMessage
  dsimp only
  rw [hmask]
  simp only [Sock.write, hw]
  by_cases hn : payload.length ≠ 0
  · rw [if_pos hn]
    simp only [encode, message, lenBytes_eq h (c.masks c.masksUsed), maskKey, applyMask, Option.elim_some, List.append_assoc,
      List.cons_append, List.nil_append]
  · rw [if_neg hn]
    have hp : payload = [] := List.length_eq_zero_iff.1 (Classical.not_not.1 hn)
    subst hp
    simp only [encode, message, lenBytes_eq h (c.masks c.masksUsed), maskKey, applyMask, Option.elim_some,
      List.cons_append, List.nil_append, Mask.apply, List.mapIdx_nil, List.append_nil]

/-! ## One message a frame -/

/-- A binary message that carries `body`'s frame: FIN, masked, the shortest length form. -/
structure IsMessage (m : Frame) (body : Bytes) : Prop where
  fin : m.fin
  opcode : m.opcode = 0x2
  masked : m.mask ≠ none
  payload : m.payload = frame body
  form : m.form = .minimal (frame body).length

theorem frame_lt {body : Bytes} (h : Fits body) : (frame body).length < 2 ^ 64 := by
  have : body.length < 2 ^ 32 := h
  rw [length_frame]
  omega

theorem isMessage (mask : Mask) {body : Bytes} (h : Fits body) : IsMessage (message 0x2 mask (frame body) (frame_lt h)) body where
  fin := (by decide : (0x80 ||| (0x2 &&& 0x0F) : UInt8) &&& 0x80 ≠ 0)
  opcode := (by decide : (0x80 ||| (0x2 &&& 0x0F) : UInt8) &&& 0x0F = 0x2)
  masked := by simp [message]
  payload := rfl
  form := rfl

/-- What sending `bytes` from client `c` leads to: a message for each complete
frame, and the incomplete rest in the buffer. -/
structure SentTo (c : Client) (bytes : Bytes) (c' : Client) (bodies : List Bytes) (msgs : List Frame) (rest : Bytes) : Prop where
  bytes : bytes = bodies.flatMap frame ++ rest
  fits : ∀ b ∈ bodies, Fits b
  incomplete : Incomplete rest
  sendBuf : c'.sendBuf = rest
  messages : List.Forall₂ IsMessage msgs bodies
  written : c'.sock.written = c.sock.written ++ encodeAll msgs
  writes : c'.sock.writes = []
  closed : c'.closed = c.closed

theorem drain_stop {c : Client} (h : Incomplete c.sendBuf) : drain c = (.ok (), c) := by
  rw [drain]
  split
  · rename_i h4
    rw [if_pos (by rcases h with h | h <;> omega)]
  · rfl

theorem drain_ship {c c' : Client} {body : Bytes} (h : ¬ Incomplete c.sendBuf)
    (hframe : frame body = c.sendBuf.take (4 + Bytes.ofBe (c.sendBuf.take 4)))
    (hsend : sendMessage { c with sendBuf := c.sendBuf.drop (4 + Bytes.ofBe (c.sendBuf.take 4)) } (frame body) 0x2 =
      (.ok (), c')) :
    drain c = drain c' := by
  have h' : 4 ≤ c.sendBuf.length ∧ ¬ c.sendBuf.length < 4 + Bytes.ofBe (c.sendBuf.take 4) := by
    unfold Incomplete at h
    omega
  rw [drain, if_pos h'.1]
  dsimp only
  rw [if_neg h'.2]
  split <;> rename_i heq <;> rw [← hframe, hsend] at heq <;> cases heq
  rfl

/-- A shipped frame goes in front of what the rest of the buffer leads to. -/
theorem SentTo.cons {c c' : Client} {mask : Mask} {body : Bytes} {total : Nat} (hfits : Fits body)
    (hsplit : c.sendBuf = frame body ++ c.sendBuf.drop total) {bodies : List Bytes} {msgs : List Frame} {rest : Bytes}
    (h : SentTo (afterMessage { c with sendBuf := c.sendBuf.drop total } (message 0x2 mask (frame body) (frame_lt hfits)))
      (c.sendBuf.drop total) c' bodies msgs rest) :
    SentTo c c.sendBuf c' (body :: bodies) (message 0x2 mask (frame body) (frame_lt hfits) :: msgs) rest where
  bytes := by rw [List.flatMap_cons, List.append_assoc, ← h.bytes]; exact hsplit
  fits b hb := by
    rcases List.mem_cons.1 hb with rfl | hb
    · exact hfits
    · exact h.fits b hb
  incomplete := h.incomplete
  sendBuf := h.sendBuf
  messages := .cons (isMessage mask hfits) h.messages
  written := by
    rw [h.written, encodeAll_cons, ← List.append_assoc]
    rfl
  writes := h.writes
  closed := h.closed

/-- The loop of `sendall` ships every complete frame of the buffer. -/
theorem drain_ok (c : Client) (hw : c.sock.writes = []) :
    ∃ c' bodies msgs rest, drain c = (.ok (), c') ∧ SentTo c c.sendBuf c' bodies msgs rest := by
  by_cases hinc : Incomplete c.sendBuf
  · exact ⟨c, [], [], c.sendBuf, drain_stop hinc, rfl, by simp, hinc, rfl, .nil, by simp, hw, rfl⟩
  · obtain ⟨body, hfits, hsplit, hframe⟩ := exists_frame hinc
    have hsend := sendMessage_ok { c with sendBuf := c.sendBuf.drop (4 + Bytes.ofBe (c.sendBuf.take 4)) } hw (frame body)
      (frame_lt hfits) 0x2
    obtain ⟨c', bodies, msgs, rest, hdrain, hsent⟩ := drain_ok (afterMessage
      { c with sendBuf := c.sendBuf.drop (4 + Bytes.ofBe (c.sendBuf.take 4)) }
      (message 0x2 (c.masks c.masksUsed) (frame body) (frame_lt hfits))) hw
    refine ⟨c', body :: bodies, _, rest, ?_, hsent.cons hfits hsplit⟩
    rw [drain_ship hinc hframe hsend, hdrain]
  termination_by c.sendBuf.length
  decreasing_by
    have := length_frame body
    rw [hframe, List.length_take] at this
    simp only [afterMessage, List.length_drop]
    omega

/-! ## Whole runs -/

/-- Sending goes on where it stopped: the remainder is in front of the new bytes. -/
theorem SentTo.trans {c c₁ c₂ : Client} {bytes data : Bytes} {bodies₁ bodies₂ : List Bytes} {msgs₁ msgs₂ : List Frame}
    {rest₁ rest₂ : Bytes} (h₁ : SentTo c bytes c₁ bodies₁ msgs₁ rest₁)
    (h₂ : SentTo { c₁ with sendBuf := c₁.sendBuf ++ data } (rest₁ ++ data) c₂ bodies₂ msgs₂ rest₂) :
    SentTo c (bytes ++ data) c₂ (bodies₁ ++ bodies₂) (msgs₁ ++ msgs₂) rest₂ where
  bytes := by rw [h₁.bytes, List.append_assoc, h₂.bytes, List.flatMap_append, List.append_assoc]
  fits b hb := (List.mem_append.1 hb).elim (h₁.fits b) (h₂.fits b)
  incomplete := h₂.incomplete
  sendBuf := h₂.sendBuf
  messages := List.rel_append h₁.messages h₂.messages
  written := by
    rw [h₂.written, encodeAll_append, ← List.append_assoc, ← h₁.written]
  writes := h₂.writes
  closed := h₂.closed.trans h₁.closed

/-- One `sendall` on an open client, after whatever was sent before. -/
theorem sendall_ok {c c₁ : Client} {bytes : Bytes} {bodies : List Bytes} {msgs : List Frame} {rest : Bytes}
    (hopen : c.closed = false) (h : SentTo c bytes c₁ bodies msgs rest) (data : Bytes) :
    ∃ c₂ bodies' msgs' rest', sendall c₁ data = (.ok (), c₂) ∧ SentTo c (bytes ++ data) c₂ bodies' msgs' rest' := by
  obtain ⟨c₂, bodies₂, msgs₂, rest₂, hdrain, hsent⟩ := drain_ok { c₁ with sendBuf := c₁.sendBuf ++ data } h.writes
  refine ⟨c₂, bodies ++ bodies₂, msgs ++ msgs₂, rest₂, ?_, h.trans (by rw [← h.sendBuf]; exact hsent)⟩
  unfold sendall
  rw [if_neg (by simp [h.closed, hopen]), hdrain]

/-- A client that has sent nothing yet. -/
theorem SentTo.start {c : Client} (hw : c.sock.writes = []) (hbuf : Incomplete c.sendBuf) :
    SentTo c c.sendBuf c [] [] c.sendBuf :=
  ⟨rfl, by simp, hbuf, rfl, .nil, by simp, hw, rfl⟩

/-- One `send_framed` with nothing left over from before is one message. -/
theorem sendFramed_ok {c c₁ : Client} {bytes : Bytes} {bodies : List Bytes} {msgs : List Frame} {payload : Bytes}
    (hopen : c.closed = false) (h : SentTo c bytes c₁ bodies msgs []) (hp : Fits payload) :
    ∃ c₂ msgs', sendFramed c₁ payload = (.ok (), c₂) ∧
      SentTo c (bytes ++ frame payload) c₂ (bodies ++ [payload]) msgs' [] := by
  obtain ⟨c₂, _, _, _, hhdr, hsent₂⟩ := sendall_ok hopen h (Bytes.toBe 4 payload.length)
  obtain ⟨c₃, bodies', msgs', rest', hbody, hsent₃⟩ := sendall_ok hopen hsent₂ payload
  rw [List.append_assoc] at hsent₃
  have hbytes : bodies'.flatMap frame ++ rest' = (bodies ++ [payload]).flatMap frame ++ [] := by
    rw [← hsent₃.bytes, h.bytes, List.append_nil, List.append_nil, List.flatMap_append, List.flatMap_singleton]
    rfl
  have hfits : ∀ b ∈ bodies ++ [payload], Fits b := by
    intro b hb
    rcases List.mem_append.1 hb with hb | hb
    · exact h.fits b hb
    · rwa [List.mem_singleton.1 hb]
  obtain ⟨rfl, rfl⟩ := frames_unique hsent₃.fits hfits hsent₃.incomplete h.incomplete hbytes
  refine ⟨c₃, msgs', ?_, hsent₃⟩
  unfold sendFramed framedParts
  rw [if_pos (show payload.length < 2 ^ 32 from hp)]
  dsimp only
  rw [hhdr]
  exact hbody

/-- A caller's step: call `f`, and see what it returned or raised. -/
def sends (f : Client → Bytes → Except Raised Unit × Client) (c : Client) (data : Bytes) : Client × Except Raised Unit :=
  ((f c data).2, (f c data).1)

/-- Every call of a run returned. -/
def AllOk (h : List (Bytes × Except Raised Unit)) : Prop := ∀ e ∈ h, e.2 = .ok ()

theorem AllOk.snoc {h : List (Bytes × Except Raised Unit)} {e : Bytes × Except Raised Unit} (hh : AllOk h)
    (he : e.2 = .ok ()) : AllOk (h ++ [e]) := by
  intro e' he'
  rcases List.mem_append.1 he' with he' | he'
  · exact hh e' he'
  · rwa [List.mem_singleton.1 he']

/-- What the calls so far led to, when they passed `h`'s byte strings to `sendall`. -/
def Shipped (c : Client) (h : List (Bytes × Except Raised Unit)) (c' : Client) : Prop :=
  AllOk h ∧ ∃ bodies msgs rest, SentTo c (c.sendBuf ++ (h.map Prod.fst).flatten) c' bodies msgs rest

theorem sendall_run {c : Client} (hopen : c.closed = false) (hw : c.sock.writes = []) (hbuf : Incomplete c.sendBuf)
    (inputs : List Bytes) : Shipped c (run (sends sendall) c inputs).2 (run (sends sendall) c inputs).1 := by
  apply run_keeps (Shipped c)
  · exact ⟨by simp [AllOk], [], [], c.sendBuf, by simpa using SentTo.start hw hbuf⟩
  · rintro h c' data ⟨hok, bodies, msgs, rest, hsent⟩
    obtain ⟨c₂, bodies', msgs', rest', heq, hsent'⟩ := sendall_ok hopen hsent data
    rw [sends, heq]
    refine ⟨hok.snoc rfl, bodies', msgs', rest', ?_⟩
    rw [List.map_append, List.flatten_append, ← List.append_assoc]
    simpa using hsent'

/-- The same for `send_framed`: nothing is left over after a call. -/
def ShippedFramed (c : Client) (h : List (Bytes × Except Raised Unit)) (c' : Client) : Prop :=
  AllOk h ∧ ∃ msgs, SentTo c ((h.map Prod.fst).flatMap frame) c' (h.map Prod.fst) msgs []

theorem sendFramed_run {c : Client} (hopen : c.closed = false) (hw : c.sock.writes = []) (hbuf : c.sendBuf = [])
    (payloads : List Bytes) (hp : ∀ p ∈ payloads, Fits p) :
    ShippedFramed c (run (sends sendFramed) c payloads).2 (run (sends sendFramed) c payloads).1 := by
  refine run_inv (ShippedFramed c) ?_ ?_ payloads (holds_of_forall c payloads hp)
  · have h0 := SentTo.start hw (by rw [hbuf]; decide)
    rw [hbuf] at h0
    exact ⟨by simp [AllOk], [], h0⟩
  · rintro h c' payload hfits ⟨hok, msgs, hsent⟩
    obtain ⟨c₂, msgs', heq, hsent'⟩ := sendFramed_ok hopen hsent hfits
    rw [sends, heq]
    refine ⟨hok.snoc rfl, msgs', ?_⟩
    rw [List.map_append, List.flatMap_append]
    simpa using hsent'

/-- Every complete frame of the bytes passed to `sendall` goes out as one
message, in order, and the buffer keeps the incomplete rest; a run of
`send_framed` calls is one message for each payload. That the buffer holds no
complete frame is so of a new client, and again after every run. -/
theorem sendall_ships_frames (c : Client) (hopen : c.closed = false) (hw : c.sock.writes = [])
    (hbuf : Incomplete c.sendBuf) :
    (∀ inputs : List Bytes, ∃ bodies msgs rest out,
      (∀ e ∈ (run (sends sendall) c inputs).2, e.2 = .ok ()) ∧
      c.sendBuf ++ inputs.flatten = bodies.flatMap frame ++ rest ∧ (∀ b ∈ bodies, Fits b) ∧ Incomplete rest ∧
      (run (sends sendall) c inputs).1.sendBuf = rest ∧
      (run (sends sendall) c inputs).1.sock.written = c.sock.written ++ out ∧
      decodeAll out = some msgs ∧ List.Forall₂ IsMessage msgs bodies) ∧
    ∀ payloads : List Bytes, c.sendBuf = [] → (∀ p ∈ payloads, p.length < 2 ^ 32) → ∃ msgs out,
      (∀ e ∈ (run (sends sendFramed) c payloads).2, e.2 = .ok ()) ∧
      (run (sends sendFramed) c payloads).1.sendBuf = [] ∧
      (run (sends sendFramed) c payloads).1.sock.written = c.sock.written ++ out ∧
      decodeAll out = some msgs ∧ List.Forall₂ IsMessage msgs payloads := by
  constructor
  · intro inputs
    obtain ⟨hok, bodies, msgs, rest, hsent⟩ := sendall_run hopen hw hbuf inputs
    rw [run_events] at hsent
    exact ⟨bodies, msgs, rest, encodeAll msgs, hok, hsent.bytes, hsent.fits, hsent.incomplete, hsent.sendBuf,
      hsent.written, decodeAll_encodeAll msgs, hsent.messages⟩
  · intro payloads hempty hp
    obtain ⟨hok, msgs, hsent⟩ := sendFramed_run hopen hw hempty payloads hp
    rw [run_events] at hsent
    exact ⟨msgs, encodeAll msgs, hok, hsent.sendBuf, hsent.written, decodeAll_encodeAll msgs, hsent.messages⟩

/-- A frame cut inside its header with one more behind it, and an empty payload. -/
theorem sendall_ships_frames_split :
    let c := Client.init [] [] [] fun _ => ⟨[1, 2, 3, 4], rfl⟩
    (∃ bodies msgs rest out, [0, 0, 0, 1, 7, 0, 0] = bodies.flatMap frame ++ rest ∧ Incomplete rest ∧
      (run (sends sendall) c [[0, 0], [0, 1, 7, 0, 0]]).1.sendBuf = rest ∧
      decodeAll out = some msgs ∧ List.Forall₂ IsMessage msgs bodies) ∧
    ∃ msgs out, (run (sends sendFramed) c [[], [7, 8]]).1.sendBuf = [] ∧ decodeAll out = some msgs ∧
      List.Forall₂ IsMessage msgs [[], [7, 8]] := by
  intro c
  obtain ⟨hsendall, hframed⟩ := sendall_ships_frames c rfl rfl (by decide)
  obtain ⟨bodies, msgs, rest, out, -, hbytes, -, hinc, hbuf, -, hout, hmsgs⟩ := hsendall [[0, 0], [0, 1, 7, 0, 0]]
  obtain ⟨msgs', out', -, hbuf', -, hout', hmsgs'⟩ := hframed [[], [7, 8]] rfl (by decide)
  exact ⟨⟨bodies, msgs, rest, out, hbytes, hinc, hbuf, hout, hmsgs⟩, msgs', out', hbuf', hout', hmsgs'⟩

end CalcBridge.Net
