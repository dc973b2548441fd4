import CalcBridge.Net.WsSend
/-!
# Short writes (`src/net.py`, `_send_message` on a non-blocking socket)

`_send_message` makes two writes and looks at neither count. A call of
`send_framed` leaves a complete frame behind, or raises, exactly when these
two writes do not fall short in silence (`WritesWhole`).
-/
open LinkLib LinkLib.WsFrame LinkLib.Framing LinkLib.Runs

namespace CalcBridge.Net

/-- How many of `n` bytes a write takes. -/
def accepted (w : Option Write) (n : Nat) : Nat :=
  match w with
  | none | some .all => n
  | some (.part k) => min k n
  | some .none | some (.error _) => 0

def raises (w : Option Write) : Prop := ∃ e, w = some (.error e)

instance (w : Option Write) : Decidable (raises w) :=
  match w with
  | none | some .all | some (.part _) | some .none => .isFalse nofun
  | some (.error e) => .isTrue ⟨e, rfl⟩

def outcome : Option Write → Except Raised Unit
  | some (.error e) => .error (.errno e)
  | _ => .ok ()

/-- The length of a client frame's header, for a payload of `n` bytes. -/
def headerLen (n : Nat) : Nat := 2 + ((LenForm.minimal n).ext n).length + 4

/-- The call raises before it writes, or one of the two writes raises, or each
takes all its bytes. -/
def WritesWhole (c : Client) (payload : Bytes) : Prop :=
  c.closed ∨ ¬ Fits payload ∨ raises c.sock.writes.head? ∨ raises c.sock.writes.tail.head? ∨
    (accepted c.sock.writes.head? (headerLen (frame payload).length) = headerLen (frame payload).length ∧
      accepted c.sock.writes.tail.head? (frame payload).length = (frame payload).length)

instance (body : Bytes) : Decidable (Fits body) := inferInstanceAs (Decidable (_ < _))
instance (c : Client) (payload : Bytes) : Decidable (WritesWhole c payload) := inferInstanceAs (Decidable (_ ∨ _))

/-- One `send_framed`: its result, and what it put on the wire. -/
def sendStep (c : Client) (payload : Bytes) : Client × (Except Raised Unit × Bytes) :=
  let r := sendFramed c payload
  (r.2, (r.1, r.2.sock.written.drop c.sock.written.length))

/-- The call raised, or the peer got one complete message with the payload. -/
def Whole (payload : Bytes) (shown : Except Raised Unit × Bytes) : Prop :=
  (∃ e, shown.1 = .error e) ∨ ∃ m, IsMessage m payload ∧ shown.2 = encode m

/-! ## The two writes -/

theorem accepted_le (w : Option Write) (n : Nat) : accepted w n ≤ n := by
  unfold accepted
  split
  · exact Nat.le_refl n
  · exact Nat.le_refl n
  · exact Nat.min_le_right _ _
  · exact Nat.zero_le n
  · exact Nat.zero_le n

theorem outcome_error_iff (w : Option Write) : (∃ e, outcome w = .error e) ↔ raises w := by
  unfold outcome raises
  constructor
  · rintro ⟨e, he⟩
    split at he
    · exact ⟨_, rfl⟩
    · cases he
  · rintro ⟨e, rfl⟩
    exact ⟨_, rfl⟩

theorem outcome_cases (w : Option Write) : outcome w = .ok () ∨ ∃ e, outcome w = .error e := by
  cases h : outcome w with
  | ok => exact .inl rfl
  | error e => exact .inr ⟨e, rfl⟩

theorem write_eq (s : Sock) (bs : Bytes) : s.write bs = (outcome s.writes.head?,
    { s with writes := s.writes.tail, written := s.written ++ bs.take (accepted s.writes.head? bs.length) }) := by
  obtain ⟨writes, written, closed⟩ := s
  cases writes with
  | nil => simp [Sock.write, outcome, accepted]
  | cons w ws =>
    cases w with
    | all => simp [Sock.write, outcome, accepted]
    | part k => simp [Sock.write, outcome, accepted, List.take_eq_take_iff]
    | none => simp [Sock.write, outcome, accepted]
    | error e => simp [Sock.write, outcome, accepted]

theorem length_header (mask : Mask) {n : Nat} (h : n < 2 ^ 64) (b : UInt8) :
    ([b] ++ lenBytes n ++ mask.key).length = headerLen n := by
  rw [lenBytes_eq h mask, headerLen]
  simp [mask.four]
  omega

theorem encode_message (opcode : UInt8) (mask : Mask) (payload : Bytes) (h : payload.length < 2 ^ 64) :
    encode (message opcode mask payload h) =
      ([0x80 ||| (opcode &&& 0x0F)] ++ lenBytes payload.length ++ mask.key) ++ mask.apply payload := by
  simp only [encode, message, lenBytes_eq h mask, maskKey, applyMask, Option.elim_some, List.append_assoc, List.cons_append,
    List.nil_append]

/-- What the two writes of a message do. -/
theorem sendMessage_writes (c : Client) {payload : Bytes} (hne : payload ≠ []) (h : payload.length < 2 ^ 64)
    (opcode : UInt8) :
    (raises c.sock.writes.head? ∧ ∃ e, (sendMessage c payload opcode).1 = .error e) ∨
    (¬ raises c.sock.writes.head? ∧ (sendMessage c payload opcode).1 = outcome c.sock.writes.tail.head? ∧
      ∃ hdr masked, encode (message opcode (c.masks c.masksUsed) payload h) = hdr ++ masked ∧
        hdr.length = headerLen payload.length ∧ masked.length = payload.length ∧
        (sendMessage c payload opcode).2.sock.written = c.sock.written ++
          (hdr.take (accepted c.sock.writes.head? hdr.length) ++
            masked.take (accepted c.sock.writes.tail.head? masked.length))) := by
  have hn : payload.length ≠ 0 := fun h0 => hne (List.length_eq_zero_iff.1 h0)
  unfold sendMessage
  dsimp only
  rw [write_eq, masked_eq]
  rcases outcome_cases c.sock.writes.head? with hok | ⟨e, he⟩
  · right
    have hraise : ¬ raises c.sock.writes.head? := by
      rw [← outcome_error_iff, hok]
      nofun
    refine ⟨hraise, ?_⟩
    rw [hok]
    dsimp only
    rw [if_pos hn, write_eq]
    exact ⟨rfl, _, _, encode_message opcode _ payload h, length_header _ h _, Mask.length_apply _ _, List.append_assoc _ _ _⟩
  · left
    refine ⟨(outcome_error_iff _).1 ⟨e, he⟩, e, ?_⟩
    rw [he]

/-! ## One call -/

theorem incomplete_nil : Incomplete [] := .inl (by decide)

theorem frame_ne_nil (payload : Bytes) : frame payload ≠ [] := by
  intro h
  have := length_frame payload
  rw [h, List.length_nil] at this
  omega

/-- A buffer with exactly one frame is one message. -/
theorem drain_frame {c : Client} {body : Bytes} (hfits : Fits body) (hbuf : c.sendBuf = frame body) :
    drain c = sendMessage { c with sendBuf := [] } (frame body) 0x2 := by
  have hof : Bytes.ofBe (c.sendBuf.take 4) = body.length := by
    rw [hbuf]
    simpa using ofBe_take_frame hfits []
  have hlen : c.sendBuf.length = 4 + body.length := by rw [hbuf, length_frame]
  have htake : c.sendBuf.take (4 + body.length) = frame body := by rw [List.take_of_length_le (by omega), hbuf]
  have hdrop : c.sendBuf.drop (4 + body.length) = [] := List.drop_eq_nil_of_le (by omega)
  rw [drain, if_pos (by omega)]
  dsimp only
  rw [hof, if_neg (by omega)]
  split
  · rename_i c' heq
    rw [htake, hdrop] at heq
    obtain ⟨sock, hc⟩ := sendMessage_frame { c with sendBuf := [] } (frame body) 0x2
    rw [heq] at hc ⊢
    have hnil : c'.sendBuf = [] := by rw [show c' = _ from hc]
    exact drain_stop (by rw [hnil]; exact incomplete_nil)
  · rename_i e c' heq
    rw [htake, hdrop] at heq
    exact heq.symm

/-- On an open client with an empty buffer `send_framed` is one message. -/
theorem sendFramed_eq {c : Client} (hopen : c.closed = false) (hbuf : c.sendBuf = []) {payload : Bytes}
    (hfits : Fits payload) :
    sendFramed c payload = sendMessage c (frame payload) 0x2 := by
  obtain ⟨sock, hc⟩ := sendMessage_frame c (frame payload) 0x2
  have hempty : { c with sendBuf := [] } = c := by rw [← hbuf]
  unfold sendFramed framedParts
  rw [if_pos (show payload.length < 2 ^ 32 from hfits)]
  dsimp only
  unfold sendall
  rw [if_neg (by simp [hopen]), hbuf, List.nil_append]
  cases payload with
  | nil =>
    -- The prefix alone is the frame: the second call ships nothing.
    rw [drain_frame hfits rfl]
    dsimp only
    rw [hempty]
    cases hs : sendMessage c (frame []) 0x2 with
    | mk res c' =>
      rw [hs] at hc
      cases res with
      | error e => rfl
      | ok =>
        have hclosed : c'.closed = false := by rw [show c' = _ from hc]; exact hopen
        have hbuf' : c'.sendBuf = [] := by rw [show c' = _ from hc]; exact hbuf
        dsimp only
        rw [if_neg (by simp [hclosed]), List.append_nil, drain_stop (by rw [hbuf']; exact incomplete_nil)]
  | cons b bs =>
    have hinc : Incomplete (Bytes.toBe 4 (b :: bs).length) := by
      right
      rw [List.take_of_length_le (by simp), Bytes.ofBe_toBe_4 hfits]
      simp
    rw [drain_stop hinc]
    dsimp only
    rw [if_neg (by simp [hopen]), drain_frame hfits rfl]
    dsimp only
    rw [hempty]

theorem length_encode {m : Frame} {payload : Bytes} (h : IsMessage m payload) :
    (encode m).length = headerLen (frame payload).length + (frame payload).length := by
  obtain ⟨mask, hmask⟩ := Option.ne_none_iff_exists'.1 h.masked
  simp [encode, headerLen, hmask, maskKey, applyMask, h.form, h.payload, Mask.length_apply, mask.four]
  omega

/-- A call raises before it writes, or is one message. -/
theorem sendFramed_cases {c : Client} (hbuf : c.sendBuf = []) (payload : Bytes) :
    ((c.closed ∨ ¬ Fits payload) ∧ ∃ e, sendFramed c payload = (.error e, c)) ∨
      (c.closed = false ∧ Fits payload ∧ sendFramed c payload = sendMessage c (frame payload) 0x2) := by
  by_cases hfits : Fits payload
  · cases hclosed : c.closed with
    | false => exact .inr ⟨rfl, hfits, sendFramed_eq hclosed hbuf hfits⟩
    | true =>
      have hsome : framedParts payload = some (Bytes.toBe 4 payload.length, payload) := if_pos hfits
      refine .inl ⟨.inl rfl, .msg "WS closed", ?_⟩
      simp only [sendFramed, hsome, sendall, hclosed, if_true]
  · have hnone : framedParts payload = none := if_neg hfits
    refine .inl ⟨.inr hfits, .structError, ?_⟩
    simp only [sendFramed, hnone]

/-- One call on a client with an empty buffer. -/
theorem whole_iff {c : Client} (hbuf : c.sendBuf = []) (payload : Bytes) :
    Whole payload (sendStep c payload).2 ↔ WritesWhole c payload := by
  unfold sendStep Whole WritesWhole
  dsimp only
  rcases sendFramed_cases hbuf payload with ⟨hearly, e, he⟩ | ⟨hopen, hfits, hsend⟩
  · exact ⟨fun _ => hearly.imp_right .inl, fun _ => .inl ⟨e, by rw [he]⟩⟩
  · rw [hsend]
    rcases sendMessage_writes c (frame_ne_nil payload) (frame_lt hfits) 0x2 with
      ⟨hraise, herr⟩ | ⟨hraise, hres, hdr, masked, henc, hhdr, hmasked, hwritten⟩
    · exact ⟨fun _ => .inr (.inr (.inl hraise)), fun _ => .inl herr⟩
    · rw [hres, hwritten, List.drop_left, outcome_error_iff, ← hhdr, ← hmasked]
      constructor
      · rintro (hraise₂ | ⟨m, hm, hout⟩)
        · exact .inr (.inr (.inr (.inl hraise₂)))
        · -- The lengths leave no room for a short write.
          have hlen := congrArg List.length hout
          rw [length_encode hm, ← hhdr, ← hmasked, List.length_append, List.length_take, List.length_take] at hlen
          have h₁ := accepted_le c.sock.writes.head? hdr.length
          have h₂ := accepted_le c.sock.writes.tail.head? masked.length
          exact .inr (.inr (.inr (.inr ⟨by omega, by omega⟩)))
      · rintro (hclosed | hbig | h | h | ⟨h₁, h₂⟩)
        · rw [hopen] at hclosed
          cases hclosed
        · exact absurd hfits hbig
        · exact absurd h hraise
        · exact .inl h
        · refine .inr ⟨_, isMessage (c.masks c.masksUsed) hfits, ?_⟩
          rw [h₁, h₂, List.take_length, List.take_length, henc]

/-- The buffer is empty again after every call, also one that raised. -/
theorem sendStep_sendBuf (c : Client) (payload : Bytes) (hbuf : c.sendBuf = []) : (sendStep c payload).1.sendBuf = [] := by
  unfold sendStep
  rcases sendFramed_cases hbuf payload with ⟨-, e, he⟩ | ⟨-, -, hsend⟩
  · rw [he]
    exact hbuf
  · obtain ⟨sock, hc⟩ := sendMessage_frame c (frame payload) 0x2
    rw [hsend]
    dsimp only
    rw [hc]
    exact hbuf

/-- A call that returned has added what it shows to what was written. -/
theorem sendStep_written {c : Client} (hbuf : c.sendBuf = []) {payload : Bytes} (h : (sendStep c payload).2.1 = .ok ()) :
    (sendStep c payload).1.sock.written = c.sock.written ++ (sendStep c payload).2.2 := by
  unfold sendStep at h ⊢
  dsimp only at h ⊢
  rcases sendFramed_cases hbuf payload with ⟨-, e, he⟩ | ⟨-, hfits, hsend⟩
  · rw [he] at h
    cases h
  · rw [hsend] at h ⊢
    rcases sendMessage_writes c (frame_ne_nil payload) (frame_lt hfits) 0x2 with ⟨-, e, he⟩ | ⟨-, -, _, _, -, -, -, hwritten⟩
    · rw [he] at h
      cases h
    · rw [hwritten, List.drop_left]

/-! ## Whole runs -/

/-- What the wire holds once the calls of `h` were made, none of which raised. -/
def OnBoundary (c : Client) (h : List (Bytes × Except Raised Unit × Bytes)) (c' : Client) : Prop :=
  ∃ msgs, c'.sock.written = c.sock.written ++ encodeAll msgs ∧ List.Forall₂ IsMessage msgs (h.map Prod.fst)

theorem onBoundary_run {c : Client} (hbuf : c.sendBuf = []) (payloads : List Bytes)
    (h : Holds sendStep WritesWhole c payloads) :
    let r := run sendStep c payloads
    (∀ e ∈ r.2, e.2.1 = .ok ()) → OnBoundary c r.2 r.1 := by
  have hrun : (run sendStep c payloads).1.sendBuf = [] ∧
      ((∀ e ∈ (run sendStep c payloads).2, e.2.1 = .ok ()) →
        OnBoundary c (run sendStep c payloads).2 (run sendStep c payloads).1) := by
    refine run_inv (fun h c' => c'.sendBuf = [] ∧ ((∀ e ∈ h, e.2.1 = .ok ()) → OnBoundary c h c')) ?_ ?_ payloads h
    · exact ⟨hbuf, fun _ => ⟨[], by simp, .nil⟩⟩
    · rintro h c' payload hwhole ⟨hbuf', hall⟩
      refine ⟨sendStep_sendBuf c' payload hbuf', fun hok => ?_⟩
      rw [List.forall_mem_append, List.forall_mem_singleton] at hok
      obtain ⟨msgs, hwritten, hmsgs⟩ := hall hok.1
      rcases (whole_iff hbuf' payload).2 hwhole with ⟨e, he⟩ | ⟨m, hm, hout⟩
      · rw [hok.2] at he
        cases he
      · refine ⟨msgs ++ [m], ?_, ?_⟩
        · rw [sendStep_written hbuf' hok.2, hwritten, hout, encodeAll_append, List.append_assoc]
          simp
        · rw [List.map_append]
          exact List.rel_append hmsgs (.cons hm .nil)
  exact hrun.2

/-- In a run of `send_framed` calls every call raises or leaves one complete
message on the wire, and while none has raised the next message starts on a
frame boundary, exactly when no write of the run falls short in silence. -/
theorem no_torn_message_iff (c : Client) (hbuf : c.sendBuf = []) (payloads : List Bytes) :
    let r := run sendStep c payloads
    ((∀ e ∈ r.2, Whole e.1 e.2) ∧
      ((∀ e ∈ r.2, e.2.1 = .ok ()) → ∃ msgs out, r.1.sock.written = c.sock.written ++ out ∧
        decodeAll out = some msgs ∧ List.Forall₂ IsMessage msgs payloads)) ↔
      Holds sendStep WritesWhole c payloads := by
  intro r
  have hiff : (∀ e ∈ r.2, Whole e.1 e.2) ↔ Holds sendStep WritesWhole c payloads :=
    (forall_entries_iff c payloads).trans
      (holds_congr (fun c p => sendStep_sendBuf c p) (fun c p hb => whole_iff hb p) hbuf payloads)
  rw [hiff, and_iff_left_iff_imp]
  intro h hok
  obtain ⟨msgs, hwritten, hmsgs⟩ := onBoundary_run hbuf payloads h hok
  rw [run_events] at hmsgs
  exact ⟨msgs, _, hwritten, decodeAll_encodeAll msgs, hmsgs⟩

/-- A body of six bytes, with room for eight. -/
theorem no_torn_message_room :
    let c := Client.init [] [] [.all, .part 8] fun _ => ⟨[1, 2, 3, 4], rfl⟩
    let r := run sendStep c [[104, 105]]
    (∀ e ∈ r.2, Whole e.1 e.2) ∧
      ((∀ e ∈ r.2, e.2.1 = .ok ()) → ∃ msgs out, r.1.sock.written = c.sock.written ++ out ∧
        decodeAll out = some msgs ∧ List.Forall₂ IsMessage msgs [[104, 105]]) := by
  intro c r
  have hwhole : Holds sendStep WritesWhole c [[104, 105]] := ⟨by decide, trivial⟩
  exact (no_torn_message_iff c rfl _).2 hwhole

/-- The second write takes three of the six bytes, and the call returns. -/
theorem short_write_tears :
    let c := Client.init [] [] [.all, .part 3] fun _ => ⟨[1, 2, 3, 4], rfl⟩
    (sendFramed c [104, 105]).1 = .ok () ∧ ¬ Whole [104, 105] (sendStep c [104, 105]).2 := by
  intro c
  refine ⟨?_, ?_⟩
  · rw [sendFramed_eq rfl rfl (by decide)]
    rfl
  · rw [whole_iff rfl]
    decide

end CalcBridge.Net
