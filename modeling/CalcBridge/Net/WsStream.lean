import CalcBridge.Net.WsRecv
/-!
# Calls of `recv` over a stream (`src/net.py`, `WSClient.recv`)

A run of `recv` calls delivers the data payloads of the stream in order, each
byte once, and answers each ping once.
-/
open LinkLib LinkLib.Source LinkLib.WsFrame LinkLib.Runs

namespace CalcBridge.Net

/-! ## Calls of `recv` -/

/-- The frames are handled up to `rest`, and the data of those handled is what
was delivered and what is buffered. -/
structure Synced (frames : List Frame) (masks : Nat → Mask) (done rest : List Frame) (delivered : Bytes) (c : Client) : Prop where
  split : frames = done ++ rest
  keys : c.masks = masks
  data : delivered ++ c.recvBuf = dataAll done
  written : c.sock.written = encodeAll (replies c.masks 0 done)
  used : c.masksUsed = (replies c.masks 0 done).length
  writes : c.sock.writes = []
  opened : c.closed = false → InSync c rest ∧ c.inp.Open
  ended : c.closed = true → rest = []

theorem ServerStream.suffix {done rest : List Frame} (h : ServerStream (done ++ rest)) : ServerStream rest where
  plain f hf := h.plain f (List.mem_append_right _ hf)
  close_last f hf := by
    apply h.close_last f
    cases rest with
    | nil => simp at hf
    | cons g later => rw [List.dropLast_append_cons]; exact List.mem_append_right _ hf

theorem Synced.quiet {frames done rest : List Frame} {masks : Nat → Mask} {delivered : Bytes} {c c' : Client}
    (h : Synced frames masks done rest delivered c) (hq : Quiet c c') (hsync : InSync c' rest) (hopen : c'.inp.Open) :
    Synced frames masks done rest delivered c' where
  split := h.split
  keys := hq.masks.trans h.keys
  data := hq.recvBuf ▸ h.data
  written := by rw [hq.sock, hq.masks]; exact h.written
  used := by rw [hq.masksUsed, hq.masks]; exact h.used
  writes := hq.sock ▸ h.writes
  opened _ := ⟨hsync, hopen⟩
  ended hc := h.ended (hq.closed ▸ hc)

theorem dataAll_snoc (done : List Frame) (f : Frame) : dataAll (done ++ [f]) = dataAll done ++ dataOf f := by
  simp [dataAll]

theorem Synced.handled {frames done rest later : List Frame} {masks : Nat → Mask} {delivered : Bytes} {c c' : Client} {f : Frame}
    (h : Synced frames masks done rest delivered c) (hrest : rest = f :: later) (hh : Handled c c' f)
    (hopened : c'.closed = false → InSync c' later ∧ c'.inp.Open) (hended : c'.closed = true → later = []) :
    Synced frames masks (done ++ [f]) later delivered c' where
  split := by rw [h.split, hrest, List.append_assoc]; rfl
  keys := hh.masks.trans h.keys
  data := by rw [hh.recvBuf, ← List.append_assoc, h.data, dataAll_snoc]
  written := by rw [hh.written, hh.masks, replies_append, encodeAll_append, h.written, h.used, Nat.zero_add]
  used := by rw [hh.masksUsed, hh.masks, replies_append, List.length_append, h.used, Nat.zero_add]
  writes := hh.writes
  opened := hopened
  ended := hended

/-- How the loop of `recv` leaves the client. -/
inductive PumpedTo (c : Client) (rest : List Frame) : Except Raised Pump × Client → Prop where
  | data (c' : Client) : c'.recvBuf ≠ [] → c'.inp.misses ≤ c.inp.misses → PumpedTo c rest (.ok .progress, c')
  | wait (c' : Client) : c'.recvBuf = [] → (c'.inp.misses < c.inp.misses ∨ rest = []) → PumpedTo c rest (.ok .noData, c')
  | closed (c' : Client) : c'.recvBuf = [] → rest = [] → PumpedTo c rest (.ok .closed, c')

theorem pumpUntil_data {c : Client} (hbuf : c.recvBuf ≠ []) : pumpUntil c = (.ok .progress, c) := by
  rw [pumpUntil, if_pos hbuf]

theorem pumpUntil_more {c c' : Client} (hbuf : ¬ c.recvBuf ≠ []) (hp : pumpOneStep c = (.ok .progress, c')) :
    pumpUntil c = pumpUntil c' := by
  rw [pumpUntil, if_neg hbuf]
  split <;> rename_i h <;> rw [hp] at h <;> cases h
  rfl

theorem pumpUntil_stop {c c' : Client} {r : Except Raised Pump} (hbuf : ¬ c.recvBuf ≠ []) (hr : r ≠ .ok .progress)
    (hp : pumpOneStep c = (r, c')) : pumpUntil c = (r, c') := by
  rw [pumpUntil, if_neg hbuf]
  split <;> rename_i h <;> rw [hp] at h <;> cases h
  · exact absurd rfl hr
  · rfl
  · rfl
  · rfl

theorem PumpedTo.mono {c c' : Client} {rest : List Frame} {r : Except Raised Pump × Client}
    (hm : c'.inp.misses ≤ c.inp.misses) (h : PumpedTo c' rest r) : PumpedTo c rest r := by
  cases h with
  | data c'' hb hle => exact .data c'' hb (Nat.le_trans hle hm)
  | wait c'' hb hor => exact .wait c'' hb (hor.imp_left fun hlt => Nat.lt_of_lt_of_le hlt hm)
  | closed c'' hb he => exact .closed c'' hb he

/-- The loop of `recv` stays in step: it finds data, or waits for more of the
stream, or has seen its end. -/
theorem pumpUntil_ok {frames : List Frame} (hstream : ServerStream frames) {c : Client} {masks : Nat → Mask}
    {done rest : List Frame} {delivered : Bytes} (hs : Synced frames masks done rest delivered c) (hc : c.closed = false) :
    ∃ done' rest', Synced frames masks done' rest' delivered (pumpUntil c).2 ∧ PumpedTo c rest' (pumpUntil c) ∧
      ∃ handled, rest = handled ++ rest' := by
  have hstep : ∀ {c : Client} {done rest : List Frame}, Synced frames masks done rest delivered c → c.closed = false →
      PumpOk c rest (pumpOneStep c) := fun {c done rest} hs hc =>
    pump_ok hs.writes (hs.opened hc).2 (hs.split ▸ hstream).suffix (hs.opened hc).1
  -- The cases are the loop's own: data is there, and the four ways a step ends.
  induction c using pumpUntil.induct generalizing done rest with
  | case1 c hbuf =>
    rw [pumpUntil_data hbuf]
    exact ⟨done, rest, hs, .data c hbuf (Nat.le_refl _), [], rfl⟩
  | case2 c hbuf c' hp ih =>
    have hpump := hstep hs hc
    rw [pumpUntil_more hbuf hp]
    rw [hp] at hpump
    cases hpump with
    | more _ hsync hq hopen hm =>
      obtain ⟨done', rest', hs', hto, hsplit⟩ := ih (hs.quiet hq hsync hopen) (hq.closed.trans hc)
      exact ⟨done', rest', hs', hto.mono hm, hsplit⟩
    | frame f later _ hrest h8 hsync hh hcl hopen hm =>
      have hc' : c'.closed = false := hcl.trans hc
      obtain ⟨done', rest', hs', hto, handled, hsplit⟩ :=
        ih (hs.handled hrest hh (fun _ => ⟨hsync, hopen⟩) (by simp [hc'])) hc'
      exact ⟨done', rest', hs', hto.mono hm, f :: handled, by rw [hrest, hsplit]; rfl⟩
  | case3 c hbuf c' hp =>
    have hpump := hstep hs hc
    rw [pumpUntil_stop hbuf (by simp) hp]
    rw [hp] at hpump
    cases hpump with
    | wait _ hsync hq hopen hm hor =>
      exact ⟨done, rest, hs.quiet hq hsync hopen, .wait c' (hq.recvBuf.trans (Classical.not_not.1 hbuf)) hor, [], rfl⟩
  | case4 c hbuf c' hp =>
    have hpump := hstep hs hc
    rw [pumpUntil_stop hbuf (by simp) hp]
    rw [hp] at hpump
    cases hpump with
    | close f _ hrest h8 hh hcl =>
      have hs' := hs.handled hrest hh (by simp [hcl]) (fun _ => rfl)
      refine ⟨_, [], hs', .closed c' ?_ rfl, [f], hrest⟩
      rw [hh.recvBuf, Classical.not_not.1 hbuf]
      simp [dataOf, h8]
  | case5 c hbuf e c' hp =>
    have hpump := hstep hs hc
    rw [hp] at hpump
    cases hpump

/-- What a call returned, as bytes of the stream. -/
def bytesOf (r : Except Raised (Option Bytes)) : Bytes :=
  match r with
  | .ok (some bs) => bs
  | _ => []

/-- What one call of `recv` does over the stream, from `rest` to `rest'`. -/
structure RecvOk (rest rest' : List Frame) (c : Client) (r : Except Raised (Option Bytes) × Client) : Prop where
  split : ∃ handled, rest = handled ++ rest'
  returns : ∃ o, r.1 = .ok o
  data : ∀ bs, bs ≠ [] → r.1 = .ok (some bs) → r.2.inp.misses ≤ c.inp.misses
  eof : r.1 = .ok (some []) → rest' = [] ∧ r.2.recvBuf = []
  miss : r.1 = .ok none → r.2.recvBuf = [] ∧ (r.2.inp.misses < c.inp.misses ∨ rest' = [])

theorem Synced.take {frames done rest : List Frame} {masks : Nat → Mask} {delivered : Bytes} {c : Client} (n : Nat)
    (h : Synced frames masks done rest delivered c) : Synced frames masks done rest (delivered ++ c.recvBuf.take n) (takeRecv c n).2 where
  split := h.split
  keys := h.keys
  data := by
    change (delivered ++ c.recvBuf.take n) ++ c.recvBuf.drop n = _
    rw [List.append_assoc, List.take_append_drop, h.data]
  written := h.written
  used := h.used
  writes := h.writes
  opened := h.opened
  ended := h.ended

/-- Taking bytes off a buffer that has some. -/
theorem takeRecv_ok {rest rest' : List Frame} {c c' : Client} {n : Nat} (hn : 0 < n) (hsplit : ∃ handled, rest = handled ++ rest')
    (hb : c'.recvBuf ≠ []) (hm : c'.inp.misses ≤ c.inp.misses) :
    RecvOk rest rest' c (.ok (takeRecv c' n).1, (takeRecv c' n).2) where
  split := hsplit
  returns := ⟨_, rfl⟩
  data _ _ _ := hm
  eof h := by
    simp only [takeRecv, Except.ok.injEq, Option.some.injEq] at h
    rcases List.take_eq_nil_iff.1 h with h | h
    · omega
    · exact absurd h hb
  miss h := by cases h

/-- A call delivers the next bytes of the data, and stays in step. -/
theorem recv_ok {frames : List Frame} (hstream : ServerStream frames) {c : Client} {masks : Nat → Mask}
    {done rest : List Frame} {delivered : Bytes} {n : Nat} (hn : 0 < n) (hs : Synced frames masks done rest delivered c) :
    ∃ done' rest', Synced frames masks done' rest' (delivered ++ bytesOf (recv c n).1) (recv c n).2 ∧
      RecvOk rest rest' c (recv c n) := by
  unfold recv
  by_cases hbuf : c.recvBuf ≠ []
  · rw [if_pos hbuf]
    exact ⟨done, rest, hs.take n, takeRecv_ok hn ⟨[], rfl⟩ hbuf (Nat.le_refl _)⟩
  · have hnil : c.recvBuf = [] := Classical.not_not.1 hbuf
    rw [if_neg hbuf]
    by_cases hc : c.closed = true
    · rw [if_pos hc]
      refine ⟨done, rest, ?_, ⟨[], rfl⟩, ⟨_, rfl⟩, ?_, ?_, ?_⟩
      · simpa [bytesOf] using hs
      · intro bs hne h
        cases h
        exact absurd rfl hne
      · exact fun _ => ⟨hs.ended hc, hnil⟩
      · intro h
        cases h
    · rw [if_neg hc]
      obtain ⟨done', rest', hs', hto, hsplit⟩ := pumpUntil_ok hstream hs (Bool.eq_false_of_not_eq_true hc)
      cases hp : pumpUntil c with
      | mk r c' =>
        rw [hp] at hs' hto
        cases hto with
        | data _ hb hm => exact ⟨done', rest', hs'.take n, takeRecv_ok hn hsplit hb hm⟩
        | wait _ hb hor =>
          refine ⟨done', rest', ?_, hsplit, ⟨_, rfl⟩, ?_, ?_, ?_⟩
          · simpa [bytesOf] using hs'
          · intro bs hne h
            cases h
          · intro h
            cases h
          · exact fun _ => ⟨hb, hor⟩
        | closed _ hb he =>
          refine ⟨done', rest', ?_, hsplit, ⟨_, rfl⟩, ?_, ?_, ?_⟩
          · simpa [bytesOf] using hs'
          · intro bs hne h
            cases h
            exact absurd rfl hne
          · exact fun _ => ⟨he, hb⟩
          · intro h
            cases h

/-! ## Pongs -/

/-- The answers hold one pong for each ping, in order, with its payload. -/
theorem replies_pongs (masks : Nat → Mask) (k : Nat) (fs : List Frame) :
    ((replies masks k fs).filter fun r => r.opcode = 0xA).map Frame.payload =
      (fs.filter fun f => f.opcode = 0x9).map Frame.payload := by
  have hpong : (0x80 ||| (0xA &&& 0x0F) : UInt8) &&& 0x0F = 0xA := by decide
  have hclose : (0x80 ||| (0x8 &&& 0x0F) : UInt8) &&& 0x0F ≠ 0xA := by decide
  induction fs generalizing k with
  | nil => rfl
  | cons f fs ih =>
    rw [replies, replyTo]
    by_cases h9 : f.opcode = 0x9
    · have hop : (message 0xA (masks k) f.payload (payload_lt f)).opcode = 0xA := hpong
      have hpay : (message 0xA (masks k) f.payload (payload_lt f)).payload = f.payload := rfl
      simp [h9, hop, hpay, ih]
    · rw [if_neg h9]
      by_cases h8 : f.opcode = 0x8
      · have hop : (message 0x8 (masks k) [] (by decide)).opcode ≠ 0xA := hclose
        simp [h8, hop, ih]
      · simp [h9, h8, ih]

theorem replyTo_masked {mask : Mask} {f r : Frame} (h : replyTo mask f = some r) : r.mask = some mask ∧ r.fin := by
  have hpong : (0x80 ||| (0xA &&& 0x0F) : UInt8) &&& 0x80 ≠ 0 := by decide
  have hclose : (0x80 ||| (0x8 &&& 0x0F) : UInt8) &&& 0x80 ≠ 0 := by decide
  unfold replyTo at h
  split at h
  · cases h; exact ⟨rfl, hpong⟩
  · split at h
    · cases h; exact ⟨rfl, hclose⟩
    · cases h

/-- Every answer is a masked frame with FIN set. -/
theorem replies_masked (masks : Nat → Mask) (k : Nat) (fs : List Frame) :
    ∀ r ∈ replies masks k fs, r.mask ≠ none ∧ r.fin := by
  induction fs generalizing k with
  | nil => simp [replies]
  | cons f fs ih =>
    intro r hr
    rw [replies] at hr
    cases hrep : replyTo (masks k) f with
    | none => rw [hrep] at hr; exact ih k r hr
    | some r' =>
      rw [hrep] at hr
      rcases List.mem_cons.1 hr with rfl | hr
      · obtain ⟨hm, hf⟩ := replyTo_masked hrep
        exact ⟨by simp [hm], hf⟩
      · exact ih (k + 1) r hr

/-! ## Whole runs -/

/-- A run of `recv` calls: what each was asked for and returned. -/
abbrev Calls := List (Nat × Except Raised (Option Bytes))

def recvStep (c : Client) (n : Nat) : Client × Except Raised (Option Bytes) := ((recv c n).2, (recv c n).1)

/-- The non-None results, put together. -/
def delivered (h : Calls) : Bytes := h.flatMap fun x => bytesOf x.2

/-- Every call so far has returned a byte or used up one of the `total`
misses, or the stream is at its end and delivered. -/
def Paced (total : Nat) (h : Calls) (rest : List Frame) (c : Client) : Prop :=
  h.length + c.inp.misses ≤ total + (delivered h).length ∨ (rest = [] ∧ c.recvBuf = [])

/-- What a run of calls keeps: the client is in step with what was delivered,
no call raised, and every `b""` came after all the data. -/
structure RunOk (frames : List Frame) (masks : Nat → Mask) (total : Nat) (h : Calls) (c : Client) : Prop where
  synced : ∃ done rest, Synced frames masks done rest (delivered h) c ∧ Paced total h rest c
  returns : ∀ x ∈ h, ∃ o, x.2 = .ok o
  eof : ∀ k n, h[k]? = some (n, .ok (some [])) → delivered (h.take k) = dataAll frames

theorem delivered_snoc (h : Calls) (x : Nat × Except Raised (Option Bytes)) :
    delivered (h ++ [x]) = delivered h ++ bytesOf x.2 := by
  simp [delivered]

/-- At the end of the stream with an empty buffer, all was delivered. -/
theorem Synced.all {frames done : List Frame} {masks : Nat → Mask} {delivered : Bytes} {c : Client}
    (h : Synced frames masks done [] delivered c) (hb : c.recvBuf = []) : done = frames ∧ delivered = dataAll frames := by
  have hdone : frames = done := h.split.trans (List.append_nil _)
  have hdata := h.data
  rw [hb, List.append_nil, ← hdone] at hdata
  exact ⟨hdone.symm, hdata⟩

/-- A call keeps the pace. -/
theorem Paced.call {frames done done' rest rest' : List Frame} {masks : Nat → Mask} {total n : Nat} {h : Calls} {c : Client}
    (hp : Paced total h rest c) (hs : Synced frames masks done rest (delivered h) c)
    (hs' : Synced frames masks done' rest' (delivered h ++ bytesOf (recv c n).1) (recv c n).2)
    (hok : RecvOk rest rest' c (recv c n)) : Paced total (h ++ [(n, (recv c n).1)]) rest' (recv c n).2 := by
  unfold Paced
  rw [delivered_snoc, List.length_append, List.length_append, List.length_singleton]
  rcases hp with hp | ⟨rfl, hb⟩
  · obtain ⟨o, ho⟩ := hok.returns
    dsimp only
    cases o with
    | none =>
      obtain ⟨hb, hlt | hend⟩ := hok.miss ho
      · rw [ho, show bytesOf (.ok none) = [] from rfl, List.length_nil]
        exact .inl (by omega)
      · exact .inr ⟨hend, hb⟩
    | some bs =>
      cases bs with
      | nil => exact .inr (hok.eof ho)
      | cons b bs =>
        have hm := hok.data (b :: bs) (by simp) ho
        rw [ho, bytesOf, List.length_cons]
        exact .inl (by omega)
  · -- Behind the end nothing more comes.
    obtain ⟨handled, hsplit⟩ := hok.split
    obtain rfl : rest' = [] := (List.append_eq_nil_iff.1 hsplit.symm).2
    obtain ⟨-, hall⟩ := hs.all hb
    have hdata := hs'.data
    rw [← hs'.split.trans (List.append_nil _), hall, List.append_assoc] at hdata
    exact .inr ⟨rfl, (List.append_eq_nil_iff.1 (List.append_right_eq_self.1 hdata)).2⟩

theorem recv_run_step {frames : List Frame} (hstream : ServerStream frames) {masks : Nat → Mask} {total : Nat} (h : Calls)
    (c : Client) (n : Nat) (hn : 0 < n) (hr : RunOk frames masks total h c) :
    RunOk frames masks total (h ++ [(n, (recvStep c n).2)]) (recvStep c n).1 := by
  obtain ⟨done, rest, hs, hpace⟩ := hr.synced
  obtain ⟨done', rest', hs', hok⟩ := recv_ok hstream hn hs
  refine ⟨⟨done', rest', by rw [delivered_snoc]; exact hs', hpace.call hs hs' hok⟩, ?_, ?_⟩
  · intro x hx
    rcases List.mem_append.1 hx with hx | hx
    · exact hr.returns x hx
    · obtain rfl := List.mem_singleton.1 hx
      exact hok.returns
  · intro k m hk
    rcases Nat.lt_trichotomy k h.length with hlt | rfl | hgt
    · rw [List.getElem?_append_left hlt] at hk
      rw [List.take_append_of_le_length (Nat.le_of_lt hlt)]
      exact hr.eof k m hk
    · rw [List.getElem?_concat_length] at hk
      have he : (recv c n).1 = .ok (some []) := congrArg Prod.snd (Option.some.inj hk)
      obtain ⟨rfl, hb⟩ := hok.eof he
      obtain ⟨-, hall⟩ := hs'.all hb
      rw [he] at hall
      rw [List.take_left, ← hall]
      exact (List.append_nil _).symm
    · rw [List.getElem?_eq_none (by simp; omega)] at hk
      cases hk

theorem init_synced {frames : List Frame} {leftover : Bytes} {reads : List (Chunk UInt8)} (hopen : Source.Open softErrnos reads)
    (hbytes : leftover ++ items reads = encodeAll frames) (masks : Nat → Mask) :
    Synced frames masks [] frames [] (Client.init leftover reads [] masks) where
  split := rfl
  keys := rfl
  data := rfl
  written := rfl
  used := rfl
  writes := rfl
  opened _ := ⟨⟨(by decide : (0 : Nat) < 2), hbytes⟩, hopen⟩
  ended hc := by cases hc

theorem recv_run {frames : List Frame} (hstream : ServerStream frames) {leftover : Bytes} {reads : List (Chunk UInt8)}
    (hopen : Source.Open softErrnos reads) (hbytes : leftover ++ items reads = encodeAll frames) (masks : Nat → Mask)
    {ns : List Nat} (hn : ∀ n ∈ ns, 0 < n) :
    RunOk frames masks (stalls reads) (run recvStep (Client.init leftover reads [] masks) ns).2
      (run recvStep (Client.init leftover reads [] masks) ns).1 := by
  apply run_inv (RunOk frames masks (stalls reads))
  · refine ⟨⟨[], frames, init_synced hopen hbytes masks, .inl ?_⟩, by simp, by simp⟩
    simp [Client.init, Input.misses]
  · exact fun h c n hpos hr => recv_run_step hstream h c n hpos hr
  · exact holds_of_forall _ _ hn

/-- The messages in `written` hold one pong for each ping of `frames`, in
order, with its payload; every message is masked and has FIN set. -/
def Ponged (frames : List Frame) (written : Bytes) : Prop :=
  ∃ msgs, decodeAll written = some msgs ∧ (∀ m ∈ msgs, m.mask ≠ none ∧ m.fin) ∧
    (msgs.filter fun m => m.opcode = 0xA).map Frame.payload = (frames.filter fun f => f.opcode = 0x9).map Frame.payload

theorem Synced.ponged {frames done rest : List Frame} {masks : Nat → Mask} {delivered : Bytes} {c : Client}
    (h : Synced frames masks done rest delivered c) : Ponged done c.sock.written :=
  ⟨_, by rw [h.written, decodeAll_encodeAll], replies_masked _ _ _, replies_pongs _ _ _⟩

/-- For every stream of server frames, however its bytes are cut between the
handshake leftover and the socket's reads, with misses anywhere, and for every
sequence of non-blocking `recv` calls: no call raises, the results are a
prefix of the data, `b""` comes only after all of it, and each ping handled so
far has exactly one masked pong with its payload, in order. A call that
returns `b""`, or finds nothing when the socket has no miss left, has
delivered all the data and answered every ping, and so has every run of more
calls than the stream has data bytes and the socket misses. -/
theorem recv_delivers (frames : List Frame) (hstream : ServerStream frames) (leftover : Bytes) (reads : List (Chunk UInt8))
    (hopen : Source.Open softErrnos reads) (hbytes : leftover ++ items reads = encodeAll frames) (masks : Nat → Mask)
    (ns : List Nat) (hn : ∀ n ∈ ns, 0 < n) :
    let r := run recvStep (Client.init leftover reads [] masks) ns
    (∀ x ∈ r.2, ∃ o, x.2 = .ok o) ∧
    delivered r.2 <+: dataAll frames ∧
    (∀ k n, r.2[k]? = some (n, .ok (some [])) → delivered (r.2.take k) = dataAll frames) ∧
    (∃ done rest, frames = done ++ rest ∧ Ponged done r.1.sock.written) ∧
    (∀ n, 0 < n → (recv r.1 n).1 = .ok (some []) ∨ ((recv r.1 n).1 = .ok none ∧ r.1.inp.misses = 0) →
      delivered r.2 = dataAll frames ∧ Ponged frames (recv r.1 n).2.sock.written) ∧
    (stalls reads + (dataAll frames).length < ns.length →
      delivered r.2 = dataAll frames ∧ Ponged frames r.1.sock.written) := by
  intro r
  have hrun : RunOk frames masks (stalls reads) r.2 r.1 := recv_run hstream hopen hbytes masks hn
  obtain ⟨done, rest, hs, hpace⟩ := hrun.synced
  have hinit : delivered r.2 <+: dataAll frames := by
    rw [hs.split, dataAll, List.flatMap_append]
    exact ⟨_, by rw [← List.append_assoc]; exact congrArg (· ++ _) hs.data⟩
  refine ⟨hrun.returns, hinit, hrun.eof, ⟨done, rest, hs.split, hs.ponged⟩, ?_, ?_⟩
  · intro n hpos hlast
    obtain ⟨done', rest', hs', hok⟩ := recv_ok hstream hpos hs
    have hend : rest' = [] ∧ (recv r.1 n).2.recvBuf = [] ∧ bytesOf (recv r.1 n).1 = [] := by
      rcases hlast with he | ⟨he, hm⟩
      · exact ⟨(hok.eof he).1, (hok.eof he).2, by rw [he]; rfl⟩
      · exact ⟨(hok.miss he).2.resolve_left (by omega), (hok.miss he).1, by rw [he]; rfl⟩
    obtain ⟨rfl, hbuf, hnone⟩ := hend
    obtain ⟨rfl, hall⟩ := hs'.all hbuf
    rw [hnone, List.append_nil] at hall
    exact ⟨hall, hs'.ponged⟩
  · intro hcalls
    rcases hpace with hpace | ⟨rfl, hb⟩
    · have hlen := hinit.length_le
      rw [length_run] at hpace
      omega
    · obtain ⟨rfl, hall⟩ := hs.all hb
      exact ⟨hall, hs.ponged⟩

/-- A ping, a text in the 16-bit form and a close, cut inside both headers. -/
theorem recv_delivers_text_between_controls :
    let text : Frame := ⟨0x81, none, .ext16, [0x68, 0x69], by decide⟩
    let reads : List (Chunk UInt8) :=
      [.none, .data [0x01, 0x70, 0x81], .error 11, .data [0x7E, 0x00], .none, .data [0x02, 0x68, 0x69, 0x88, 0x00]]
    delivered (run recvStep (Client.init [0x89] reads [] fun _ => ⟨[1, 2, 3, 4], rfl⟩) [1, 1, 1, 1, 4, 4]).2 = text.payload := by
  intro text reads
  let frames : List Frame := [⟨0x89, none, .short, [0x70], by decide⟩, text, ⟨0x88, none, .short, [], by decide⟩]
  have hstream : ServerStream frames := ⟨by decide, by decide⟩
  have hdata : dataAll frames = text.payload := by decide
  obtain ⟨-, -, -, -, -, hall⟩ := recv_delivers frames hstream [0x89] reads (by simp [reads, Source.Open, softErrnos])
    (by decide) (fun _ => ⟨[1, 2, 3, 4], rfl⟩) [1, 1, 1, 1, 4, 4] (by decide)
  exact (hall (by decide)).1.trans hdata

end CalcBridge.Net
