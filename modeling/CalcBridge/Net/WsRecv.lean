import CalcBridge.Net.WsSend
/-!
# The parser stays in step with the stream (`src/net.py`, `_pump_one_step`)

Whatever the cuts and the misses, the parser state and the unread bytes
together are always the encoding of the frames that are still to come
(`InSync`). `pump_ok` says what one step does to them.
-/
open LinkLib LinkLib.Source LinkLib.WsFrame

namespace CalcBridge.Net

/-! ## What the server sends and the client writes -/

/-- Unmasked frames with FIN set, of which at most the last is a close frame. -/
structure ServerStream (frames : List Frame) : Prop where
  plain : ∀ f ∈ frames, f.mask = none ∧ f.fin
  close_last : ∀ f ∈ frames.dropLast, f.opcode ≠ 0x8

/-- The bytes a frame adds to the stream: text and binary payloads. -/
def dataOf (f : Frame) : Bytes := if f.opcode = 0x1 ∨ f.opcode = 0x2 then f.payload else []

def dataAll (frames : List Frame) : Bytes := frames.flatMap dataOf

theorem payload_lt (f : Frame) : f.payload.length < 2 ^ 64 := by
  obtain ⟨b1, mask, form, payload, fits⟩ := f
  cases form with
  | short => exact Nat.lt_trans fits (by decide)
  | ext16 => exact Nat.lt_trans fits (by decide)
  | ext64 => exact fits

/-- What a frame is answered with: a ping with a pong, a close with a close. -/
def replyTo (mask : Mask) (f : Frame) : Option Frame :=
  if f.opcode = 0x9 then some (message 0xA mask f.payload (payload_lt f))
  else if f.opcode = 0x8 then some (message 0x8 mask [] (by decide))
  else none

/-- The answers to a stream, with the masks from number `k` on. -/
def replies (masks : Nat → Mask) : Nat → List Frame → List Frame
  | _, [] => []
  | k, f :: fs =>
    match replyTo (masks k) f with
    | some r => r :: replies masks (k + 1) fs
    | none => replies masks k fs

theorem replies_append (masks : Nat → Mask) (k : Nat) (fs fs' : List Frame) :
    replies masks k (fs ++ fs') = replies masks k fs ++ replies masks (k + (replies masks k fs).length) fs' := by
  induction fs generalizing k with
  | nil => rfl
  | cons f fs ih =>
    rw [List.cons_append, replies, replies]
    cases replyTo (masks k) f with
    | none => exact ih k
    | some r =>
      simp only [ih, List.cons_append, List.length_cons]
      rw [show k + 1 + (replies masks (k + 1) fs).length = k + ((replies masks (k + 1) fs).length + 1) by omega]

/-! ## The parser in step with the stream -/

/-- The bytes of a partly read header. -/
abbrev Client.part (c : Client) : Bytes := c.framePartial.getD []

/-- An open socket: no end of stream, no error but the soft ones. -/
abbrev Input.Open (inp : Input) : Prop := Source.Open softErrnos inp.reads

theorem tryRead_patient : Patient tryRead [] Input.Open where
  keeps {n s s' r} hs hr := by
    rcases tryRead_cases hr with ⟨-, -, rfl⟩ | ⟨-, r', src, hsrc, rfl, -⟩
    · exact hs
    · exact (read_patient softErrnos).keeps hs hsrc
  chunk {n s s'} hn hs hr := by
    rcases tryRead_cases hr with ⟨hp, hxs, -⟩ | ⟨-, r', src, hsrc, -, ⟨e, -, -, hno⟩ | ⟨rfl, -⟩⟩
    · simp only [Read.chunk.injEq] at hxs
      rcases List.take_eq_nil_iff.1 hxs.symm with h | h
      · omega
      · exact hp h
    · cases hno
    · exact (read_patient softErrnos).chunk hn hs hsrc
  error {n e s s'} hs hr := by
    rcases tryRead_cases hr with ⟨-, hno, -⟩ | ⟨-, r', src, hsrc, -, ⟨e, -, -, hno⟩ | ⟨rfl, hhard⟩⟩
    · cases hno
    · cases hno
    · exact absurd ((read_patient softErrnos).error hs hsrc) (hhard e rfl)

/-- The parser state and the unread bytes together encode the frames `rest`. -/
def InSync (c : Client) (rest : List Frame) : Prop :=
  match c.frameState with
  | .hdr2 => c.part.length < 2 ∧ c.part ++ c.inp.unread = encodeAll rest
  | .ext16 => c.part.length < 2 ∧ ∃ f later, rest = f :: later ∧ c.frameB1 = f.b1 ∧ f.form = .ext16 ∧
      c.part ++ c.inp.unread = Bytes.toBe 2 f.payload.length ++ (f.payload ++ encodeAll later)
  | .ext64 => c.part.length < 8 ∧ ∃ f later, rest = f :: later ∧ c.frameB1 = f.b1 ∧ f.form = .ext64 ∧
      c.part ++ c.inp.unread = Bytes.toBe 8 f.payload.length ++ (f.payload ++ encodeAll later)
  | .body => c.framePartial = none ∧ ∃ f later, rest = f :: later ∧ c.frameB1 = f.b1 ∧ c.frameN = f.payload.length ∧
      (c.frameBody.length < c.frameN ∨ c.frameBody = []) ∧ c.frameBody ++ c.inp.unread = f.payload ++ encodeAll later

/-- What a step that completes no frame leaves alone. -/
structure Quiet (c c' : Client) : Prop where
  recvBuf : c'.recvBuf = c.recvBuf
  sock : c'.sock = c.sock
  closed : c'.closed = c.closed
  masks : c'.masks = c.masks
  masksUsed : c'.masksUsed = c.masksUsed

/-- What completing frame `f` does. -/
structure Handled (c c' : Client) (f : Frame) : Prop where
  recvBuf : c'.recvBuf = c.recvBuf ++ dataOf f
  writes : c'.sock.writes = []
  written : c'.sock.written = c.sock.written ++ encodeAll (replies c.masks c.masksUsed [f])
  masks : c'.masks = c.masks
  masksUsed : c'.masksUsed = c.masksUsed + (replies c.masks c.masksUsed [f]).length

/-- One step over the stream `rest`: it has nothing to read, or moves on within
a frame, or completes one, which ends the stream when it is a close frame. -/
inductive PumpOk (c : Client) (rest : List Frame) : Except Raised Pump × Client → Prop where
  | wait (c' : Client) : InSync c' rest → Quiet c c' → c'.inp.Open → c'.inp.misses ≤ c.inp.misses →
      (c'.inp.misses < c.inp.misses ∨ rest = []) → PumpOk c rest (.ok .noData, c')
  | more (c' : Client) : InSync c' rest → Quiet c c' → c'.inp.Open → c'.inp.misses ≤ c.inp.misses →
      PumpOk c rest (.ok .progress, c')
  | frame (f : Frame) (later : List Frame) (c' : Client) : rest = f :: later → f.opcode ≠ 0x8 → InSync c' later →
      Handled c c' f → c'.closed = c.closed → c'.inp.Open → c'.inp.misses ≤ c.inp.misses →
      PumpOk c rest (.ok .progress, c')
  | close (f : Frame) (c' : Client) : rest = [f] → f.opcode = 0x8 → Handled c c' f → c'.closed = true →
      PumpOk c rest (.ok .closed, c')

theorem Quiet.trans {c c' c'' : Client} (h : Quiet c c') (h' : Quiet c' c'') : Quiet c c'' :=
  ⟨h'.recvBuf.trans h.recvBuf, h'.sock.trans h.sock, h'.closed.trans h.closed, h'.masks.trans h.masks,
    h'.masksUsed.trans h.masksUsed⟩

theorem Handled.of_quiet {c c' c'' : Client} {f : Frame} (h : Quiet c c') (h' : Handled c' c'' f) : Handled c c'' f := by
  refine ⟨?_, h'.writes, ?_, h'.masks.trans h.masks, ?_⟩
  · rw [h'.recvBuf, h.recvBuf]
  · rw [h'.written, h.sock, h.masks, h.masksUsed]
  · rw [h'.masksUsed, h.masks, h.masksUsed]

/-- A step from a state that a read has led to is a step from the state before the read. -/
theorem PumpOk.of_quiet {c c' : Client} {rest : List Frame} {r : Except Raised Pump × Client} (h : Quiet c c')
    (hm : c'.inp.misses ≤ c.inp.misses) (hr : PumpOk c' rest r) : PumpOk c rest r := by
  cases hr with
  | wait c'' hsync hq hopen hle hor =>
    exact .wait c'' hsync (h.trans hq) hopen (Nat.le_trans hle hm) (hor.imp_left fun hlt => Nat.lt_of_lt_of_le hlt hm)
  | more c'' hsync hq hopen hle => exact .more c'' hsync (h.trans hq) hopen (Nat.le_trans hle hm)
  | frame f later c'' hrest h8 hsync hh hcl hopen hle =>
    exact .frame f later c'' hrest h8 hsync (.of_quiet h hh) (hcl.trans h.closed) hopen (Nat.le_trans hle hm)
  | close f c'' hrest h8 hh hcl => exact .close f c'' hrest h8 (.of_quiet h hh) hcl

/-- Filling a header from an open socket: a wait, or exactly the bytes asked for. -/
theorem withFill_open {c : Client} (hopen : c.inp.Open) {n : Nat} (hpart : c.part.length ≤ n)
    (next : Client → Bytes → Except Raised Pump × Client) :
    ∃ taken inp, taken ++ inp.unread = c.part ++ c.inp.unread ∧ inp.Open ∧ inp.misses ≤ c.inp.misses ∧
      ((withFill c n next = (.ok .noData, { c with framePartial := some taken, inp := inp }) ∧ taken.length < n ∧
          (inp.misses < c.inp.misses ∨ inp.unread = [])) ∨
        (withFill c n next = next { c with framePartial := none, inp := inp } taken ∧ taken.length = n)) := by
  obtain ⟨stop, taken, inp, hfill, hu, hopen', hle, hor⟩ := fill_outcome tryRead_lossless tryRead_patient hpart hopen
  refine ⟨taken, inp, hu, hopen', hle, ?_⟩
  unfold withFill tryFill
  rw [show fill tryRead n (c.framePartial.getD []) c.inp = _ from hfill]
  rcases hor with ⟨rfl, hlen⟩ | ⟨rfl | ⟨e, he, -⟩, hlt, hmiss⟩
  · exact .inr ⟨rfl, hlen⟩
  · exact .inl ⟨rfl, hlt, hmiss⟩
  · cases he

/-! Completing a frame. -/

theorem replies_one (masks : Nat → Mask) (k : Nat) (f : Frame) :
    replies masks k [f] = (replyTo (masks k) f).toList := by
  rw [replies]
  cases replyTo (masks k) f <;> rfl

/-- The client once frame `f` is handled. -/
def afterFrame (c : Client) (f : Frame) : Client :=
  { c with
    sock := { c.sock with written := c.sock.written ++ encodeAll (replies c.masks c.masksUsed [f]) }
    recvBuf := c.recvBuf ++ dataOf f
    closed := c.closed || decide (f.opcode = 0x8)
    masksUsed := c.masksUsed + (replies c.masks c.masksUsed [f]).length }

/-- A complete frame does what its opcode says, and nothing to the parser. -/
theorem handleFrame_ok {c : Client} (hw : c.sock.writes = []) {f : Frame} (hfin : f.fin) :
    handleFrame c f.b1 f.payload = (.ok (if f.opcode = 0x8 then .closed else .progress), afterFrame c f) := by
  unfold handleFrame
  dsimp only
  rw [if_neg hfin, show f.b1 &&& 0x0F = f.opcode from rfl]
  by_cases h9 : f.opcode = 0x9
  · -- Ping.
    rw [if_pos h9, sendMessage_ok c hw f.payload (payload_lt f) 0xA]
    simp [afterFrame, afterMessage, replies_one, replyTo, dataOf, h9, Except.map]
  · rw [if_neg h9]
    by_cases hA : f.opcode = 0xA
    · -- Pong.
      rw [if_pos hA]
      simp [afterFrame, replies_one, replyTo, dataOf, hA]
    · rw [if_neg hA]
      by_cases h8 : f.opcode = 0x8
      · -- Close.
        rw [if_pos h8, sendMessage_ok c hw [] (by decide) 0x8]
        simp [afterFrame, afterMessage, replies_one, replyTo, dataOf, h8]
      · rw [if_neg h8]
        by_cases hdata : f.opcode = 0x1 ∨ f.opcode = 0x2
        · -- Text or binary.
          rw [if_pos hdata]
          simp [afterFrame, replies_one, replyTo, dataOf, hdata, h8, h9]
        · rw [if_neg hdata]
          simp [afterFrame, replies_one, replyTo, dataOf, hdata, h8, h9]

/-- The body of the first frame is complete. -/
theorem finishFrame_ok {c : Client} {f : Frame} {later : List Frame} (hw : c.sock.writes = []) (hopen : c.inp.Open)
    (hstream : ServerStream (f :: later)) (hb1 : c.frameB1 = f.b1) (hbody : c.frameBody = f.payload)
    (hpart : c.framePartial = none) (hrest : c.inp.unread = encodeAll later) :
    PumpOk c (f :: later) (finishFrame c) := by
  have he : finishFrame c = (.ok (if f.opcode = 0x8 then .closed else .progress), afterFrame c.reset f) := by
    have hw' : c.reset.sock.writes = [] := hw
    rw [finishFrame, hb1, hbody]
    exact handleFrame_ok hw' (hstream.plain f (by simp)).2
  have hh : Handled c (afterFrame c.reset f) f := ⟨rfl, hw, rfl, rfl, rfl⟩
  rw [he]
  by_cases h8 : f.opcode = 0x8
  · rw [if_pos h8]
    obtain rfl : later = [] := by
      cases later with
      | nil => rfl
      | cons g gs => exact absurd h8 (hstream.close_last f (by simp))
    exact .close f _ rfl h8 hh (by simp [afterFrame, h8])
  · rw [if_neg h8]
    refine .frame f later _ rfl h8 ?_ hh ?_ hopen (Nat.le_refl _)
    · have hnone : (afterFrame c.reset f).part = [] := by
        rw [Client.part, show (afterFrame c.reset f).framePartial = c.framePartial from rfl, hpart]
        rfl
      change (afterFrame c.reset f).part.length < 2 ∧ (afterFrame c.reset f).part ++ c.inp.unread = encodeAll later
      rw [hnone]
      exact ⟨by decide, hrest⟩
    · simp [afterFrame, Client.reset, h8]

/-! The three kinds of header. -/

/-- An unmasked frame, laid out. -/
theorem encode_plain {f : Frame} (hm : f.mask = none) :
    encode f = [f.b1, UInt8.ofNat (f.form.field f.payload.length)] ++ (f.form.ext f.payload.length ++ f.payload) := by
  rw [encode, hm]
  simp [maskBit, maskKey, applyMask]

theorem lenField_bits : ∀ k < 128, (UInt8.ofNat k) &&& 0x80 = 0 ∧ ((UInt8.ofNat k) &&& 0x7F).toNat = k := by decide

/-- The first two bytes of the first frame move the parser to its length or its body. -/
theorem startFrame_ok {c : Client} {f : Frame} {later : List Frame} {taken : Bytes} (hlen : taken.length = 2)
    (hm : f.mask = none) (hpart : c.framePartial = none) (hu : taken ++ c.inp.unread = encodeAll (f :: later)) :
    ∃ c', startFrame c taken = (.ok .progress, c') ∧ InSync c' (f :: later) ∧ Quiet c c' ∧ c'.inp = c.inp := by
  rw [encodeAll_cons, encode_plain hm, List.append_assoc, List.append_assoc] at hu
  obtain ⟨rfl, hrest⟩ := List.append_inj hu (by rw [hlen]; rfl)
  obtain ⟨hbit, hfield⟩ := lenField_bits _ (LenForm.field_lt f.fits)
  have hstep : startFrame c [f.b1, UInt8.ofNat (f.form.field f.payload.length)] =
      (if f.form.field f.payload.length = 126 then (.ok .progress, { c with
          frameB1 := f.b1, frameB2 := UInt8.ofNat (f.form.field f.payload.length), frameState := .ext16 })
        else if f.form.field f.payload.length = 127 then (.ok .progress, { c with
          frameB1 := f.b1, frameB2 := UInt8.ofNat (f.form.field f.payload.length), frameState := .ext64 })
        else (.ok .progress, { c with
          frameB1 := f.b1, frameB2 := UInt8.ofNat (f.form.field f.payload.length), frameState := .body,
          frameN := f.form.field f.payload.length, frameBody := [] })) := by
    unfold startFrame
    simp only [List.getD_cons_zero, List.getD_cons_succ, hbit, hfield, ne_eq, not_true, if_false]
  have hpart' : c.part = [] := by rw [Client.part, hpart]; rfl
  obtain ⟨form, hform⟩ : ∃ form, f.form = form := ⟨_, rfl⟩
  cases form with
  | short =>
    have hlt : f.payload.length < 126 := by have := f.fits; rwa [hform] at this
    have hfl : f.form.field f.payload.length = f.payload.length := by rw [hform]; rfl
    have hext : f.form.ext f.payload.length = [] := by rw [hform]; rfl
    rw [hext] at hrest
    rw [hstep, hfl, if_neg (Nat.ne_of_lt hlt), if_neg (Nat.ne_of_lt (Nat.lt_succ_of_lt hlt))]
    exact ⟨_, rfl, ⟨hpart, f, later, rfl, rfl, rfl, .inr rfl, hrest⟩, ⟨rfl, rfl, rfl, rfl, rfl⟩, rfl⟩
  | ext16 =>
    have hfl : f.form.field f.payload.length = 126 := by rw [hform]; rfl
    rw [hform] at hrest
    rw [hstep, if_pos hfl]
    refine ⟨_, rfl, ⟨?_, f, later, rfl, rfl, hform, ?_⟩, ⟨rfl, rfl, rfl, rfl, rfl⟩, rfl⟩
    · change c.part.length < 2
      rw [hpart']; decide
    · change c.part ++ c.inp.unread = _
      rw [hpart']; exact hrest
  | ext64 =>
    have hfl : f.form.field f.payload.length = 127 := by rw [hform]; rfl
    rw [hform] at hrest
    rw [hstep, if_neg (by rw [hfl]; decide), if_pos hfl]
    refine ⟨_, rfl, ⟨?_, f, later, rfl, rfl, hform, ?_⟩, ⟨rfl, rfl, rfl, rfl, rfl⟩, rfl⟩
    · change c.part.length < 8
      rw [hpart']; decide
    · change c.part ++ c.inp.unread = _
      rw [hpart']; exact hrest

/-- The extended length of the first frame moves the parser to its body. -/
theorem startBody_ok {c : Client} {f : Frame} {later : List Frame} {taken : Bytes} {k : Nat} (hlen : taken.length = k)
    (hb1 : c.frameB1 = f.b1) (hpart : c.framePartial = none) (hfit : f.payload.length < 256 ^ k)
    (hu : taken ++ c.inp.unread = Bytes.toBe k f.payload.length ++ (f.payload ++ encodeAll later)) :
    ∃ c', startBody c taken = (.ok .progress, c') ∧ InSync c' (f :: later) ∧ Quiet c c' ∧ c'.inp = c.inp := by
  obtain ⟨rfl, hrest⟩ := List.append_inj hu (by rw [hlen, Bytes.length_toBe])
  refine ⟨_, rfl, ⟨hpart, f, later, rfl, hb1, Bytes.ofBe_toBe hfit, .inr rfl, ?_⟩, ⟨rfl, rfl, rfl, rfl, rfl⟩, rfl⟩
  exact hrest

/-- A header step: it waits, or `next` takes the bytes it wants. -/
theorem withFill_ok {c : Client} {rest : List Frame} {n : Nat} {next : Client → Bytes → Except Raised Pump × Client}
    (hopen : c.inp.Open) (hpart : c.part.length ≤ n)
    (hwait : ∀ taken inp, taken.length < n → taken ++ inp.unread = c.part ++ c.inp.unread →
      InSync { c with framePartial := some taken, inp := inp } rest ∧ (inp.unread = [] → rest = []))
    (hnext : ∀ taken inp, taken.length = n → taken ++ inp.unread = c.part ++ c.inp.unread →
      ∃ c', next { c with framePartial := none, inp := inp } taken = (.ok .progress, c') ∧ InSync c' rest ∧
        Quiet { c with framePartial := none, inp := inp } c' ∧ c'.inp = inp) :
    PumpOk c rest (withFill c n next) := by
  obtain ⟨taken, inp, hu, hopen', hmiss, ⟨he, hlt, hor⟩ | ⟨he, hlen⟩⟩ := withFill_open hopen hpart next
  · rw [he]
    obtain ⟨hsync, hend⟩ := hwait taken inp hlt hu
    exact .wait _ hsync ⟨rfl, rfl, rfl, rfl, rfl⟩ hopen' hmiss (hor.imp_right hend)
  · obtain ⟨c', hc', hsync, hquiet, hinp⟩ := hnext taken inp hlen hu
    rw [he, hc']
    have hq : Quiet c { c with framePartial := none, inp := inp } := ⟨rfl, rfl, rfl, rfl, rfl⟩
    exact .more c' hsync (hq.trans hquiet) (hinp ▸ hopen') (hinp ▸ hmiss)

/-- The first header bytes of a frame, or the end of the stream. -/
theorem hdr_ok {c : Client} {rest : List Frame} (hopen : c.inp.Open) (hstream : ServerStream rest) (hs : c.frameState = .hdr2)
    (hpart : c.part.length < 2) (hu : c.part ++ c.inp.unread = encodeAll rest) :
    PumpOk c rest (withFill c 2 startFrame) := by
  apply withFill_ok hopen (Nat.le_of_lt hpart)
  · intro taken inp hlt hun
    rw [hu] at hun
    refine ⟨?_, ?_⟩
    · simp only [InSync, hs]
      exact ⟨hlt, hun⟩
    · intro h
      rw [h, List.append_nil] at hun
      cases rest with
      | nil => rfl
      | cons f later =>
        have := encode_length_pos f
        rw [hun, encodeAll_cons, List.length_append] at hlt
        omega
  · intro taken inp hlen hun
    rw [hu] at hun
    cases rest with
    | nil =>
      have := congrArg List.length hun
      rw [List.length_append, hlen, encodeAll_nil, List.length_nil] at this
      omega
    | cons f later => exact startFrame_ok hlen (hstream.plain f (by simp)).1 rfl hun

/-- The extended length of a frame, in `k` bytes. -/
theorem ext_ok {c : Client} {f : Frame} {later : List Frame} {k : Nat} (hopen : c.inp.Open) (hpart : c.part.length < k)
    (hb1 : c.frameB1 = f.b1) (hfit : f.payload.length < 256 ^ k)
    (hu : c.part ++ c.inp.unread = Bytes.toBe k f.payload.length ++ (f.payload ++ encodeAll later))
    (hsync : ∀ taken inp, taken.length < k →
      taken ++ inp.unread = Bytes.toBe k f.payload.length ++ (f.payload ++ encodeAll later) →
      InSync { c with framePartial := some taken, inp := inp } (f :: later)) :
    PumpOk c (f :: later) (withFill c k startBody) := by
  apply withFill_ok hopen (Nat.le_of_lt hpart)
  · intro taken inp hlt hun
    rw [hu] at hun
    refine ⟨hsync taken inp hlt hun, ?_⟩
    intro h
    rw [h, List.append_nil] at hun
    rw [hun, List.length_append, Bytes.length_toBe] at hlt
    omega
  · intro taken inp hlen hun
    exact startBody_ok hlen hb1 rfl hfit (hun.trans hu)

/-- The client with one more chunk of the body. -/
def withChunk (c : Client) (inp : Input) (xs : Bytes) : Client :=
  { c with inp := inp, frameBody := c.frameBody ++ xs, frameState := .body }

/-- A body chunk that is there. -/
theorem chunk_ok {c : Client} {f : Frame} {later : List Frame} {inp : Input} {xs : Bytes} (hw : c.sock.writes = [])
    (hopen : inp.Open) (hm : inp.misses ≤ c.inp.misses) (hstream : ServerStream (f :: later))
    (hpart : c.framePartial = none) (hb1 : c.frameB1 = f.b1) (hn : c.frameN = f.payload.length)
    (hle : (c.frameBody ++ xs).length ≤ c.frameN)
    (hu : (c.frameBody ++ xs) ++ inp.unread = f.payload ++ encodeAll later) :
    PumpOk c (f :: later) (if (c.frameBody ++ xs).length < c.frameN then (.ok .progress, withChunk c inp xs)
      else finishFrame (withChunk c inp xs)) := by
  have hq : Quiet c (withChunk c inp xs) := ⟨rfl, rfl, rfl, rfl, rfl⟩
  split
  · rename_i hmore
    refine .more _ ?_ hq hopen hm
    simp only [InSync, withChunk]
    exact ⟨hpart, f, later, rfl, hb1, hn, .inl hmore, hu⟩
  · rename_i hdone
    obtain ⟨hb, hrest⟩ := List.append_inj hu (by omega)
    have hfin : PumpOk (withChunk c inp xs) (f :: later) (finishFrame (withChunk c inp xs)) :=
      finishFrame_ok hw hopen hstream hb1 hb hpart hrest
    exact hfin.of_quiet hq hm

/-- A step inside a body. -/
theorem body_ok {c : Client} {f : Frame} {later : List Frame} (hw : c.sock.writes = []) (hopen : c.inp.Open)
    (hstream : ServerStream (f :: later)) (hs : c.frameState = .body) (hpart : c.framePartial = none) (hb1 : c.frameB1 = f.b1)
    (hn : c.frameN = f.payload.length) (hbody : c.frameBody.length < c.frameN ∨ c.frameBody = [])
    (hu : c.frameBody ++ c.inp.unread = f.payload ++ encodeAll later) :
    PumpOk c (f :: later) (pumpOneStep c) := by
  unfold pumpOneStep
  rw [hs]
  dsimp only
  by_cases hpos : 0 < c.frameN
  · have hlt : c.frameBody.length < c.frameN := by
      rcases hbody with h | h
      · exact h
      · rw [h]; exact hpos
    have hsub : 0 < c.frameN - c.frameBody.length := by omega
    rw [if_pos hpos]
    cases hr : tryRead (c.frameN - c.frameBody.length) c.inp with
    | mk r inp =>
      have hopen' := tryRead_patient.keeps hopen hr
      cases r with
      | none =>
        obtain ⟨hun, hmiss, hor⟩ := tryRead_lossless.none hr
        refine .wait _ ?_ ⟨rfl, rfl, rfl, rfl, rfl⟩ hopen' hmiss (hor.imp_right ?_)
        · simp only [InSync]
          exact ⟨hpart, f, later, rfl, hb1, hn, hbody, by rw [hun]; exact hu⟩
        · intro h
          -- The body is short of its length, so something is unread.
          have := congrArg List.length hu
          rw [h, List.append_nil, List.length_append] at this
          omega
      | error e => exact absurd (tryRead_patient.error hopen hr) (by simp)
      | chunk xs =>
        obtain ⟨hun, hlen, hmiss⟩ := tryRead_lossless.chunk hsub hr
        dsimp only
        rw [if_neg]
        · apply chunk_ok hw hopen' (Nat.le_of_eq hmiss) hstream hpart hb1 hn
          · rw [List.length_append]
            omega
          · rw [List.append_assoc, ← hun]
            exact hu
        · rintro rfl
          exact tryRead_patient.chunk hsub hopen hr
  · -- An empty body: nothing is read.
    have hzero : f.payload = [] := List.length_eq_zero_iff.1 (by omega)
    have hnil : c.frameBody = [] := by
      rcases hbody with h | h
      · omega
      · exact h
    rw [if_neg hpos]
    apply finishFrame_ok hw hopen hstream hb1
    · rw [hnil, hzero]
    · exact hpart
    · rw [hnil, hzero] at hu
      exact hu

/-- One step of the parser keeps it in step with the stream. -/
theorem pump_ok {c : Client} {rest : List Frame} (hw : c.sock.writes = []) (hopen : c.inp.Open) (hstream : ServerStream rest)
    (hsync : InSync c rest) : PumpOk c rest (pumpOneStep c) := by
  obtain ⟨state, hs⟩ : ∃ state, c.frameState = state := ⟨_, rfl⟩
  cases state with
  | hdr2 =>
    simp only [InSync, hs] at hsync
    unfold pumpOneStep
    rw [hs]
    exact hdr_ok hopen hstream hs hsync.1 hsync.2
  | ext16 =>
    simp only [InSync, hs] at hsync
    obtain ⟨hpart, f, later, rfl, hb1, hform, hu⟩ := hsync
    have hfit : f.payload.length < 256 ^ 2 := by have := f.fits; rwa [hform] at this
    unfold pumpOneStep
    rw [hs]
    apply ext_ok hopen hpart hb1 hfit hu
    intro taken inp hlt hun
    simp only [InSync, hs]
    exact ⟨hlt, f, later, rfl, hb1, hform, hun⟩
  | ext64 =>
    simp only [InSync, hs] at hsync
    obtain ⟨hpart, f, later, rfl, hb1, hform, hu⟩ := hsync
    have hfit : f.payload.length < 256 ^ 8 := by have := f.fits; rwa [hform] at this
    unfold pumpOneStep
    rw [hs]
    apply ext_ok hopen hpart hb1 hfit hu
    intro taken inp hlt hun
    simp only [InSync, hs]
    exact ⟨hlt, f, later, rfl, hb1, hform, hun⟩
  | body =>
    simp only [InSync, hs] at hsync
    obtain ⟨hpart, f, later, rfl, hb1, hn, hbody, hu⟩ := hsync
    exact body_ok hw hopen hstream hs hpart hb1 hn hbody hu

end CalcBridge.Net
