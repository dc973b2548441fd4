import CalcBridge.LinkLib.Framing
import CalcBridge.LinkLib.Runs
import CalcBridge.Net.WsClient
/-!
# Polling for frames (`src/net.py`, `FrameReader`)

`poll` reads one length-prefixed frame from a socket that may have nothing
yet, and goes on where the last poll stopped. It only calls its socket's
`recv`, so one model serves the plain socket and the `WSClient`: `Serves` is
what it needs of a `recv`, bytes in order and finitely many calls that find
nothing.
-/
open LinkLib LinkLib.Source LinkLib.Framing LinkLib.Runs

namespace CalcBridge.Net

/-! ## The reader -/

/-- A socket's `recv`. -/
abbrev Recv (σ : Type) := Nat → σ → Except Raised (Option Bytes) × σ

/-- The reader and its socket. -/
structure FrameReader (σ : Type) where
  hdr : Bytes
  body : Bytes
  /-- `none` until the header is parsed. -/
  needed : Option Nat
  sock : σ
  deriving DecidableEq, Repr

/-- `FrameReader(sock)`. -/
def FrameReader.init {σ : Type} (sock : σ) : FrameReader σ := ⟨[], [], none, sock⟩

section Poll
variable {σ : Type} (recv : Recv σ)

/-- A loop of `poll`: whether `acc` got `n` bytes, or what ended it. -/
def recvTo (n : Nat) (acc : Bytes) (s : σ) : Except Raised Bool × Bytes × σ :=
  if acc.length < n then
    match recv (n - acc.length) s with
    | (.error r, s') => (.error r, acc, s')
    | (.ok none, s') => (.ok false, acc, s')
    | (.ok (some xs), s') => if xs = [] then (.error (.msg "peer closed"), acc, s') else recvTo n (acc ++ xs) s'
  else (.ok true, acc, s)
  termination_by n - acc.length
  decreasing_by
    have := List.length_pos_iff.2 ‹¬ xs = []›
    simp only [List.length_append]
    omega

/-- The errors `poll` takes for "no frame yet". -/
def excused : Raised → Bool
  | .errno e => e ∈ softErrnos
  | _ => false

/-- A loop that stopped short. -/
def stoppedShort (res : Except Raised Bool) (r : FrameReader σ) : Except Raised (Option Bytes) × FrameReader σ :=
  match res with
  | .error e => if excused e then (.ok none, r) else (.error e, r)
  | .ok _ => (.ok none, r)

/-- `poll` once the header says `n` bytes. -/
def pollBody (r : FrameReader σ) (n : Nat) : Except Raised (Option Bytes) × FrameReader σ :=
  match recvTo recv n r.body r.sock with
  | (.ok true, payload, sock) => (.ok (some payload), .init sock)
  | (res, body, sock) => stoppedShort res { r with body, sock }

/-- `poll`. The oversize error is raised inside its `try`, but its text is no errno. -/
def poll (r : FrameReader σ) : Except Raised (Option Bytes) × FrameReader σ :=
  match r.needed with
  | some n => pollBody recv r n
  | none =>
    match recvTo recv 4 r.hdr r.sock with
    | (.ok true, hdr, sock) =>
      let n := Bytes.ofBe hdr
      let r := { r with hdr, needed := some n, sock }
      if 1 <<< 20 < n then (.error (.msg "oversize frame"), r) else pollBody recv r n
    | (res, hdr, sock) => stoppedShort res { r with hdr, sock }

end Poll

/-- The bytes `send_framed` writes to a plain socket. -/
def framedBytes (payload : Bytes) : Bytes := (framedParts payload).elim [] fun parts => parts.1 ++ parts.2

theorem framedBytes_eq {payload : Bytes} (h : Fits payload) : framedBytes payload = frame payload := by
  rw [framedBytes, framedParts, if_pos (show payload.length < 2 ^ 32 from h)]
  rfl

theorem lt_of_cap {n : Nat} (h : n ≤ 1 <<< 20) : n < 2 ^ 32 := Nat.lt_of_le_of_lt h (by decide)

/-! ## What a transport gives -/

/-- The call found nothing yet. -/
def Waits (r : Except Raised (Option Bytes)) : Prop := r = .ok none ∨ ∃ e ∈ softErrnos, r = .error (.errno e)

/-- `Ahead s bytes m`: from `s` on come `bytes`, with at most `m` calls that
find nothing before they are out. The end of the stream comes only after them. -/
structure Serves {σ : Type} (recv : Recv σ) (Ahead : σ → Bytes → Nat → Prop) : Prop where
  call : ∀ {s s' : σ} {r : Except Raised (Option Bytes)} {bytes : Bytes} {m n : Nat}, Ahead s bytes m → 0 < n →
    recv n s = (r, s') →
    (∃ xs rest, r = .ok (some xs) ∧ xs ≠ [] ∧ xs.length ≤ n ∧ bytes = xs ++ rest ∧ Ahead s' rest m) ∨
    (Waits r ∧ ∃ m' ≤ m, Ahead s' bytes m' ∧ (m' < m ∨ bytes = [])) ∨
    (r = .ok (some []) ∧ bytes = [] ∧ Ahead s' [] m)

/-- The stream of such a transport may end. -/
def CanEnd {σ : Type} (recv : Recv σ) (Ahead : σ → Bytes → Nat → Prop) : Prop :=
  ∃ s s' m n, Ahead s [] m ∧ 0 < n ∧ recv n s = (.ok (some []), s')

section Serves
variable {σ : Type} {recv : Recv σ} {Ahead : σ → Bytes → Nat → Prop}

/-! One turn of a loop. -/

theorem recvTo_full {n : Nat} {acc : Bytes} {s : σ} (h : ¬ acc.length < n) : recvTo recv n acc s = (.ok true, acc, s) := by
  rw [recvTo, if_neg h]

theorem recvTo_fail {n : Nat} {acc : Bytes} {s s' : σ} {r : Raised} (h : acc.length < n)
    (hr : recv (n - acc.length) s = (.error r, s')) : recvTo recv n acc s = (.error r, acc, s') := by
  rw [recvTo, if_pos h, hr]

theorem recvTo_none {n : Nat} {acc : Bytes} {s s' : σ} (h : acc.length < n) (hr : recv (n - acc.length) s = (.ok none, s')) :
    recvTo recv n acc s = (.ok false, acc, s') := by
  rw [recvTo, if_pos h, hr]

theorem recvTo_eof {n : Nat} {acc : Bytes} {s s' : σ} (h : acc.length < n)
    (hr : recv (n - acc.length) s = (.ok (some []), s')) : recvTo recv n acc s = (.error (.msg "peer closed"), acc, s') := by
  rw [recvTo, if_pos h, hr]
  exact if_pos rfl

theorem recvTo_more {n : Nat} {acc xs : Bytes} {s s' : σ} (h : acc.length < n) (hne : xs ≠ [])
    (hr : recv (n - acc.length) s = (.ok (some xs), s')) : recvTo recv n acc s = recvTo recv n (acc ++ xs) s' := by
  rw [recvTo, if_pos h, hr]
  exact if_neg hne

/-- A loop stopped with nothing to read. -/
def Short (res : Except Raised Bool) : Prop := res = .ok false ∨ ∃ e ∈ softErrnos, res = .error (.errno e)

theorem recvTo_waits {n : Nat} {acc : Bytes} {s s' : σ} {r : Except Raised (Option Bytes)} (h : acc.length < n)
    (hr : recv (n - acc.length) s = (r, s')) (hw : Waits r) : ∃ res, recvTo recv n acc s = (res, acc, s') ∧ Short res := by
  rcases hw with rfl | ⟨e, he, rfl⟩
  · exact ⟨_, recvTo_none h hr, .inl rfl⟩
  · exact ⟨_, recvTo_fail h hr, .inr ⟨e, he, rfl⟩⟩

/-- A loop of `poll` from such a transport: it has its bytes, or waits for
more, or met the end of the stream with nothing left to come. -/
theorem recvTo_serves (hs : Serves recv Ahead) {n : Nat} {acc : Bytes} {s : σ} {bytes : Bytes} {m : Nat}
    (h : Ahead s bytes m) (hacc : acc.length ≤ n) :
    ∃ res acc' rest m' s', recvTo recv n acc s = (res, acc', s') ∧ acc' ++ rest = acc ++ bytes ∧ Ahead s' rest m' ∧
      m' ≤ m ∧ ((res = .ok true ∧ acc'.length = n) ∨ (Short res ∧ acc'.length < n ∧ (m' < m ∨ rest = [])) ∨
        (res = .error (.msg "peer closed") ∧ acc'.length < n ∧ rest = [] ∧ CanEnd recv Ahead)) := by
  induction hk : n - acc.length using Nat.strong_induction_on generalizing acc s bytes m with
  | _ k ih =>
    by_cases hlt : acc.length < n
    · obtain ⟨r, s', hr⟩ : ∃ r s', recv (n - acc.length) s = (r, s') := ⟨_, _, rfl⟩
      rcases hs.call h (by omega) hr with ⟨xs, rest, rfl, hne, hle, rfl, h'⟩ | ⟨hw, m', hm, h', hor⟩ | ⟨rfl, rfl, h'⟩
      · have hpos := List.length_pos_iff.2 hne
        have hlen : (acc ++ xs).length = acc.length + xs.length := List.length_append
        rw [recvTo_more hlt hne hr, ← List.append_assoc]
        exact ih (n - (acc ++ xs).length) (by omega) h' (by omega) rfl
      · obtain ⟨res, he, hshort⟩ := recvTo_waits hlt hr hw
        exact ⟨res, acc, bytes, m', s', he, rfl, h', hm, .inr (.inl ⟨hshort, hlt, hor⟩)⟩
      · exact ⟨_, acc, [], m, s', recvTo_eof hlt hr, rfl, h', Nat.le_refl m,
          .inr (.inr ⟨rfl, hlt, rfl, s, s', m, n - acc.length, h, by omega, hr⟩)⟩
    · exact ⟨_, acc, bytes, m, s, recvTo_full hlt, rfl, h, Nat.le_refl m, .inl ⟨rfl, by omega⟩⟩

/-! ## One poll -/

/-- The reader is at `bytes`: what it has of the current frame and what comes. -/
structure At (Ahead : σ → Bytes → Nat → Prop) (r : FrameReader σ) (bytes : Bytes) (m : Nat) : Prop where
  header : r.needed = none → r.hdr.length < 4 ∧ r.body = [] ∧ ∃ rest, r.hdr ++ rest = bytes ∧ Ahead r.sock rest m
  body : ∀ n, r.needed = some n → n ≤ 1 <<< 20 ∧ r.body.length ≤ n ∧
    ∃ rest, Bytes.toBe 4 n ++ (r.body ++ rest) = bytes ∧ Ahead r.sock rest m

theorem At.init {s : σ} {bytes : Bytes} {m : Nat} (h : Ahead s bytes m) : At Ahead (.init s) bytes m where
  header _ := ⟨(by decide : 0 < 4), rfl, bytes, rfl, h⟩
  body n hn := by cases hn

/-- How a poll in front of, or inside, a frame ends when more of it must come. -/
def StaysAt (Ahead : σ → Bytes → Nat → Prop) (res : Except Raised (Option Bytes)) (r : FrameReader σ) (bytes : Bytes)
    (m : Nat) :
    Prop := res = .ok none ∧ ∃ m' < m, At Ahead r bytes m'

theorem stoppedShort_eq {res : Except Raised Bool} (h : Short res) (r : FrameReader σ) :
    stoppedShort res r = (.ok none, r) := by
  rcases h with rfl | ⟨e, he, rfl⟩
  · rfl
  · have hex : excused (.errno e) = true := by simpa [excused] using he
    exact if_pos hex

/-- A poll over the body of `payload`'s frame. -/
theorem pollBody_ok (hs : Serves recv Ahead) {r : FrameReader σ} {payload later rest : Bytes} {m : Nat}
    (hneeded : r.needed = some payload.length) (hcap : payload.length ≤ 1 <<< 20) (hlen : r.body.length ≤ payload.length)
    (hu : r.body ++ rest = payload ++ later) (h : Ahead r.sock rest m) :
    ∃ res r', pollBody recv r payload.length = (res, r') ∧
      ((res = .ok (some payload) ∧ ∃ m' ≤ m, At Ahead r' later m') ∨
        StaysAt Ahead res r' (frame payload ++ later) m) := by
  obtain ⟨stop, body, rest', m', s', he, hcons, h', hm, hor⟩ := recvTo_serves hs h hlen
  rw [hu] at hcons
  unfold pollBody
  rw [he]
  have hmore (hlt : body.length < payload.length) : rest' ≠ [] := by
    rintro rfl
    have := congrArg List.length hcons
    rw [List.append_nil, List.length_append] at this
    omega
  rcases hor with ⟨rfl, hfull⟩ | ⟨hshort, hlt, hmiss⟩ | ⟨rfl, hlt, hnil, -⟩
  · obtain ⟨rfl, rfl⟩ := List.append_inj hcons hfull
    exact ⟨_, _, rfl, .inl ⟨rfl, m', hm, .init h'⟩⟩
  · refine ⟨.ok none, { r with body, sock := s' }, ?_, .inr ⟨rfl, m', hmiss.resolve_right (hmore hlt), ?_⟩⟩
    · rcases hshort with rfl | ⟨e, hsoft, rfl⟩
      · rfl
      · exact stoppedShort_eq (.inr ⟨e, hsoft, rfl⟩) _
    · refine ⟨fun hn => (by rw [show r.needed = none from hn] at hneeded; cases hneeded), ?_⟩
      intro n hn
      obtain rfl : payload.length = n := Option.some.inj (hneeded.symm.trans hn)
      exact ⟨hcap, Nat.le_of_lt hlt, rest', by rw [frame, List.append_assoc, ← hcons], h'⟩
  · exact absurd hnil (hmore hlt)

/-- A poll in front of a header: it waits, or meets the end, or has the four bytes. -/
theorem poll_header (hs : Serves recv Ahead) {r : FrameReader σ} {bytes : Bytes} {m : Nat} (hat : At Ahead r bytes m)
    (hneeded : r.needed = none) :
    (∃ r', poll recv r = (.ok none, r') ∧ ∃ m' ≤ m, At Ahead r' bytes m' ∧ (m' < m ∨ bytes.length < 4)) ∨
    (∃ r', poll recv r = (.error (.msg "peer closed"), r') ∧ bytes.length < 4 ∧ CanEnd recv Ahead ∧
      ∃ m' ≤ m, At Ahead r' bytes m') ∨
    ∃ hdr rest sock m', hdr.length = 4 ∧ hdr ++ rest = bytes ∧ Ahead sock rest m' ∧ m' ≤ m ∧
      poll recv r = if 1 <<< 20 < Bytes.ofBe hdr
        then (.error (.msg "oversize frame"), ⟨hdr, [], some (Bytes.ofBe hdr), sock⟩)
        else pollBody recv ⟨hdr, [], some (Bytes.ofBe hdr), sock⟩ (Bytes.ofBe hdr) := by
  obtain ⟨hlen, hbody, rest0, hu, h0⟩ := hat.header hneeded
  obtain ⟨res, hdr, rest, m', sock, he, hcons, h', hm, hor⟩ := recvTo_serves hs h0 (Nat.le_of_lt hlen)
  rw [hu] at hcons
  unfold poll
  rw [hneeded]
  dsimp only
  rw [he]
  have hstay (hlt : hdr.length < 4) : At Ahead { r with hdr, sock } bytes m' :=
    ⟨fun _ => ⟨hlt, hbody, rest, hcons, h'⟩, fun n hn => by rw [show r.needed = some n from hn] at hneeded; cases hneeded⟩
  have hshort4 (hlt : hdr.length < 4) (hnil : rest = []) : bytes.length < 4 := by rwa [← hcons, hnil, List.append_nil]
  rcases hor with ⟨rfl, hfull⟩ | ⟨hshort, hlt, hmiss⟩ | ⟨rfl, hlt, hnil, hend⟩
  · refine .inr (.inr ⟨hdr, rest, sock, m', hfull, hcons, h', hm, ?_⟩)
    rw [hbody]
  · refine .inl ⟨{ r with hdr, sock }, ?_, m', hm, hstay hlt, hmiss.imp_right (hshort4 hlt)⟩
    rw [hneeded]
    rcases hshort with rfl | ⟨e, hsoft, rfl⟩
    · rfl
    · exact stoppedShort_eq (.inr ⟨e, hsoft, rfl⟩) _
  · refine .inr (.inl ⟨{ r with hdr, sock }, ?_, hshort4 hlt hnil, hend, m', hm, hstay hlt⟩)
    rw [hneeded]
    rfl

/-- A poll in front of, or inside, the frame of `payload`. -/
theorem poll_frame (hs : Serves recv Ahead) {r : FrameReader σ} {payload later : Bytes} {m : Nat}
    (hcap : payload.length ≤ 1 <<< 20) (hat : At Ahead r (frame payload ++ later) m) :
    ∃ res r', poll recv r = (res, r') ∧
      ((res = .ok (some payload) ∧ ∃ m' ≤ m, At Ahead r' later m') ∨
        StaysAt Ahead res r' (frame payload ++ later) m) := by
  have hfit := lt_of_cap hcap
  have hlong : ¬ (frame payload ++ later).length < 4 := by
    rw [List.length_append, length_frame]
    omega
  cases hneeded : r.needed with
  | none =>
    rcases poll_header hs hat hneeded with ⟨r', he, m', hm, hat', hor⟩ | ⟨r', -, hlt, -⟩ |
      ⟨hdr, rest, sock, m', hlen, hu, h', hm, he⟩
    · exact ⟨_, r', he, .inr ⟨rfl, m', hor.resolve_right hlong, hat'⟩⟩
    · exact absurd hlt hlong
    · rw [frame, List.append_assoc] at hu
      obtain ⟨rfl, hrest⟩ := List.append_inj hu (by rw [hlen, Bytes.length_toBe])
      rw [Bytes.ofBe_toBe_4 hfit, if_neg (Nat.not_lt.2 hcap)] at he
      rw [he]
      -- The length is known now, and the same poll goes on to the body.
      obtain ⟨res, r', hb, hor⟩ := pollBody_ok hs (r := ⟨_, [], some payload.length, sock⟩) rfl hcap (Nat.zero_le _)
        hrest h'
      refine ⟨res, r', hb, hor.imp ?_ ?_⟩
      · rintro ⟨hres, m'', hm', hat'⟩
        exact ⟨hres, m'', Nat.le_trans hm' hm, hat'⟩
      · rintro ⟨hres, m'', hm', hat'⟩
        exact ⟨hres, m'', Nat.lt_of_lt_of_le hm' hm, hat'⟩
  | some n =>
    obtain ⟨hn, hlen, rest, hu, h'⟩ := hat.body n hneeded
    rw [frame, List.append_assoc] at hu
    obtain ⟨hhdr, hrest⟩ := List.append_inj hu (by simp)
    obtain rfl : n = payload.length := Bytes.toBe_4_inj (lt_of_cap hn) hfit hhdr
    have he : poll recv r = pollBody recv r payload.length := by rw [poll, hneeded]
    rw [he]
    exact pollBody_ok hs hneeded hcap hlen hrest h'

/-- A poll at the end of the bytes waits, or meets the end of the stream. -/
theorem poll_end (hs : Serves recv Ahead) {r : FrameReader σ} {m : Nat} (hat : At Ahead r [] m) :
    ∃ res r', poll recv r = (res, r') ∧ (res = .ok none ∨ res = .error (.msg "peer closed") ∧ CanEnd recv Ahead) ∧
      ∃ m', At Ahead r' [] m' := by
  cases hneeded : r.needed with
  | none =>
    rcases poll_header hs hat hneeded with
      ⟨r', he, m', -, hat', -⟩ | ⟨r', he, -, hend, m', -, hat'⟩ | ⟨hdr, rest, sock, m', hlen, hu, -⟩
    · exact ⟨_, r', he, .inl rfl, m', hat'⟩
    · exact ⟨_, r', he, .inr ⟨rfl, hend⟩, m', hat'⟩
    · rw [List.append_eq_nil_iff] at hu
      rw [hu.1] at hlen
      cases hlen
  | some n =>
    obtain ⟨-, -, rest, hu, -⟩ := hat.body n hneeded
    have := congrArg List.length hu
    simp at this

/-- A poll in front of, or inside, a header that says more than `2 ^ 20`. -/
theorem poll_oversize (hs : Serves recv Ahead) {r : FrameReader σ} {n : Nat} {tail : Bytes} {m : Nat} (hn : 1 <<< 20 < n)
    (hfit : n < 2 ^ 32) (hat : At Ahead r (Bytes.toBe 4 n ++ tail) m) :
    r.hdr.length < 4 ∧
    ((∃ r', poll recv r = (.error (.msg "oversize frame"), r') ∧ r'.hdr = Bytes.toBe 4 n ∧ ∃ m', Ahead r'.sock tail m') ∨
      ∃ r', poll recv r = (.ok none, r') ∧ ∃ m' < m, At Ahead r' (Bytes.toBe 4 n ++ tail) m') := by
  have hlong : ¬ (Bytes.toBe 4 n ++ tail).length < 4 := by
    rw [List.length_append, Bytes.length_toBe]
    omega
  cases hneeded : r.needed with
  | none =>
    refine ⟨(hat.header hneeded).1, ?_⟩
    rcases poll_header hs hat hneeded with ⟨r', he, m', hm, hat', hor⟩ | ⟨r', -, hlt, -⟩ |
      ⟨hdr, rest, sock, m', hlen, hu, h', -, he⟩
    · exact .inr ⟨r', he, m', hor.resolve_right hlong, hat'⟩
    · exact absurd hlt hlong
    · obtain ⟨rfl, rfl⟩ := List.append_inj hu (by rw [hlen, Bytes.length_toBe])
      rw [Bytes.ofBe_toBe_4 hfit, if_pos hn] at he
      exact .inl ⟨_, he, rfl, m', h'⟩
  | some k =>
    -- Inside a body the header was not oversize.
    obtain ⟨hk, -, rest, hu, -⟩ := hat.body k hneeded
    obtain ⟨hhdr, -⟩ := List.append_inj hu (by simp)
    exact absurd (Bytes.toBe_4_inj (lt_of_cap hk) hfit hhdr) (by omega)

/-! ## Repeated polls -/

section Polls
variable (recv)

/-- A caller's poll. -/
def pollStep (r : FrameReader σ) (_ : Unit) : FrameReader σ × Except Raised (Option Bytes) := ((poll recv r).2, (poll recv r).1)

/-- `k` polls. -/
def polls (r : FrameReader σ) (k : Nat) : FrameReader σ × List (Unit × Except Raised (Option Bytes)) :=
  run (pollStep recv) r (List.replicate k ())

end Polls

/-- The payloads a run of polls returned. -/
def payloadsOf (h : List (Unit × Except Raised (Option Bytes))) : List Bytes :=
  h.filterMap fun x => x.2.toOption.join

/-- No poll of the run raised. -/
def Returned (h : List (Unit × Except Raised (Option Bytes))) : Prop := ∀ x ∈ h, ∃ o, x.2 = .ok o

/-- A poll that raised came after all the payloads, at the end of the stream. -/
def RaisedAtEnd (payloads : List Bytes) (h : List (Unit × Except Raised (Option Bytes))) : Prop :=
  ∀ i e, h[i]? = some ((), .error e) → e = .msg "peer closed" ∧ payloadsOf (h.take i) = payloads

theorem polls_succ {r r' : FrameReader σ} {res : Except Raised (Option Bytes)} (h : poll recv r = (res, r')) (k : Nat) :
    polls recv r (k + 1) = ((polls recv r' k).1, ((), res) :: (polls recv r' k).2) := by
  rw [polls, List.replicate_succ, run_cons, pollStep, h]
  rfl

theorem RaisedAtEnd.cons {payloads : List Bytes} {h : List (Unit × Except Raised (Option Bytes))} {o : Option Bytes}
    (hh : RaisedAtEnd payloads h) : RaisedAtEnd (o.toList ++ payloads) (((), .ok o) :: h) := by
  intro i e hi
  cases i with
  | zero => simp at hi
  | succ i =>
    obtain ⟨he, hpay⟩ := hh i e hi
    refine ⟨he, ?_⟩
    rw [List.take_succ_cons, ← hpay]
    cases o <;> rfl

theorem Returned.cons {h : List (Unit × Except Raised (Option Bytes))} (o : Option Bytes) (hh : Returned h) :
    Returned (((), .ok o) :: h) := by
  intro x hx
  rcases List.mem_cons.1 hx with rfl | hx
  · exact ⟨o, rfl⟩
  · exact hh x hx

/-- Polls over such a transport return the payloads of its frames in order,
raise only at the end of the stream behind them, and have returned them all
once there was a poll for each of them and for each miss. -/
theorem polls_ok (hs : Serves recv Ahead) {payloads : List Bytes} (hcap : ∀ p ∈ payloads, p.length ≤ 1 <<< 20) (k : Nat)
    {r : FrameReader σ} {m : Nat} (hat : At Ahead r (payloads.flatMap frame) m) :
    payloadsOf (polls recv r k).2 <+: payloads ∧ RaisedAtEnd payloads (polls recv r k).2 ∧
      (¬ CanEnd recv Ahead → Returned (polls recv r k).2) ∧
      (m + payloads.length ≤ k → payloadsOf (polls recv r k).2 = payloads) := by
  -- Every poll returns a payload or uses up a miss of the transport.
  induction k generalizing r payloads m with
  | zero =>
    refine ⟨by simp [polls, payloadsOf], fun i e hi => by simp [polls] at hi, fun _ => by simp [polls, Returned], ?_⟩
    intro h
    obtain rfl : payloads = [] := List.length_eq_zero_iff.1 (by omega)
    rfl
  | succ k ih =>
    cases payloads with
    | nil =>
      obtain ⟨res, r', he, hres, m', hat'⟩ := poll_end hs hat
      obtain ⟨hinit, hraise, hret, -⟩ := ih hcap (r := r') hat'
      rw [polls_succ he]
      have hnil : payloadsOf (((), res) :: (polls recv r' k).2) = payloadsOf (polls recv r' k).2 := by
        rcases hres with rfl | ⟨rfl, -⟩ <;> rfl
      refine ⟨by rw [hnil]; exact hinit, ?_, ?_, fun _ => by rw [hnil]; exact List.prefix_nil.1 hinit⟩
      · rcases hres with rfl | ⟨rfl, -⟩
        · exact hraise.cons
        · intro i e hi
          cases i with
          | zero =>
            simp only [List.getElem?_cons_zero, Option.some.injEq, Prod.mk.injEq, Except.error.injEq, true_and] at hi
            exact ⟨hi.symm, rfl⟩
          | succ i => exact hraise i e hi
      · intro hend
        obtain rfl := hres.resolve_right fun h => hend h.2
        exact (hret hend).cons none
    | cons p ps =>
      obtain ⟨res, r', he, ⟨rfl, m', hm, hat'⟩ | ⟨rfl, m', hm, hat'⟩⟩ := poll_frame hs (hcap p (by simp)) hat
      · obtain ⟨hinit, hraise, hret, hall⟩ := ih (fun q hq => hcap q (by simp [hq])) hat'
        rw [polls_succ he]
        refine ⟨List.cons_prefix_cons.2 ⟨rfl, hinit⟩, hraise.cons, fun hend => (hret hend).cons _, ?_⟩
        intro hk
        rw [List.length_cons] at hk
        exact congrArg (p :: ·) (hall (by omega))
      · obtain ⟨hinit, hraise, hret, hall⟩ := ih hcap hat'
        rw [polls_succ he]
        exact ⟨hinit, hraise.cons, fun hend => (hret hend).cons _, fun hk => hall (by omega)⟩

/-- Within `b` polls the `payloads` are returned, and the next poll completes
the header of `n` bytes, raises, and leaves the socket as `Left` says. -/
def RaisesAfter (recv : Recv σ) (Left : σ → Prop) (r : FrameReader σ) (payloads : List Bytes) (n b : Nat) : Prop :=
  ∃ k ≤ b, Returned (polls recv r k).2 ∧ payloadsOf (polls recv r k).2 = payloads ∧ (polls recv r k).1.hdr.length < 4 ∧
    (poll recv (polls recv r k).1).1 = .error (.msg "oversize frame") ∧
    (poll recv (polls recv r k).1).2.hdr = Bytes.toBe 4 n ∧ Left (poll recv (polls recv r k).1).2.sock

theorem RaisesAfter.step {Left : σ → Prop} {r r' : FrameReader σ} {o : Option Bytes} {payloads : List Bytes} {n b : Nat}
    (he : poll recv r = (.ok o, r')) (h : RaisesAfter recv Left r' payloads n b) :
    RaisesAfter recv Left r (o.toList ++ payloads) n (b + 1) := by
  obtain ⟨k, hk, hret, hpay, hrest⟩ := h
  have hsucc := polls_succ he k
  refine ⟨k + 1, Nat.succ_le_succ hk, ?_, ?_, ?_⟩
  · rw [hsucc]; exact hret.cons _
  · rw [hsucc, ← hpay]; cases o <;> rfl
  · rw [hsucc]; exact hrest

theorem RaisesAfter.mono {Left : σ → Prop} {r : FrameReader σ} {payloads : List Bytes} {n b b' : Nat} (hb : b ≤ b')
    (h : RaisesAfter recv Left r payloads n b) : RaisesAfter recv Left r payloads n b' := by
  obtain ⟨k, hk, hrest⟩ := h
  exact ⟨k, Nat.le_trans hk hb, hrest⟩

theorem RaisesAfter.imp_left {Left Left' : σ → Prop} {r : FrameReader σ} {payloads : List Bytes} {n b : Nat}
    (h : RaisesAfter recv Left r payloads n b) (himp : ∀ s, Left s → Left' s) : RaisesAfter recv Left' r payloads n b := by
  obtain ⟨k, hk, hret, hpay, hlen, hraise, hhdr, hleft⟩ := h
  exact ⟨k, hk, hret, hpay, hlen, hraise, hhdr, himp _ hleft⟩

/-- An oversize header is met within as many polls as there are payloads and misses before it. -/
theorem polls_oversize (hs : Serves recv Ahead) {payloads : List Bytes} (hcap : ∀ p ∈ payloads, p.length ≤ 1 <<< 20)
    {n : Nat} {tail : Bytes} (hn : 1 <<< 20 < n) (hfit : n < 2 ^ 32) {r : FrameReader σ} {m : Nat}
    (hat : At Ahead r (payloads.flatMap frame ++ (Bytes.toBe 4 n ++ tail)) m) :
    RaisesAfter recv (fun s => ∃ m', Ahead s tail m') r payloads n (m + payloads.length) := by
  obtain ⟨b, hb⟩ : ∃ b, m + payloads.length = b := ⟨_, rfl⟩
  rw [hb]
  induction b using Nat.strong_induction_on generalizing r payloads m with
  | _ b ih =>
    cases payloads with
    | nil =>
      rw [List.length_nil] at hb
      obtain ⟨hlen, ⟨r', he, hhdr, hleft⟩ | ⟨r', he, m', hlt, hat'⟩⟩ := poll_oversize hs hn hfit hat
      · refine ⟨0, Nat.zero_le _, by simp [polls, Returned], rfl, hlen, ?_⟩
        rw [polls, List.replicate_zero, run_nil, he]
        exact ⟨rfl, hhdr, hleft⟩
      · have h := ih m' (by omega) hcap hat' rfl
        exact (h.step he).mono (by omega)
    | cons p ps =>
      rw [List.flatMap_cons, List.append_assoc] at hat
      rw [List.length_cons] at hb
      obtain ⟨res, r', he, ⟨rfl, m', hle, hat'⟩ | ⟨rfl, m', hlt, hat'⟩⟩ := poll_frame hs (hcap p (by simp)) hat
      · have h := ih (m' + ps.length) (by omega) (fun q hq => hcap q (by simp [hq])) hat' rfl
        exact (h.step he).mono (by omega)
      · have hat'' : At Ahead r' ((p :: ps).flatMap frame ++ (Bytes.toBe 4 n ++ tail)) m' := by
          rwa [List.flatMap_cons, List.append_assoc]
        have h := ih (m' + (ps.length + 1)) (by omega) hcap hat'' rfl
        exact (h.step he).mono (by omega)

end Serves

/-! ## The plain socket -/

/-- Its `recv`. -/
def sockRecv : Recv (List (Chunk UInt8)) := fun n s =>
  match Source.read n s with
  | (.chunk xs, s') => (.ok (some xs), s')
  | (.none, s') => (.ok none, s')
  | (.error e, s') => (.error (.errno e), s')

/-- A socket with no end of stream and no error but the soft ones. -/
def sockAhead (s : List (Chunk UInt8)) (bytes : Bytes) (m : Nat) : Prop :=
  Source.Open softErrnos s ∧ items s = bytes ∧ stalls s ≤ m

theorem sockRecv_serves : Serves sockRecv sockAhead where
  call {s s' r bytes m n} h hn hr := by
    obtain ⟨hopen, rfl, hm⟩ := h
    unfold sockRecv at hr
    split at hr
    · rename_i xs t hread
      cases hr
      obtain ⟨hu, hle, hst⟩ := read_lossless.chunk hn hread
      exact .inl ⟨xs, items _, rfl, fun h0 => (read_patient softErrnos).chunk hn hopen (h0 ▸ hread), hle, hu,
        (read_patient softErrnos).keeps hopen hread, rfl, hst ▸ hm⟩
    · rename_i t hread
      cases hr
      obtain ⟨hu, hle, hor⟩ := read_lossless.none hread
      refine .inr (.inl ⟨.inl rfl, stalls s', Nat.le_trans hle hm,
        ⟨(read_patient softErrnos).keeps hopen hread, hu, Nat.le_refl _⟩, hor.imp_left fun h => by omega⟩)
    · rename_i e t hread
      cases hr
      obtain ⟨hu, hlt⟩ := read_lossless.error hread
      exact .inr (.inl ⟨.inr ⟨e, (read_patient softErrnos).error hopen hread, rfl⟩, stalls s', by omega,
        ⟨(read_patient softErrnos).keeps hopen hread, hu, Nat.le_refl _⟩, .inl (by omega)⟩)

theorem sockAhead_unending : ¬ CanEnd sockRecv sockAhead := by
  rintro ⟨s, s', m, n, ⟨hopen, -⟩, hn, hr⟩
  unfold sockRecv at hr
  split at hr
  · rename_i xs t hread
    cases hr
    exact (read_patient softErrnos).chunk hn hopen hread
  · cases hr
  · cases hr

end CalcBridge.Net
