import CalcBridge.Net.FrameReader
/-!
# The relay's frame loop (`tools/relay_server.py`, `FramedHandler`)

The relay reads the same frames as `FrameReader`, from a blocking socket. Over
the same bytes the two take the same bodies, and both stop at an oversize
header.
-/
open LinkLib LinkLib.Source LinkLib.Framing CalcBridge.Net

namespace CalcBridge.Relay

/-- `_read_exact`. `None` is the end of the stream, also in the middle. -/
def readExact (n : Nat) (sock : List (Chunk UInt8)) : Except Nat (Option Bytes) × List (Chunk UInt8) :=
  match fill Source.read n [] sock with
  | (.done, bs, sock) => (.ok (some bs), sock)
  | (.error e, _, sock) => (.error e, sock)
  | (_, _, sock) => (.ok none, sock)

/-- How `handle` ends. -/
inductive Ended where
  | closed
  | oversize (length : Nat)
  | short
  | raised (errno : Nat)
  deriving DecidableEq, Repr

/-- What is read exactly is no longer unread. -/
theorem readExact_items {n : Nat} {sock sock' : List (Chunk UInt8)} {bs : Bytes}
    (h : readExact n sock = (.ok (some bs), sock')) : items sock = bs ++ items sock' ∧ n ≤ bs.length := by
  have hcons := fill_conserves read_lossless n [] sock
  have hdone := fill_done_iff Source.read n [] sock
  unfold readExact at h
  split at h
  · rename_i heq
    rw [heq] at hcons hdone
    cases h
    exact ⟨hcons.symm, hdone.1 rfl⟩
  · cases h
  · cases h

/-- The loop of `FramedHandler.handle`: the bodies it read, and how it ended. -/
def handle (sock : List (Chunk UInt8)) : List Bytes × Ended :=
  match _h : readExact 4 sock with
  | (.error e, _) => ([], .raised e)
  | (.ok none, _) => ([], .closed)
  | (.ok (some hdr), sock₁) =>
    let length := Bytes.ofBe hdr
    if 1 <<< 20 < length then ([], .oversize length)
    else
      match _h' : readExact length sock₁ with
      | (.error e, _) => ([], .raised e)
      | (.ok none, _) => ([], .short)
      | (.ok (some body), sock₂) =>
        let r := handle sock₂
        (body :: r.1, r.2)
  termination_by (items sock).length
  decreasing_by
    obtain ⟨hu, hlen⟩ := readExact_items _h
    have hu' := (readExact_items _h').1
    rw [hu, hu']
    simp only [List.length_append]
    omega

/-! ## The loop over a stream of frames -/

/-- Reading `n` bytes of a blocking source: they are there, or the stream ends first. -/
theorem readExact_ends (n : Nat) {sock : List (Chunk UInt8)} (h : Ends sock) :
    (∃ bs sock', readExact n sock = (.ok (some bs), sock') ∧ items sock = bs ++ items sock' ∧ bs.length = n ∧ Ends sock') ∨
    (items sock).length < n ∧ ∃ sock', readExact n sock = (.ok none, sock') := by
  obtain ⟨stop, bs, sock', hfill, hcons, hends, ⟨rfl, hlen⟩ | ⟨rfl, hlt, hnil⟩⟩ :=
    fill_ends n (show ([] : Bytes).length ≤ n from Nat.zero_le n) h
  · refine .inl ⟨bs, sock', ?_, hcons.symm, hlen, hends⟩
    rw [readExact, hfill]
  · refine .inr ⟨?_, sock', by rw [readExact, hfill]⟩
    rw [hnil, List.append_nil, List.nil_append] at hcons
    rwa [← hcons]

theorem handle_closed {sock : List (Chunk UInt8)} (h : Ends sock) (hu : items sock = []) : handle sock = ([], .closed) := by
  rcases readExact_ends 4 h with ⟨bs, sock', -, hsplit, hlen, -⟩ | ⟨-, sock', he⟩
  · rw [hu, List.nil_eq, List.append_eq_nil_iff] at hsplit
    simp [hsplit.1] at hlen
  · rw [handle]
    split <;> rename_i heq <;> rw [he] at heq <;> cases heq

/-- The header `handle` reads in front of `length` and more bytes. -/
theorem readExact_header {sock : List (Chunk UInt8)} {length : Nat} {tail : Bytes} (h : Ends sock)
    (hu : items sock = Bytes.toBe 4 length ++ tail) :
    ∃ sock', readExact 4 sock = (.ok (some (Bytes.toBe 4 length)), sock') ∧ items sock' = tail ∧ Ends sock' := by
  rcases readExact_ends 4 h with ⟨bs, sock', he, hsplit, hlen, hends⟩ | ⟨hlt, -⟩
  · rw [hu] at hsplit
    obtain ⟨rfl, rfl⟩ := List.append_inj hsplit (by rw [hlen, Bytes.length_toBe])
    exact ⟨sock', he, rfl, hends⟩
  · rw [hu, List.length_append, Bytes.length_toBe] at hlt
    omega

theorem handle_oversize {sock : List (Chunk UInt8)} {n : Nat} {tail : Bytes} (hn : 1 <<< 20 < n) (hfit : n < 2 ^ 32)
    (h : Ends sock) (hu : items sock = Bytes.toBe 4 n ++ tail) : handle sock = ([], .oversize n) := by
  obtain ⟨sock', he, -⟩ := readExact_header h hu
  rw [handle]
  split <;> rename_i heq <;> rw [he] at heq <;> cases heq
  dsimp only
  rw [Bytes.ofBe_toBe_4 hfit, if_pos hn]

/-- The loop takes one frame and goes on behind it. -/
theorem handle_frame {sock : List (Chunk UInt8)} {payload later : Bytes} (hcap : payload.length ≤ 1 <<< 20)
    (h : Ends sock) (hu : items sock = frame payload ++ later) :
    ∃ sock', Ends sock' ∧ items sock' = later ∧ handle sock = (payload :: (handle sock').1, (handle sock').2) := by
  rw [frame, List.append_assoc] at hu
  obtain ⟨sock₁, he, hu₁, hends⟩ := readExact_header h hu
  rcases readExact_ends payload.length hends with ⟨bs, sock₂, he', hsplit, hlen, hends'⟩ | ⟨hlt, -⟩
  · rw [hu₁] at hsplit
    obtain ⟨rfl, rfl⟩ := List.append_inj hsplit hlen.symm
    refine ⟨sock₂, hends', rfl, ?_⟩
    rw [handle]
    split <;> rename_i heq <;> rw [he] at heq <;> cases heq
    dsimp only
    rw [Bytes.ofBe_toBe_4 (lt_of_cap hcap), if_neg (Nat.not_lt.2 hcap)]
    split <;> rename_i heq <;> rw [he'] at heq <;> cases heq
    rfl
  · rw [hu₁, List.length_append] at hlt
    omega

/-- The loop reads the bodies of a stream of frames, and ends as it would behind them. -/
theorem handle_frames {payloads : List Bytes} (hcap : ∀ p ∈ payloads, p.length ≤ 1 <<< 20) {sock : List (Chunk UInt8)}
    {tail : Bytes} {e : Ended} (htail : ∀ sock, Ends sock → items sock = tail → handle sock = ([], e)) (h : Ends sock)
    (hu : items sock = payloads.flatMap frame ++ tail) : handle sock = (payloads, e) := by
  induction payloads generalizing sock with
  | nil => exact htail sock h hu
  | cons p ps ih =>
    rw [List.flatMap_cons, List.append_assoc] at hu
    obtain ⟨sock', hends, hu', he⟩ := handle_frame (hcap p (by simp)) h hu
    rw [he, ih (fun q hq => hcap q (by simp [hq])) hends hu']

/-- A stream of `send_framed` calls, laid out. -/
theorem framedBytes_all {payloads : List Bytes} (hcap : ∀ p ∈ payloads, p.length ≤ 1 <<< 20) :
    payloads.flatMap framedBytes = payloads.flatMap frame :=
  List.flatMap_congr fun p hp => framedBytes_eq (lt_of_cap (hcap p hp))

/-- Over the same `send_framed` bytes, however they are cut and whatever
misses stand between them, the polls of `FrameReader` return the payloads in
order, each once, as the relay's loop reads them. Behind them an oversize
header makes the poll that completes it raise, and the relay's loop stop. -/
theorem readers_agree (payloads : List Bytes) (hcap : ∀ p ∈ payloads, p.length ≤ 1 <<< 20) (src sock : List (Chunk UInt8))
    (hopen : Source.Open softErrnos src) (hends : Ends sock) :
    (items src = payloads.flatMap framedBytes → items sock = payloads.flatMap framedBytes →
      (∀ k, Returned (polls sockRecv (.init src) k).2 ∧ payloadsOf (polls sockRecv (.init src) k).2 <+: payloads ∧
        (stalls src + payloads.length ≤ k → payloadsOf (polls sockRecv (.init src) k).2 = payloads)) ∧
      handle sock = (payloads, .closed)) ∧
    ∀ n tail, 1 <<< 20 < n → n < 2 ^ 32 → items src = payloads.flatMap framedBytes ++ (Bytes.toBe 4 n ++ tail) →
      items sock = payloads.flatMap framedBytes ++ (Bytes.toBe 4 n ++ tail) →
      RaisesAfter sockRecv (fun left => items left = tail) (.init src) payloads n (stalls src + payloads.length) ∧
        handle sock = (payloads, .oversize n) := by
  rw [framedBytes_all hcap]
  have hat : At sockAhead (.init src) (items src) (stalls src) := .init ⟨hopen, rfl, Nat.le_refl _⟩
  constructor
  · intro hsrc hsock
    rw [hsrc] at hat
    refine ⟨fun k => ?_, ?_⟩
    · obtain ⟨hinit, -, hret, hall⟩ := polls_ok sockRecv_serves hcap k hat
      exact ⟨hret sockAhead_unending, hinit, hall⟩
    exact handle_frames hcap (fun sock h hu => handle_closed h hu) hends (by rw [hsock, List.append_nil])
  · intro n tail hn hfit hsrc hsock
    rw [hsrc] at hat
    have hraises := (polls_oversize sockRecv_serves hcap hn hfit hat).imp_left fun _ ⟨_, _, hleft, _⟩ => hleft
    exact ⟨hraises, handle_frames hcap (fun sock h hu => handle_oversize hn hfit h hu) hends hsock⟩

/-- An empty payload and one more, cut inside a header, and an oversize header behind them. -/
theorem readers_agree_small :
    payloadsOf (polls sockRecv (.init [.data [0, 0], .none, .data [0, 0, 0], .error 11, .data [0, 0, 1, 7]]) 4).2 = [[], [7]] ∧
    handle [.data [0, 0, 0, 0, 0, 0, 0, 1, 7], .data []] = ([[], [7]], .closed) ∧
    RaisesAfter sockRecv (fun left => items left = [5]) (.init [.data [0, 0, 0, 0, 0, 0, 0], .none, .data [1, 7, 0, 17, 0, 0, 5]])
      [[], [7]] (17 <<< 16) 3 ∧
    handle [.data [0, 0, 0, 0, 0, 0, 0, 1, 7], .data [0, 17, 0, 0, 5], .data []] = ([[], [7]], .oversize (17 <<< 16)) := by
  have hcap : ∀ p ∈ ([[], [7]] : List Bytes), p.length ≤ 1 <<< 20 := by decide
  obtain ⟨hpolls, hclosed⟩ := (readers_agree [[], [7]] hcap
    [.data [0, 0], .none, .data [0, 0, 0], .error 11, .data [0, 0, 1, 7]] [.data [0, 0, 0, 0, 0, 0, 0, 1, 7], .data []]
    (by simp [Source.Open, softErrnos]) trivial).1 (by decide) (by decide)
  obtain ⟨hraises, hoversize⟩ := (readers_agree [[], [7]] hcap
    [.data [0, 0, 0, 0, 0, 0, 0], .none, .data [1, 7, 0, 17, 0, 0, 5]]
    [.data [0, 0, 0, 0, 0, 0, 0, 1, 7], .data [0, 17, 0, 0, 5], .data []] (by simp [Source.Open]) trivial).2
    (17 <<< 16) [5] (by decide) (by decide) (by decide) (by decide)
  exact ⟨(hpolls 4).2.2 (by decide), hclosed, hraises, hoversize⟩

end CalcBridge.Relay
