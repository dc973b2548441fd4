import CalcBridge.Net.FrameReader
import CalcBridge.Net.Handshake
import CalcBridge.Net.WsStream
/-!
# Frames over the WebSocket client (`src/net.py`, `FrameReader`, `WSClient`)

The `recv` of a client that is in step with a stream of server frames serves a
`FrameReader`. A client that `connect` made is in step with what the server
sends behind its answer.
-/
open LinkLib LinkLib.Source LinkLib.Framing LinkLib.WsFrame

namespace CalcBridge.Net

/-- A client that is in step with a stream of server frames, and the data still to come. -/
def wsAhead (frames : List Frame) (masks : Nat → Mask) (c : Client) (bytes : Bytes) (m : Nat) : Prop :=
  ∃ done rest delivered, Synced frames masks done rest delivered c ∧ delivered ++ bytes = dataAll frames ∧
    (c.inp.misses ≤ m ∨ bytes = [])

/-- The client's `recv`, called as a socket's. -/
def wsRecv : Recv Client := fun n c => recv c n

theorem recv_length_le {c c' : Client} {n : Nat} {xs : Bytes} (h : recv c n = (.ok (some xs), c')) : xs.length ≤ n := by
  have htake (d : Client) : (d.recvBuf.take n).length ≤ n := List.length_take_le _ _
  unfold recv at h
  split at h
  · cases h
    exact htake c
  · split at h
    · cases h
      exact Nat.zero_le n
    · split at h
      · cases h
        exact Nat.zero_le n
      · cases h
      · rename_i d _
        cases h
        exact htake d
      · cases h

theorem wsRecv_serves {frames : List Frame} (hstream : ServerStream frames) (masks : Nat → Mask) :
    Serves wsRecv (wsAhead frames masks) where
  call {c c' r bytes m n} h hn hr := by
    obtain ⟨done, rest, delivered, hs, hdata, hm⟩ := h
    obtain ⟨done', rest', hs', hok⟩ := recv_ok hstream hn hs
    rw [show recv c n = (r, c') from hr] at hs' hok
    dsimp only at hs'
    have hall : delivered ++ bytes = delivered ++ (bytesOf r ++ (c'.recvBuf ++ dataAll rest')) := by
      rw [hdata, hs'.split, dataAll, List.flatMap_append, ← List.append_assoc, ← List.append_assoc]
      exact congrArg (· ++ _) hs'.data.symm
    have hbytes := List.append_cancel_left hall
    obtain ⟨o, rfl⟩ : ∃ o, r = .ok o := hok.returns
    cases o with
    | none =>
      obtain ⟨hb, hor⟩ := hok.miss rfl
      rw [hb] at hbytes
      have hend (h0 : rest' = []) : bytes = [] := by rw [hbytes, h0]; rfl
      refine .inr (.inl ⟨.inl rfl, ?_⟩)
      have hnext (k : Nat) (hk : c'.inp.misses ≤ k ∨ bytes = []) : wsAhead frames masks c' bytes k :=
        ⟨done', rest', delivered, by simpa [bytesOf] using hs', hdata, hk⟩
      by_cases hnil : bytes = []
      · exact ⟨m, Nat.le_refl m, hnext m (.inr hnil), .inr hnil⟩
      · have hlt := hor.resolve_right fun h0 => hnil (hend h0)
        have hle := hm.resolve_right hnil
        exact ⟨c'.inp.misses, by dsimp only at hlt; omega, hnext _ (.inl (Nat.le_refl _)), .inl (by dsimp only at hlt; omega)⟩
    | some xs =>
      by_cases hne : xs = []
      · subst hne
        obtain ⟨hr0, hb⟩ := hok.eof rfl
        have hnil : bytes = [] := by rw [hbytes, hr0, hb]; rfl
        subst hnil
        exact .inr (.inr ⟨rfl, rfl, done', rest', delivered, by simpa [bytesOf] using hs', hdata, .inr rfl⟩)
      · refine .inl ⟨xs, c'.recvBuf ++ dataAll rest', rfl, hne, recv_length_le hr, hbytes, done', rest', delivered ++ xs, hs',
          ?_, ?_⟩
        · rw [← hdata, hbytes, List.append_assoc]
          rfl
        · refine hm.imp (fun h => Nat.le_trans (hok.data xs hne rfl) h) fun h0 => ?_
          rw [h0] at hbytes
          exact absurd (List.append_eq_nil_iff.1 hbytes.symm).1 hne

/-- For every upgrade that succeeds and every stream of server frames behind its
answer that carries the relay's frames, cut anywhere into messages and reads,
with misses anywhere and pings between, whose pongs go out whole: polls return the payloads in order,
each once, raise only at the end of the stream behind all of them, and have
returned them all once there was a poll for each and for each miss. -/
theorem frames_over_wss (u : Upgrade) (rounds : Nat) {sock : Sock} (hwhole : sock.writes = [])
    {reads : List (Chunk UInt8)} (hopen : Source.Open softErrnos reads) (masks : Nat → Mask) {c : Client}
    (hconnect : connect u rounds sock reads masks = .ok c) {i : Nat} (hhead : indexOf terminator (items reads) = some i)
    {frames : List Frame} (hstream : ServerStream frames) (hbehind : (items reads).drop (i + 4) = encodeAll frames)
    {payloads : List Bytes} (hsize : ∀ p ∈ payloads, p.length ≤ 1 <<< 20)
    (hdata : dataAll frames = payloads.flatMap framedBytes) (k : Nat) :
    let h := (polls wsRecv (.init c) k).2
    payloadsOf h <+: payloads ∧ RaisedAtEnd payloads h ∧ (c.inp.misses + payloads.length ≤ k → payloadsOf h = payloads) := by
  obtain ⟨j, left, hj, rfl, hleft, hkeeps⟩ := connect_ok hconnect
  obtain rfl : i = j := Option.some.inj (hhead.symm.trans hj)
  have hframed : payloads.flatMap framedBytes = payloads.flatMap frame :=
    List.flatMap_congr fun p hp => framedBytes_eq (lt_of_cap (hsize p hp))
  have hbytes : [] ++ items left = encodeAll frames := by rw [List.nil_append, hleft, hbehind]
  rw [hwhole]
  have hahead : wsAhead frames masks (.init [] left [] masks) (payloads.flatMap frame) (stalls left) :=
    ⟨[], frames, [], init_synced (hkeeps softErrnos hopen) hbytes masks, by rw [hdata, hframed]; rfl, .inl (Nat.le_refl _)⟩
  obtain ⟨hinit, hraise, -, hall⟩ := polls_ok (wsRecv_serves hstream masks) hsize k (.init hahead)
  exact ⟨hinit, hraise, hall⟩

set_option maxRecDepth 2048 in
/-- A relay frame in two messages with a ping between, the first cut off with the answer's end. -/
theorem frames_over_wss_two : ∃ c,
    connect ⟨str "relay", str "/ws", none, some (str "s"), str "AAAA"⟩ 40 ⟨[], [], false⟩
      [.data ((str "HTTP/1.1 101 OK\r\n\r\n").map UInt8.ofNat ++ [0x82, 0x03, 0x00, 0x00]), .none,
        .data [0x00, 0x89, 0x00, 0x82], .error 11, .data [0x03, 0x02, 0x68, 0x69]] (fun _ => ⟨[1, 2, 3, 4], rfl⟩) = .ok c ∧
    payloadsOf (polls wsRecv (.init c) 3).2 = [[0x68, 0x69]] := by
  let frames : List Frame :=
    [⟨0x82, none, .short, [0, 0, 0], by decide⟩, ⟨0x89, none, .short, [], by decide⟩,
      ⟨0x82, none, .short, [2, 0x68, 0x69], by decide⟩]
  have hstream : ServerStream frames := ⟨by decide, by decide⟩
  have hsize : ∀ p ∈ [([0x68, 0x69] : Bytes)], p.length ≤ 1 <<< 20 := by decide
  have hdata : dataAll frames = [([0x68, 0x69] : Bytes)].flatMap framedBytes := by decide
  obtain ⟨left, hconnect, hmisses⟩ : ∃ left, connect ⟨str "relay", str "/ws", none, some (str "s"), str "AAAA"⟩ 40 ⟨[], [], false⟩
      [.data ((str "HTTP/1.1 101 OK\r\n\r\n").map UInt8.ofNat ++ [0x82, 0x03, 0x00, 0x00]), .none,
        .data [0x00, 0x89, 0x00, 0x82], .error 11, .data [0x03, 0x02, 0x68, 0x69]] (fun _ => ⟨[1, 2, 3, 4], rfl⟩) =
      .ok (.init [] left [] fun _ => ⟨[1, 2, 3, 4], rfl⟩) ∧ stalls left = 2 := by
    refine ⟨_, rfl, by decide⟩
  have hopen : Source.Open softErrnos [Chunk.data ((str "HTTP/1.1 101 OK\r\n\r\n").map UInt8.ofNat ++ [0x82, 0x03, 0x00, 0x00]),
      .none, .data [0x00, 0x89, 0x00, 0x82], .error 11, .data [0x03, 0x02, 0x68, 0x69]] := by
    simp [Source.Open, softErrnos]
  have hpolls := frames_over_wss _ 40 rfl hopen _ hconnect (i := 15) (by decide) hstream (by decide) hsize hdata 3
  exact ⟨_, hconnect, hpolls.2.2 (Nat.le_of_eq (congrArg (· + 1) hmisses))⟩

end CalcBridge.Net
