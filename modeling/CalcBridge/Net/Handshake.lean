import CalcBridge.LinkLib.Text
import CalcBridge.LinkLib.Until
import CalcBridge.Net.WsClient
/-!
# The upgrade to a WebSocket (`src/net.py`, `WSClient.connect`, `_do_handshake`)

The client sends its HTTP request and reads the answer a byte at a time up to
the empty line, so that what the server sends behind it is left to the frame
parser. `rounds` is how often the loop runs before its deadline passes.
-/
open LinkLib LinkLib.Text LinkLib.Source LinkLib.WsFrame

namespace CalcBridge.Net

/-! ## The request -/

def crlf : Str := [0x0D, 0x0A]

/-- What `_do_handshake` is called with, and the key `_make_key` gave. -/
structure Upgrade where
  host : Str
  path : Str
  clientId : Option Str
  clientSecret : Option Str
  key : Str
  deriving DecidableEq, Repr

/-- A header that is sent unless its value is missing or empty. -/
def optionalHeader (name : String) (value : Option Str) : List Str :=
  match value with
  | none | some [] => []
  | some v => [str name ++ v]

def Upgrade.lines (u : Upgrade) : List Str :=
  [str "GET " ++ u.path ++ str " HTTP/1.1", str "Host: " ++ u.host, str "Upgrade: websocket", str "Connection: Upgrade",
   str "Sec-WebSocket-Key: " ++ u.key, str "Sec-WebSocket-Version: 13"] ++
  optionalHeader "CF-Access-Client-Id: " u.clientId ++ optionalHeader "CF-Access-Client-Secret: " u.clientSecret

/-- The request's bytes; `none` is the UnicodeEncodeError. -/
def Upgrade.request (u : Upgrade) : Option Bytes := encodeAscii (List.intercalate crlf u.lines ++ crlf ++ crlf)

/-! ## The answer -/

def terminator : Bytes := [0x0D, 0x0A, 0x0D, 0x0A]

inductive Refused where
  | unicodeEncode
  | raised (r : Raised)
  /-- `"WS handshake bad status: "` and the `repr` of the start of the head. -/
  | badStatus (head : Bytes)
  deriving DecidableEq, Repr

def statusLine (head : Bytes) : Bytes :=
  match indexOf [0x0D, 0x0A] head with
  | some i => head.take i
  | none => head

/-- The second field of the status line is `101`. -/
def switching (head : Bytes) : Bool := ((statusLine head).splitOn 0x20)[1]? == some [0x31, 0x30, 0x31]

/-- From the loop's buffer on. -/
def answer (buf : Bytes) : Except Refused Bytes :=
  let i := (indexOf terminator buf).getD 0
  let head := buf.take i
  if switching head then .ok (buf.drop (i + 4)) else .error (.badStatus (head.take 200))

/-- The reading loop of `_do_handshake` and what follows it. -/
def readAnswer (rounds : Nat) (reads : List (Chunk UInt8)) : Except Refused Bytes × List (Chunk UInt8) :=
  match readUntil (fun b => (indexOf terminator b).isSome) 4096 rounds [] reads with
  | (.timeout, _, reads) => (.error (.raised (.msg "WS handshake timeout")), reads)
  | (.eof, _, reads) => (.error (.raised (.msg "WS handshake: peer closed")), reads)
  | (.error e, _, reads) => (.error (.raised (.errno e)), reads)
  | (.tooLarge, _, reads) => (.error (.raised (.msg "WS handshake: response too large")), reads)
  | (.found, buf, reads) => (answer buf, reads)

/-- `_do_handshake`: the leftover bytes. -/
def doHandshake (u : Upgrade) (rounds : Nat) (sock : Sock) (reads : List (Chunk UInt8)) :
    Except Refused Bytes × Sock × List (Chunk UInt8) :=
  match u.request with
  | none => (.error .unicodeEncode, sock, reads)
  | some req =>
    match sock.write req with
    | (.error r, sock) => (.error (.raised r), sock, reads)
    | (.ok (), sock) => ((readAnswer rounds reads).1, sock, (readAnswer rounds reads).2)

/-- `WSClient.connect` once TLS is up: a client on the rest of the socket. -/
def connect (u : Upgrade) (rounds : Nat) (sock : Sock) (reads : List (Chunk UInt8)) (masks : Nat → Mask) :
    Except Refused Client :=
  match doHandshake u rounds sock reads with
  | (.error e, _, _) => .error e
  | (.ok leftover, sock, reads) => .ok (.init leftover reads sock.writes masks)

/-! ## Where the answer ends -/

/-- The first `i + 4` bytes are the head and its empty line. -/
theorem readAnswer_found {rounds : Nat} {reads left : List (Chunk UInt8)} {buf : Bytes}
    (h : readUntil (fun b => (indexOf terminator b).isSome) 4096 rounds [] reads = (.found, buf, left)) :
    ∃ i, indexOf terminator (items reads) = some i ∧ i + 4 ≤ 4096 ∧ answer buf =
        (if switching ((items reads).take i) then .ok [] else .error (.badStatus (((items reads).take i).take 200))) ∧
      items left = (items reads).drop (i + 4) := by
  obtain ⟨taken, hbuf, hitems, hfirst, hcap⟩ := readUntil_found h
  rw [List.nil_append] at hbuf
  subst hbuf
  obtain ⟨i, hi, hall, hlen⟩ := firstStop_end hfirst (items left)
  have hlen : buf.length = i + 4 := hlen
  have hle : buf.length ≤ 4096 := hcap fun h0 => by rw [h0] at hlen; simp at hlen
  refine ⟨i, hitems ▸ hall, by omega, ?_, ?_⟩
  · have htake : (items reads).take i = buf.take i := by rw [hitems, List.take_append_of_le_length (by omega)]
    rw [answer, hi, Option.getD_some, htake, List.drop_of_length_le (by omega)]
  · rw [hitems, ← hlen, List.drop_left]

/-- An answer that is there within the cap, with time to read it, is read. -/
theorem readAnswer_finds {rounds i : Nat} {reads : List (Chunk UInt8)} (hi : indexOf terminator (items reads) = some i)
    (hcap : i + 4 ≤ 4096) (hclean : Clean (i + 4) reads) (hrounds : i + 4 + stallsBefore (i + 4) reads ≤ rounds) :
    ∃ left, readAnswer rounds reads = (if switching ((items reads).take i) then .ok []
        else .error (.badStatus (((items reads).take i).take 200)), left) ∧ items left = (items reads).drop (i + 4) := by
  have hend : i + 4 ≤ (items reads).length := indexOf_end hi
  have hlen : ((items reads).take (i + terminator.length)).length = i + 4 := by
    rw [List.length_take]
    exact Nat.min_eq_left hend
  have hfits : ([] ++ (items reads).take (i + terminator.length)).length ≤ 4096 := by rwa [List.nil_append, hlen]
  obtain ⟨left, hrun, hleft⟩ := readUntil_finds rounds (firstStop_word hi) (List.take_append_drop _ _).symm
    (hlen.symm ▸ hclean) hfits (hlen.symm ▸ hrounds)
  obtain ⟨j, hj, -, hanswer, -⟩ := readAnswer_found hrun
  obtain rfl : i = j := Option.some.inj (hi.symm.trans hj)
  exact ⟨left, by rw [readAnswer, hrun, ← hanswer], hleft⟩

theorem write_writes (s : Sock) (bs : Bytes) : (s.write bs).2.writes = s.writes.tail := by
  unfold Sock.write
  split <;> rename_i h <;> rw [h] <;> rfl

/-- An upgrade that succeeds has read the answer up to its first empty line,
and the rest of the socket is as it was. -/
theorem doHandshake_ok {u : Upgrade} {rounds : Nat} {sock sock' : Sock} {reads left : List (Chunk UInt8)} {leftover : Bytes}
    (h : doHandshake u rounds sock reads = (.ok leftover, sock', left)) :
    leftover = [] ∧ (∃ i, indexOf terminator (items reads) = some i ∧ i + 4 ≤ 4096 ∧ switching ((items reads).take i) ∧
      items left = (items reads).drop (i + 4)) ∧ sock'.writes = sock.writes.tail ∧
      ∀ soft, Source.Open soft reads → Source.Open soft left := by
  unfold doHandshake at h
  split at h
  · cases h
  · split at h
    · cases h
    · rename_i req _ _ sock₁ hwrite
      simp only [Prod.mk.injEq] at h
      obtain ⟨hok, rfl, hleft⟩ := h
      have hwrites : sock₁.writes = sock.writes.tail := by rw [← write_writes sock req, hwrite]
      unfold readAnswer at hok hleft
      split at hok
      · cases hok
      · cases hok
      · cases hok
      · cases hok
      · rename_i buf reads' hrun
        obtain ⟨i, hi, hcap, hanswer, hitems⟩ := readAnswer_found hrun
        have hkeeps (soft : List Nat) (hopen : Source.Open soft reads) : Source.Open soft reads' := by
          have hkept : Source.Open soft (readUntil (fun b => (indexOf terminator b).isSome) 4096 rounds [] reads).2.2 :=
            readUntil_keeps rounds hopen
          rwa [hrun] at hkept
        rw [hrun] at hleft
        dsimp only at hok hleft
        rw [hanswer] at hok
        split at hok
        · cases hok
          exact ⟨rfl, ⟨i, hi, hcap, ‹_›, hleft ▸ hitems⟩, hwrites, hleft ▸ hkeeps⟩
        · cases hok

/-- So the client it makes is at the first byte behind the answer. -/
theorem connect_ok {u : Upgrade} {rounds : Nat} {sock : Sock} {reads : List (Chunk UInt8)} {masks : Nat → Mask} {c : Client}
    (h : connect u rounds sock reads masks = .ok c) :
    ∃ i left, indexOf terminator (items reads) = some i ∧ c = .init [] left sock.writes.tail masks ∧
      items left = (items reads).drop (i + 4) ∧ ∀ soft, Source.Open soft reads → Source.Open soft left := by
  unfold connect at h
  split at h
  · cases h
  · rename_i leftover sock' left hshake
    obtain ⟨rfl, ⟨i, hi, -, -, hleft⟩, hwrites, hkeeps⟩ := doHandshake_ok hshake
    cases h
    exact ⟨i, left, hi, by rw [hwrites], hleft, hkeeps⟩

/-- Whatever the server sends and however it is cut: an upgrade that succeeds
has read the answer up to its first empty line, within the cap and with status
101, and nothing behind it; nothing is left over. And an answer that is there
within the cap, with time to read it, is read up to there, and then its status
alone decides. -/
theorem handshake_takes_head (u : Upgrade) (rounds : Nat) (sock : Sock) (reads : List (Chunk UInt8)) :
    (∀ leftover sock' left, doHandshake u rounds sock reads = (.ok leftover, sock', left) → leftover = [] ∧
      ∃ i, indexOf terminator (items reads) = some i ∧ i + 4 ≤ 4096 ∧ switching ((items reads).take i) ∧
        items left = (items reads).drop (i + 4)) ∧
    ∀ req sock' i, u.request = some req → sock.write req = (.ok (), sock') →
      indexOf terminator (items reads) = some i → i + 4 ≤ 4096 → Clean (i + 4) reads →
      i + 4 + stallsBefore (i + 4) reads ≤ rounds →
      ∃ left, doHandshake u rounds sock reads = (if switching ((items reads).take i) then .ok []
          else .error (.badStatus (((items reads).take i).take 200)), sock', left) ∧
        items left = (items reads).drop (i + 4) := by
  constructor
  · intro leftover sock' left h
    obtain ⟨hnone, hhead, -⟩ := doHandshake_ok h
    exact ⟨hnone, hhead⟩
  · intro req sock' i hreq hwrite hi hcap hclean hrounds
    obtain ⟨left, hrun, hleft⟩ := readAnswer_finds hi hcap hclean hrounds
    refine ⟨left, ?_, hleft⟩
    unfold doHandshake
    rw [hreq]
    dsimp only
    rw [hwrite]
    dsimp only
    rw [hrun]

set_option maxRecDepth 2048 in
/-- An answer cut inside its empty line, with the first byte of a frame behind it. -/
theorem handshake_takes_head_cut : ∃ left,
    doHandshake ⟨str "relay", str "/ws", none, none, str "AAAA"⟩ 40 ⟨[], [], false⟩
      [.data ((str "HTTP/1.1 101 OK\r\n\r").map UInt8.ofNat), .none, .data [0x0A, 0x82]] =
      (.ok [], ⟨[], ((Upgrade.request ⟨str "relay", str "/ws", none, none, str "AAAA"⟩).getD []), false⟩, left) ∧
    items left = [0x82] := by
  let u : Upgrade := ⟨str "relay", str "/ws", none, none, str "AAAA"⟩
  let reads : List (Chunk UInt8) := [.data ((str "HTTP/1.1 101 OK\r\n\r").map UInt8.ofNat), .none, .data [0x0A, 0x82]]
  have hsent : u.request.isSome = true := by decide
  have hreq : u.request = some (u.request.getD []) := by
    obtain ⟨req, hr⟩ := Option.isSome_iff_exists.1 hsent
    rw [hr, Option.getD_some]
  have hhead : indexOf terminator (items reads) = some 15 := by decide
  have hclean : Clean (15 + 4) reads := .inr ⟨by decide, .inr (.inr ⟨by decide, trivial⟩)⟩
  obtain ⟨left, hrun, hleft⟩ := (handshake_takes_head u 40 ⟨[], [], false⟩ reads).2 (u.request.getD []) _ 15
    hreq rfl hhead (by decide) hclean (by decide)
  exact ⟨left, hrun, hleft.trans (by decide)⟩

end CalcBridge.Net
