import CalcBridge.LinkLib.Bytes
/-!
# DBUS packets (`src/packet.py`)

A packet is a machine id, a command, a 16-bit word and, for most commands,
that many body bytes with a 16-bit checksum behind them. `recvPacket` accepts
exactly the `Raw` packets, whatever their checksum says.
-/
open LinkLib

namespace CalcBridge

namespace Cmd

def var : UInt8 := 0x06
def cts : UInt8 := 0x09
def data : UInt8 := 0x15
/-- Silent: request OS and hardware versions. -/
def ver : UInt8 := 0x2D
def skip : UInt8 := 0x36
def ack : UInt8 := 0x56
def err : UInt8 := 0x5A
/-- Silent: "are you ready?". -/
def rdy : UInt8 := 0x68
/-- Silent: request screenshot. -/
def scr : UInt8 := 0x6D
def eot : UInt8 := 0x92
def req : UInt8 := 0xA2
def rts : UInt8 := 0xC9

/-- The commands that carry no body even when their length field is nonzero. -/
def headerOnly : List UInt8 := [cts, ack, err, rdy, scr, eot, ver]

end Cmd

/-- What `recv_packet` returns. -/
structure Packet where
  machine : UInt8
  cmd : UInt8
  data : Bytes
  deriving DecidableEq, Repr

/-- `pc_id_for`. -/
def pcIdFor (calcId : UInt8) : UInt8 :=
  ([(0x82, 0x02), (0x83, 0x03), (0x73, 0x23), (0x86, 0x06), (0x88, 0x08), (0x98, 0x88)].lookup calcId).getD 0x23

/-- The 16-bit sum of the bytes. -/
def checksum (data : Bytes) : Nat := data.foldl (fun s b => (s + b.toNat) &&& 0xFFFF) 0

/-- A 16-bit word on the wire, low byte first. -/
def wordBytes (n : Nat) : Bytes := [UInt8.ofNat (n &&& 0xFF), UInt8.ofNat ((n >>> 8) &&& 0xFF)]

/-- The word with these bytes. -/
def word (lo hi : UInt8) : Nat := lo.toNat ||| (hi.toNat <<< 8)

/-- `packet_bytes`. -/
def packetBytes (cmd : UInt8) (data : Bytes) (machine : UInt8) : Bytes :=
  [machine, cmd] ++ wordBytes data.length ++ if data.length ≠ 0 then data ++ wordBytes (checksum data) else []

section Receive
variable {σ : Type} (recvByte : Nat → σ → Option UInt8 × σ)

/-- `if x is None: return None`. -/
def orNone {α β : Type} (r : Option α × σ) (next : α → σ → Option β × σ) : Option β × σ :=
  match r with
  | (none, s) => (none, s)
  | (some a, s) => next a s

/-- The body loop of `recv_packet`. -/
def recvBytes (timeoutMs : Nat) : Nat → σ → Option Bytes × σ
  | 0, s => (some [], s)
  | n + 1, s => orNone (recvByte timeoutMs s) fun b s => orNone (recvBytes timeoutMs n s) fun bs s => (some (b :: bs), s)

/-- The two checksum bytes behind `data`. Both are read before either is looked at. -/
def recvTrailer (timeoutMs : Nat) (data : Bytes) (s : σ) : Option Bytes × σ :=
  let csLo := recvByte timeoutMs s
  let csHi := recvByte timeoutMs csLo.2
  match csLo.1, csHi.1 with
  | some lo, some hi =>
    let got := lo.toNat ||| (hi.toNat <<< 8)
    let want := checksum data
    -- A checksum that differs is printed, and nothing else.
    if got ≠ want then (some data, csHi.2) else (some data, csHi.2)
  | _, _ => (none, csHi.2)

/-- The body of `n` bytes, and the checksum that only a nonempty body has. -/
def recvData (timeoutMs : Nat) (n : Nat) (s : σ) : Option Bytes × σ :=
  if n ≠ 0 then orNone (recvBytes recvByte timeoutMs n s) fun data s => recvTrailer recvByte timeoutMs data s
  else (some [], s)

/-- `recv_packet`, over any `recv_byte`. -/
def recvPacket (timeoutMs : Nat) (s : σ) : Option Packet × σ :=
  orNone (recvByte timeoutMs s) fun machine s =>
  orNone (recvByte timeoutMs s) fun cmd s =>
  orNone (recvByte timeoutMs s) fun lo s =>
  orNone (recvByte timeoutMs s) fun hi s =>
  let n := lo.toNat ||| (hi.toNat <<< 8)
  if cmd ∈ Cmd.headerOnly then (some ⟨machine, cmd, []⟩, s)
  else orNone (recvData recvByte timeoutMs n s) fun data s => (some ⟨machine, cmd, data⟩, s)

end Receive

/-! ## The wire as a script -/

/-- What the wire brings: bytes, and timeouts between them. One that has run
out only times out. -/
abbrev Rx := List (Option UInt8)

/-- `recv_byte` on a script. -/
def Rx.recvByte (_timeoutMs : Nat) : Rx → Option UInt8 × Rx
  | [] => (none, [])
  | b :: rx => (b, rx)

/-- `recv_packet` on a script. -/
abbrev Rx.recvPacket (timeoutMs : Nat) (rx : Rx) : Option Packet × Rx := CalcBridge.recvPacket Rx.recvByte timeoutMs rx

/-- A packet on the wire, intact or not: the body is as long as the word says,
with a two-byte trailer behind it unless it is empty. -/
structure Raw where
  machine : UInt8
  cmd : UInt8
  lo : UInt8
  hi : UInt8
  body : Bytes
  trailer : Bytes
  fits : (cmd ∈ Cmd.headerOnly ∧ body = [] ∧ trailer = []) ∨
    (cmd ∉ Cmd.headerOnly ∧ body.length = word lo hi ∧ trailer.length = if body.length = 0 then 0 else 2)

def Raw.bytes (r : Raw) : Bytes := [r.machine, r.cmd, r.lo, r.hi] ++ (r.body ++ r.trailer)

def Raw.packet (r : Raw) : Packet := ⟨r.machine, r.cmd, r.body⟩

/-- The trailer is the checksum of the body. -/
def Raw.Passes (r : Raw) : Prop := r.trailer ≠ [] → Bytes.ofLe r.trailer = checksum r.body

instance (r : Raw) : Decidable r.Passes := inferInstanceAs (Decidable (_ → _))

/-- Bytes in front of the rest of a script. -/
def onWire (bs : Bytes) (rx : Rx) : Rx := bs.map some ++ rx

theorem onWire_append (bs bs' : Bytes) (rx : Rx) : onWire (bs ++ bs') rx = onWire bs (onWire bs' rx) := by
  simp [onWire]

/-! ## Receiving is reading one raw packet -/

theorem orNone_eq_some {σ α β : Type} {r : Option α × σ} {next : α → σ → Option β × σ} {b : β} {s : σ} :
    orNone r next = (some b, s) ↔ ∃ a s', r = (some a, s') ∧ next a s' = (some b, s) := by
  obtain ⟨o, s'⟩ := r
  cases o with
  | none => simp [orNone]
  | some a => simp [orNone]

theorem recvByte_eq_some {t : Nat} {rx rest : Rx} {b : UInt8} :
    Rx.recvByte t rx = (some b, rest) ↔ rx = some b :: rest := by
  cases rx with
  | nil => simp [Rx.recvByte]
  | cons o rx => simp [Rx.recvByte]

theorem recvBytes_eq_some {t n : Nat} {rx rest : Rx} {bs : Bytes} :
    recvBytes Rx.recvByte t n rx = (some bs, rest) ↔ bs.length = n ∧ rx = onWire bs rest := by
  induction n generalizing rx bs with
  | zero =>
    rw [recvBytes, List.length_eq_zero_iff]
    constructor
    · intro h; cases h; exact ⟨rfl, rfl⟩
    · rintro ⟨rfl, rfl⟩; rfl
  | succ n ih =>
    rw [recvBytes, orNone_eq_some]
    constructor
    · rintro ⟨b, rx', hb, h⟩
      obtain ⟨bs', rx'', hbs, h'⟩ := orNone_eq_some.1 h
      cases h'
      obtain ⟨hlen, rfl⟩ := ih.1 hbs
      exact ⟨by rw [List.length_cons, hlen], recvByte_eq_some.1 hb⟩
    · rintro ⟨hlen, rfl⟩
      cases bs with
      | nil => cases hlen
      | cons b bs =>
        exact ⟨b, _, rfl, orNone_eq_some.2 ⟨bs, rest, ih.2 ⟨Nat.succ.inj hlen, rfl⟩, rfl⟩⟩

/-- The two bytes are there or not; what they say does not matter. -/
theorem recvTrailer_eq_some {t : Nat} {rx rest : Rx} {data bs : Bytes} :
    recvTrailer Rx.recvByte t data rx = (some bs, rest) ↔ bs = data ∧ ∃ trailer, trailer.length = 2 ∧ rx = onWire trailer rest := by
  constructor
  · intro h
    match rx, h with
    | [], h => cases h
    | none :: _, h => cases h
    | [some _], h => cases h
    | some _ :: none :: _, h => cases h
    | some lo :: some hi :: rx, h =>
      change (if _ then (some data, rx) else (some data, rx)) = _ at h
      rw [ite_self] at h
      cases h
      exact ⟨rfl, [lo, hi], rfl, rfl⟩
  · rintro ⟨rfl, trailer, hlen, rfl⟩
    obtain ⟨lo, hi, rfl⟩ := List.length_eq_two.1 hlen
    exact ite_self _

theorem recvData_eq_some {t n : Nat} {rx rest : Rx} {data : Bytes} :
    recvData Rx.recvByte t n rx = (some data, rest) ↔
      data.length = n ∧ ∃ trailer, trailer.length = (if n = 0 then 0 else 2) ∧ rx = onWire (data ++ trailer) rest := by
  unfold recvData
  by_cases hn : n = 0
  · subst hn
    rw [if_neg (by simp), if_pos rfl]
    constructor
    · intro h
      cases h
      exact ⟨rfl, [], rfl, rfl⟩
    · rintro ⟨hdata, trailer, htrailer, rfl⟩
      rw [List.length_eq_zero_iff.1 hdata, List.length_eq_zero_iff.1 htrailer]
      rfl
  · rw [if_pos hn, if_neg hn, orNone_eq_some]
    constructor
    · rintro ⟨data', rx', hdata, h⟩
      obtain ⟨hlen, rfl⟩ := recvBytes_eq_some.1 hdata
      obtain ⟨rfl, trailer, htrailer, rfl⟩ := recvTrailer_eq_some.1 h
      exact ⟨hlen, trailer, htrailer, (onWire_append _ _ _).symm⟩
    · rintro ⟨hlen, trailer, htrailer, rfl⟩
      rw [onWire_append]
      exact ⟨data, _, recvBytes_eq_some.2 ⟨hlen, rfl⟩, recvTrailer_eq_some.2 ⟨rfl, trailer, htrailer, rfl⟩⟩

/-- Four header bytes, and what `recv_packet` does with them. -/
theorem recvPacket_header {t : Nat} {rx rest : Rx} {p : Packet} :
    Rx.recvPacket t rx = (some p, rest) ↔ ∃ machine cmd lo hi rx', rx = onWire [machine, cmd, lo, hi] rx' ∧
      (if cmd ∈ Cmd.headerOnly then (some ⟨machine, cmd, []⟩, rx')
        else orNone (recvData Rx.recvByte t (word lo hi) rx') fun data rx => (some ⟨machine, cmd, data⟩, rx)) =
      (some p, rest) := by
  simp only [Rx.recvPacket, recvPacket, orNone_eq_some, recvByte_eq_some]
  constructor
  · rintro ⟨machine, _, rfl, cmd, _, rfl, lo, _, rfl, hi, rx', rfl, h⟩
    exact ⟨machine, cmd, lo, hi, rx', rfl, h⟩
  · rintro ⟨machine, cmd, lo, hi, rx', rfl, h⟩
    exact ⟨machine, _, rfl, cmd, _, rfl, lo, _, rfl, hi, rx', rfl, h⟩

/-- `recv_packet` returns a packet exactly when a raw packet is next. -/
theorem recvPacket_eq_some {t : Nat} {rx rest : Rx} {p : Packet} :
    Rx.recvPacket t rx = (some p, rest) ↔ ∃ r : Raw, rx = onWire r.bytes rest ∧ p = r.packet := by
  rw [recvPacket_header]
  constructor
  · rintro ⟨machine, cmd, lo, hi, rx', rfl, h⟩
    by_cases hcmd : cmd ∈ Cmd.headerOnly
    · rw [if_pos hcmd] at h
      cases h
      exact ⟨⟨machine, cmd, lo, hi, [], [], .inl ⟨hcmd, rfl, rfl⟩⟩, rfl, rfl⟩
    · rw [if_neg hcmd] at h
      obtain ⟨data, rx'', hdata, h⟩ := orNone_eq_some.1 h
      cases h
      obtain ⟨hlen, trailer, htrailer, rfl⟩ := recvData_eq_some.1 hdata
      rw [← hlen] at htrailer
      exact ⟨⟨machine, cmd, lo, hi, data, trailer, .inr ⟨hcmd, hlen, htrailer⟩⟩, rfl, rfl⟩
  · rintro ⟨⟨machine, cmd, lo, hi, body, trailer, hfits⟩, rfl, rfl⟩
    refine ⟨machine, cmd, lo, hi, _, rfl, ?_⟩
    rcases hfits with ⟨hcmd, rfl, rfl⟩ | ⟨hcmd, hlen, htrailer⟩
    · rw [if_pos hcmd]
      rfl
    · rw [if_neg hcmd]
      rw [hlen] at htrailer
      exact orNone_eq_some.2 ⟨body, rest, recvData_eq_some.2 ⟨hlen, trailer, htrailer, rfl⟩, rfl⟩

/-- A raw packet can be read in one way only. -/
theorem Raw.onWire_inj {r r' : Raw} {rest rest' : Rx} (h : onWire r.bytes rest = onWire r'.bytes rest') :
    r = r' ∧ rest = rest' := by
  have hr : Rx.recvPacket 0 (onWire r.bytes rest) = (some r.packet, rest) := recvPacket_eq_some.2 ⟨r, rfl, rfl⟩
  have hr' : Rx.recvPacket 0 (onWire r.bytes rest) = (some r'.packet, rest') := recvPacket_eq_some.2 ⟨r', h, rfl⟩
  obtain ⟨hp, rfl⟩ := Prod.mk.inj (hr.symm.trans hr')
  obtain ⟨machine, cmd, lo, hi, body, trailer, fits⟩ := r
  obtain ⟨machine', cmd', lo', hi', body', trailer', fits'⟩ := r'
  simp only [Raw.packet, Option.some.injEq, Packet.mk.injEq] at hp
  obtain ⟨rfl, rfl, rfl⟩ := hp
  rw [onWire, onWire, List.append_cancel_right_eq] at h
  have hbytes := List.map_injective_iff.2 (Option.some_injective UInt8) h
  simp only [Raw.bytes, List.cons_append, List.nil_append, List.cons.injEq, true_and, List.append_cancel_left_eq] at hbytes
  obtain ⟨rfl, rfl, rfl⟩ := hbytes
  exact ⟨rfl, rfl⟩

/-! ## The round trip -/

theorem checksum_lt (data : Bytes) : checksum data < 65536 := by
  have h : ∀ s < 65536, data.foldl (fun s b => (s + b.toNat) &&& 0xFFFF) s < 65536 := by
    induction data with
    | nil => exact fun s hs => hs
    | cons b data ih =>
      intro s _
      rw [List.foldl_cons]
      exact ih _ (Nat.lt_of_le_of_lt Nat.and_le_right (by decide))
  exact h 0 (by decide)

/-- A packet as either end puts it on the wire: `packet_bytes`, or four bytes
with any word for a command that carries no body. -/
inductive Sent where
  | carrying (machine cmd : UInt8) (body : Bytes) (hcmd : cmd ∉ Cmd.headerOnly) (hbody : body.length ≤ 65535)
  | bare (machine cmd lo hi : UInt8) (hcmd : cmd ∈ Cmd.headerOnly)

def Sent.bytes : Sent → Bytes
  | .carrying machine cmd body _ _ => packetBytes cmd body machine
  | .bare machine cmd lo hi _ => [machine, cmd, lo, hi]

def Sent.packet : Sent → Packet
  | .carrying machine cmd body _ _ => ⟨machine, cmd, body⟩
  | .bare machine cmd _ _ _ => ⟨machine, cmd, []⟩

/-- What is sent is a raw packet that passes its checksum. -/
theorem Sent.raw (p : Sent) : ∃ r : Raw, r.bytes = p.bytes ∧ r.packet = p.packet ∧ r.Passes := by
  cases p with
  | carrying machine cmd body hcmd hbody =>
    have hword : word (UInt8.ofNat (body.length &&& 0xFF)) (UInt8.ofNat ((body.length >>> 8) &&& 0xFF)) = body.length :=
      Bytes.word_split (by omega)
    refine ⟨⟨machine, cmd, _, _, body, if body.length = 0 then [] else wordBytes (checksum body),
      .inr ⟨hcmd, hword.symm, by split <;> rfl⟩⟩, ?_, rfl, ?_⟩
    · simp only [Raw.bytes, Sent.bytes, packetBytes, wordBytes]
      by_cases hlen : body.length = 0
      · simp [List.length_eq_zero_iff.1 hlen]
      · simp [hlen]
    · intro htrailer
      have hsum := Bytes.word_split (checksum_lt body)
      rw [Bytes.or_shiftLeft_8] at hsum
      by_cases hlen : body.length = 0
      · exact absurd (if_pos hlen) htrailer
      · simpa [hlen, wordBytes, Bytes.ofLe] using hsum
  | bare machine cmd lo hi hcmd =>
    exact ⟨⟨machine, cmd, lo, hi, [], [], .inl ⟨hcmd, rfl, rfl⟩⟩, rfl, rfl, fun h => absurd rfl h⟩

/-- `k` calls of `recv_packet`, and what is left to read. -/
def recvPackets (timeoutMs : Nat) : Nat → Rx → List (Option Packet) × Rx
  | 0, rx => ([], rx)
  | k + 1, rx =>
    let r := Rx.recvPacket timeoutMs rx
    let t := recvPackets timeoutMs k r.2
    (r.1 :: t.1, t.2)

/-- For any sequence of packets sent by either end, as many `recv_packet` calls
return them in order and read their bytes and no more. -/
theorem recvPackets_sent (timeoutMs : Nat) (ps : List Sent) (rest : Rx) :
    recvPackets timeoutMs ps.length (onWire (ps.flatMap Sent.bytes) rest) = (ps.map fun p => some p.packet, rest) := by
  induction ps with
  | nil => rfl
  | cons p ps ih =>
    obtain ⟨r, hbytes, hpacket, -⟩ := p.raw
    have hrecv : Rx.recvPacket timeoutMs (onWire p.bytes (onWire (ps.flatMap Sent.bytes) rest)) =
        (some p.packet, onWire (ps.flatMap Sent.bytes) rest) :=
      recvPacket_eq_some.2 ⟨r, by rw [hbytes], hpacket.symm⟩
    rw [List.length_cons, recvPackets, List.flatMap_cons, onWire_append, hrecv]
    dsimp only
    rw [ih]
    rfl

end CalcBridge
