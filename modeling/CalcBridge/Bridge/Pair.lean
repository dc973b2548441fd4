import CalcBridge.LinkLib.Latch
import CalcBridge.LinkLib.Runs
import CalcBridge.LinkLib.Ticks
import CalcBridge.Relay.Reply
import CalcBridge.Tokens
/-!
# Pairing Str1 and Str2 (`src/bridge.py`)

`onVar` is the callback of `_make_on_var`: it buffers a Str1 or Str2 text until
the other one is there and ships both as one frame, and relays every other
variable. `maybeFlushStalePair` is the timeout check between two listens. A run
interleaves the two in any order, at any times.
-/
open LinkLib LinkLib.Text LinkLib.Runs LinkLib.Latch LinkLib.Ticks CalcBridge.Tokens

namespace CalcBridge.Bridge

def strSlotText : UInt8 := 0x00
def strSlotMath : UInt8 := 0x01

/-- `PAIR_TIMEOUT_MS`. -/
def pairTimeoutMs : Nat := 2500

/-- The `pair` dict. -/
structure Pair where
  prompt : Option Str
  math : Option Str
  firstArrivalMs : Option Nat
  deriving DecidableEq, Repr

def Pair.empty : Pair := ⟨none, none, none⟩

/-- The buffered half of one slot. Str1 is the slot decoded in text mode. -/
def Pair.half (pair : Pair) : Mode → Option Str
  | .text => pair.prompt
  | .math => pair.math

def Pair.store (pair : Pair) : Mode → Str → Pair
  | .text, text => { pair with prompt := some text }
  | .math, text => { pair with math := some text }

def other : Mode → Mode
  | .text => .math
  | .math => .text

/-- The bridge's shared state: whether `sock_holder[0]` holds a socket, and the pair. -/
structure State where
  sock : Bool
  pair : Pair
  deriving DecidableEq, Repr

/-- How `net.send_framed` ends. -/
inductive Send where
  | ok
  | osError
  deriving DecidableEq, Repr

/-- What became of a payload. -/
inductive Fate where
  /-- The socket is down. -/
  | dropped
  | sent (payload : Bytes)
  /-- `send_framed` raised OSError, and so does the callback. -/
  | failed
  /-- `encode("ascii")` raised UnicodeEncodeError. -/
  | unencodable
  deriving DecidableEq, Repr

inductive Output where
  /-- A frame of `_emit_pair`. -/
  | pair (prompt math : Str) (fate : Fate)
  /-- A payload of `_relay_raw`. -/
  | raw (fate : Fate)
  deriving DecidableEq, Repr

def Output.fate : Output → Fate
  | .pair _ _ fate => fate
  | .raw fate => fate

/-! ## The code -/

/-- The `try` around `net.send_framed`: an OSError closes the socket and drops it. -/
def trySend (send : Send) (payload : Bytes) : Bool × Fate :=
  match send with
  | .ok => (true, .sent payload)
  | .osError => (false, .failed)

def pairBody (promptText mathText : Str) : Str :=
  str "prompt:" ++ promptText ++ str "\nmath:" ++ mathText ++ str "\n"

/-- `_emit_pair`: the socket afterwards and the frame's fate. -/
def emitPair (sock : Bool) (send : Send) (promptText mathText : Str) : Bool × Fate :=
  if sock then
    match encodeAscii (pairBody promptText mathText) with
    | some payload => trySend send payload
    | none => (sock, .unencodable)
  else (sock, .dropped)

/-- `_flush_pair`. The pair is cleared before the frame is sent. -/
def flushPair (s : State) (send : Send) : State × Option Output :=
  let promptText := s.pair.prompt.getD []
  let mathText := s.pair.math.getD []
  let r := emitPair s.sock send promptText mathText
  (⟨r.1, .empty⟩, some (.pair promptText mathText r.2))

/-- `_relay_raw`. -/
def relayRaw (s : State) (send : Send) (payload : Bytes) : State × Option Output :=
  if s.sock then
    let r := trySend send payload
    ({ s with sock := r.1 }, some (.raw r.2))
  else (s, some (.raw .dropped))

/-- `SIZE_PREFIXED`. -/
def sizePrefixed : List UInt8 := [0x04, 0x05, 0x06, 0x15]

/-- `_strip_size_prefix`. -/
def stripSizePrefix (typeId : UInt8) (data : Bytes) : Bytes :=
  match data with
  | lo :: hi :: rest =>
    if typeId ∈ sizePrefixed ∧ lo.toNat ||| (hi.toNat <<< 8) = rest.length then rest else data
  | _ => data

/-- The slot byte, when `on_var`'s test for a String variable passes. -/
def strSlot (typeId : UInt8) (name8 : Bytes) : Option UInt8 :=
  match name8 with
  | n0 :: slot :: _ => if typeId = 0x04 ∧ n0 = 0xAA then some slot else none
  | _ => none

def Pair.stamp (pair : Pair) (now : Nat) : Pair :=
  if pair.firstArrivalMs = none then { pair with firstArrivalMs := some now } else pair

/-- The branch of `on_var` for one of the two slots: store the text, stamp a
first arrival, and flush when the other slot is filled. -/
def deliverHalf (s : State) (now : Nat) (send : Send) (m : Mode) (text : Str) : State × Option Output :=
  let pair := (s.pair.store m text).stamp now
  if pair.half (other m) ≠ none then flushPair ⟨s.sock, pair⟩ send else (⟨s.sock, pair⟩, none)

/-- `on_var`. The header it is given as well is not used. -/
def onVar (s : State) (now : Nat) (send : Send) (typeId : UInt8) (name8 data : Bytes) : State × Option Output :=
  let payload := stripSizePrefix typeId data
  match strSlot typeId name8 with
  | some slot =>
    if slot = strSlotText then deliverHalf s now send .text (tokensToAscii payload .text)
    else if slot = strSlotMath then deliverHalf s now send .math (tokensToAscii payload .math)
    else match encodeAscii (tokensToAscii payload .text) with
      | some payload => relayRaw s send payload
      | none => (s, some (.raw .unencodable))
  | none => relayRaw s send payload

/-- `_maybe_flush_stale_pair`. -/
def maybeFlushStalePair (s : State) (now : Nat) (send : Send) : State × Option Output :=
  match s.pair.firstArrivalMs with
  | none => (s, none)
  | some first =>
    if s.pair.prompt ≠ none ∧ s.pair.math ≠ none then flushPair s send
    else if ticksDiff now first ≥ pairTimeoutMs then flushPair s send
    else (s, none)

/-! ## Runs -/

inductive Op where
  | onVar (typeId : UInt8) (name8 data : Bytes)
  | check
  deriving DecidableEq, Repr

/-- One call, the clock when it is made, how a send in it ends, and whether
the supervisor's socket is up when it starts. -/
structure Event where
  op : Op
  now : Nat
  send : Send
  sock : Bool
  deriving DecidableEq, Repr

def step (s : State) (e : Event) : State × Option Output :=
  match e.op with
  | .onVar typeId name8 data => onVar ⟨e.sock, s.pair⟩ e.now e.send typeId name8 data
  | .check => maybeFlushStalePair ⟨e.sock, s.pair⟩ e.now e.send

/-- The half a call delivers: the slot and the decoded text. -/
def delivery (op : Op) : Option (Mode × Str) :=
  match op with
  | .onVar typeId name8 data =>
    let payload := stripSizePrefix typeId data
    match strSlot typeId name8 with
    | some slot =>
      if slot = strSlotText then some (.text, tokensToAscii payload .text)
      else if slot = strSlotMath then some (.math, tokensToAscii payload .math)
      else none
    | none => none
  | .check => none

/-- The text a call delivers to slot `m`. -/
def delivers (m : Mode) (op : Op) : Option Str :=
  match delivery op with
  | some (m', text) => if m' = m then some text else none
  | none => none

/-- The text an entry of a history delivers to slot `m`. -/
def sets (m : Mode) (x : Event × Option Output) : Option Str := delivers m x.1.op

def Output.isPair : Option Output → Bool
  | some (.pair ..) => true
  | _ => false

/-- A pair frame leaves in this entry. -/
def flushes (x : Event × Option Output) : Bool := Output.isPair x.2

/-- The field of a frame that slot `m` fills. -/
def field (promptText mathText : Str) : Mode → Str
  | .text => promptText
  | .math => mathText

/-! ## What one call can do -/

@[simp] theorem half_stamp (pair : Pair) (now : Nat) (m : Mode) : (pair.stamp now).half m = pair.half m := by
  unfold Pair.stamp
  split <;> cases m <;> rfl

theorem half_store (pair : Pair) (m m' : Mode) (text : Str) :
    (pair.store m text).half m' = if m' = m then some text else pair.half m' := by
  cases m <;> cases m' <;> rfl

@[simp] theorem half_store_other (pair : Pair) (m : Mode) (text : Str) :
    (pair.store m text).half (other m) = pair.half (other m) := by
  cases m <;> rfl

@[simp] theorem half_empty (m : Mode) : Pair.empty.half m = none := by cases m <;> rfl

theorem half_getD (pair : Pair) (m : Mode) : field (pair.prompt.getD []) (pair.math.getD []) m = (pair.half m).getD [] := by
  cases m <;> rfl

theorem token_text_encodes (bs : Bytes) (m : Mode) :
    encodeAscii (tokensToAscii bs m) = some ((tokensToAscii bs m).map UInt8.ofNat) :=
  encodeAscii_of fun c hc => printable_lt (tokensToAscii_printable bs m c hc)

/-- `on_var` buffers a half or relays. -/
theorem onVar_cases (s : State) (now : Nat) (send : Send) (typeId : UInt8) (name8 data : Bytes) :
    (∃ m text, delivery (.onVar typeId name8 data) = some (m, text) ∧
      onVar s now send typeId name8 data = deliverHalf s now send m text) ∨
    (delivery (.onVar typeId name8 data) = none ∧
      ∃ payload, onVar s now send typeId name8 data = relayRaw s send payload) := by
  cases hslot : strSlot typeId name8 with
  | none => exact .inr ⟨by simp [delivery, hslot], stripSizePrefix typeId data, by simp only [onVar, hslot]⟩
  | some slot =>
    by_cases ht : slot = strSlotText
    · exact .inl ⟨.text, tokensToAscii (stripSizePrefix typeId data) .text, by simp only [delivery, hslot, if_pos ht],
        by simp only [onVar, hslot, if_pos ht]⟩
    · by_cases hm : slot = strSlotMath
      · exact .inl ⟨.math, tokensToAscii (stripSizePrefix typeId data) .math, by simp only [delivery, hslot, if_neg ht, if_pos hm],
          by simp only [onVar, hslot, if_neg ht, if_pos hm]⟩
      · refine .inr ⟨by simp only [delivery, hslot, if_neg ht, if_neg hm],
          (tokensToAscii (stripSizePrefix typeId data) .text).map UInt8.ofNat, ?_⟩
        simp only [onVar, hslot, if_neg ht, if_neg hm, token_text_encodes]

/-- What a call does: a half arrives and waits for the other one, or completes
the pair; a check flushes what is buffered, or leaves it alone; and any other
variable is relayed. -/
inductive Effect (s : State) (e : Event) : State × Option Output → Prop where
  | waits (m : Mode) (text : Str) (hd : delivery e.op = some (m, text)) (hother : s.pair.half (other m) = none) :
      Effect s e (⟨e.sock, (s.pair.store m text).stamp e.now⟩, none)
  | completes (m : Mode) (text : Str) (hd : delivery e.op = some (m, text)) (hother : s.pair.half (other m) ≠ none) :
      Effect s e (flushPair ⟨e.sock, (s.pair.store m text).stamp e.now⟩ e.send)
  | flushes (hop : e.op = .check) (first : Nat) (hfirst : s.pair.firstArrivalMs = some first)
      (hdue : (s.pair.prompt ≠ none ∧ s.pair.math ≠ none) ∨ ticksDiff e.now first ≥ pairTimeoutMs) :
      Effect s e (flushPair ⟨e.sock, s.pair⟩ e.send)
  | keeps (hop : e.op = .check)
      (hyoung : ∀ first, s.pair.firstArrivalMs = some first → ticksDiff e.now first < pairTimeoutMs) :
      Effect s e (⟨e.sock, s.pair⟩, none)
  | relays (hd : delivery e.op = none) (payload : Bytes) : Effect s e (relayRaw ⟨e.sock, s.pair⟩ e.send payload)

theorem effect_of (s : State) (e : Event) : Effect s e (step s e) := by
  obtain ⟨op, now, send, sock⟩ := e
  cases op with
  | check =>
    unfold step maybeFlushStalePair
    dsimp only
    cases hf : s.pair.firstArrivalMs with
    | none => exact .keeps rfl (by simp [hf])
    | some first =>
      dsimp only
      split
      · exact .flushes rfl first hf (.inl ‹_›)
      · split
        · exact .flushes rfl first hf (.inr ‹_›)
        · rename_i hage
          refine .keeps rfl fun first' hf' => ?_
          rw [hf] at hf'
          cases hf'
          exact Int.not_le.1 hage
  | onVar typeId name8 data =>
    change Effect s _ (onVar ⟨sock, s.pair⟩ now send typeId name8 data)
    rcases onVar_cases ⟨sock, s.pair⟩ now send typeId name8 data with ⟨m, text, hd, he⟩ | ⟨hd, payload, he⟩
    · have hother : ((s.pair.store m text).stamp now).half (other m) = s.pair.half (other m) := by simp
      rw [he]
      unfold deliverHalf
      dsimp only
      rw [hother]
      split
      · exact .completes m text hd ‹_›
      · exact .waits m text hd (not_not.1 ‹_›)
    · rw [he]
      exact .relays hd payload

/-! ## The buffer and its history -/

/-- What holds of the state between two calls. -/
structure Buffered (s : State) : Prop where
  stamp : s.pair.firstArrivalMs = none ↔ s.pair.prompt = none ∧ s.pair.math = none
  single : s.pair.prompt = none ∨ s.pair.math = none
  printable : ∀ m text, s.pair.half m = some text → ∀ c ∈ text, Printable c

/-- The state after a history: it is well formed, and each slot holds the text
the history says was the latest since the last frame. -/
structure Inv (h : List (Event × Option Output)) (s : State) : Prop where
  buffered : Buffered s
  held : ∀ m, (held (sets m) flushes h).map Prod.snd = s.pair.half m

theorem buffered_empty (sock : Bool) : Buffered ⟨sock, .empty⟩ := ⟨by simp [Pair.empty], .inl rfl, by simp⟩

theorem inv_nil (sock : Bool) : Inv [] ⟨sock, .empty⟩ := ⟨buffered_empty sock, fun m => by simp⟩

theorem other_none {s : State} (hb : Buffered s) (m : Mode) (hm : s.pair.half m ≠ none) : s.pair.half (other m) = none := by
  rcases hb.single with h | h <;> cases m
  · exact absurd h hm
  · exact h
  · exact h
  · exact absurd h hm

theorem half_none_iff (pair : Pair) (m : Mode) :
    (pair.half m = none ∧ pair.half (other m) = none) ↔ (pair.prompt = none ∧ pair.math = none) := by
  cases m
  · rfl
  · exact and_comm

theorem stamp_some (pair : Pair) (now : Nat) : (pair.stamp now).firstArrivalMs ≠ none := by
  unfold Pair.stamp
  split
  · simp
  · assumption

/-- One half and a stamp make a well-formed buffer. -/
theorem buffered_store {s : State} {m : Mode} (ho : s.pair.half (other m) = none) (sock : Bool) {text : Str}
    (ht : ∀ c ∈ text, Printable c) (now : Nat) : Buffered ⟨sock, (s.pair.store m text).stamp now⟩ := by
  have hm : ((s.pair.store m text).stamp now).half m = some text := by simp [half_store]
  have ho' : ((s.pair.store m text).stamp now).half (other m) = none := by simpa using ho
  refine ⟨⟨fun h => absurd h (stamp_some _ _), ?_⟩, ?_, ?_⟩
  · intro h
    rw [← half_none_iff _ m, hm] at h
    cases h.1
  · cases m
    · exact .inr ho'
    · exact .inl ho'
  · intro m' text' h
    have : m' = m ∨ m' = other m := by cases m <;> cases m' <;> simp [other]
    rcases this with rfl | rfl
    · rw [hm] at h; cases h; exact ht
    · rw [ho'] at h; cases h

theorem delivers_of {m : Mode} {text : Str} {op : Op} (hd : delivery op = some (m, text)) (m' : Mode) :
    delivers m' op = if m = m' then some text else none := by
  simp [delivers, hd]

theorem delivers_none {op : Op} (hd : delivery op = none) (m : Mode) : delivers m op = none := by
  simp [delivers, hd]

theorem delivery_check : delivery .check = none := rfl

/-- A delivered half is a decoded token string. -/
theorem delivery_text {op : Op} {m : Mode} {text : Str} (hd : delivery op = some (m, text)) :
    ∃ bs, text = tokensToAscii bs m := by
  cases op with
  | check => cases hd
  | onVar typeId name8 data =>
    simp only [delivery] at hd
    split at hd
    · split at hd
      · cases hd; exact ⟨_, rfl⟩
      · split at hd
        · cases hd; exact ⟨_, rfl⟩
        · cases hd
    · cases hd

theorem delivery_printable {op : Op} {m : Mode} {text : Str} (hd : delivery op = some (m, text)) :
    ∀ c ∈ text, Printable c := by
  obtain ⟨bs, rfl⟩ := delivery_text hd
  exact tokensToAscii_printable bs m

/-- A stored half shows in its slot; the other slot shows what it held. -/
theorem half_delivered {s : State} {m : Mode} {text : Str} {op : Op} (hd : delivery op = some (m, text)) (now : Nat)
    (m' : Mode) : ((s.pair.store m text).stamp now).half m' = (delivers m' op).or (s.pair.half m') := by
  rw [half_stamp, half_store, delivers_of hd]
  by_cases hm : m' = m
  · simp [hm]
  · simp [hm, Ne.symm hm]

/-- A raw relay sends no pair frame and leaves the buffer alone. -/
theorem relayRaw_pair (s : State) (send : Send) (payload : Bytes) :
    Output.isPair (relayRaw s send payload).2 = false ∧ (relayRaw s send payload).1.pair = s.pair := by
  unfold relayRaw
  split <;> exact ⟨rfl, rfl⟩

/-- Seen from the buffer a call does one of two things: ship the frame that
its own delivery and the buffer make, or keep both. -/
theorem step_pair (s : State) (e : Event) :
    (∃ pair, step s e = flushPair ⟨e.sock, pair⟩ e.send ∧ ∀ m, pair.half m = (delivers m e.op).or (s.pair.half m)) ∨
    (Output.isPair (step s e).2 = false ∧ ∀ m, (step s e).1.pair.half m = (delivers m e.op).or (s.pair.half m)) := by
  have heffect := effect_of s e
  generalize step s e = r at heffect ⊢
  cases heffect with
  | waits m text hd => exact .inr ⟨rfl, half_delivered hd e.now⟩
  | completes m text hd => exact .inl ⟨_, rfl, half_delivered hd e.now⟩
  | flushes hop => exact .inl ⟨_, rfl, fun m => by rw [hop, delivers_none delivery_check]; rfl⟩
  | keeps hop => exact .inr ⟨rfl, fun m => by rw [hop, delivers_none delivery_check]; rfl⟩
  | relays hd payload =>
    obtain ⟨hraw, hpair⟩ := relayRaw_pair ⟨e.sock, s.pair⟩ e.send payload
    refine .inr ⟨hraw, fun m => ?_⟩
    rw [hpair, delivers_none hd]
    rfl

theorem step_buffered {s : State} (hb : Buffered s) (e : Event) : Buffered (step s e).1 := by
  have heffect := effect_of s e
  generalize step s e = r at heffect ⊢
  cases heffect with
  | waits m text hd hother => exact buffered_store hother _ (delivery_printable hd) _
  | completes => exact buffered_empty _
  | flushes => exact buffered_empty _
  | keeps => exact ⟨hb.stamp, hb.single, hb.printable⟩
  | relays hd payload =>
    have hpair : (relayRaw ⟨e.sock, s.pair⟩ e.send payload).1.pair = s.pair := (relayRaw_pair _ _ _).2
    constructor <;> rw [hpair]
    · exact hb.stamp
    · exact hb.single
    · exact hb.printable

/-- What an entry offers in a slot: its own delivery, else what is buffered. -/
theorem offered_half {h : List (Event × Option Output)} {s : State} (hi : Inv h s) (m : Mode)
    (x : Event × Option Output) :
    (offered (sets m) flushes h x).map Prod.snd = (delivers m x.1.op).or (s.pair.half m) := by
  rw [← hi.held m, offered, offer, sets]
  cases delivers m x.1.op <;> simp

theorem step_inv (h : List (Event × Option Output)) (s : State) (e : Event) (hi : Inv h s) :
    Inv (h ++ [(e, (step s e).2)]) (step s e).1 := by
  refine ⟨step_buffered hi.buffered e, ?_⟩
  intro m
  rw [held_snoc]
  rcases step_pair s e with ⟨pair, he, -⟩ | ⟨ho, hpair⟩
  · rw [he]; simp [flushes, Output.isPair, flushPair]
  · rw [hpair m, ← offered_half hi m (e, (step s e).2)]
    simp [flushes, ho]

theorem run_inv (sock : Bool) (es : List Event) : Inv (run step ⟨sock, .empty⟩ es).2 (run step ⟨sock, .empty⟩ es).1 :=
  run_keeps Inv (inv_nil sock) step_inv es

end CalcBridge.Bridge
