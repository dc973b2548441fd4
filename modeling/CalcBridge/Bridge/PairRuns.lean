import CalcBridge.Bridge.Pair
/-!
# What a run of pairings ships

Theorems about whole runs of `onVar` and `maybeFlushStalePair` from the empty
buffer. `Carries` says which delivered half a frame's field is; the fields are
always the latest halves since the previous frame, and a frame that is sent
parses back to its fields at the relay.
-/
open LinkLib LinkLib.Text LinkLib.Runs LinkLib.Latch CalcBridge.Tokens

namespace CalcBridge.Bridge

/-- A history of calls and what each one shipped. -/
abbrev History := List (Event × Option Output)

/-- The history of a run from the empty buffer, and the state it ends in. -/
abbrev history (es : List Event) : History := (run step ⟨true, .empty⟩ es).2

abbrev after (es : List Event) : State := (run step ⟨true, .empty⟩ es).1

/-- Entry `k` ships a pair frame whose slot `m` field is the half that entry `i` delivered. -/
def Carries (h : History) (m : Mode) (k i : Nat) : Prop :=
  ∃ e promptText mathText fate, h[k]? = some (e, some (.pair promptText mathText fate)) ∧
    Offers (sets m) flushes h k i (field promptText mathText m)

/-! ## Frames -/

theorem emitPair_failed {sock : Bool} {send : Send} {promptText mathText : Str}
    (h : (emitPair sock send promptText mathText).2 = .failed) : (emitPair sock send promptText mathText).1 = false := by
  unfold emitPair at h ⊢
  cases sock with
  | false => cases h
  | true =>
    cases hp : encodeAscii (pairBody promptText mathText) with
    | none => simp [hp] at h
    | some payload => cases send <;> simp_all [trySend]

theorem pairBody_ascii {promptText mathText : Str} (hp : ∀ c ∈ promptText, Printable c)
    (hm : ∀ c ∈ mathText, Printable c) : ∀ c ∈ pairBody promptText mathText, c < 128 := by
  have hlit : ∀ c ∈ str "prompt:" ++ str "\nmath:" ++ str "\n", c < 128 := by decide
  intro c hc
  simp only [pairBody, List.mem_append] at hc hlit
  rcases hc with (((hc | hc) | hc) | hc) | hc
  · exact hlit c (.inl (.inl hc))
  · exact printable_lt (hp c hc)
  · exact hlit c (.inl (.inr hc))
  · exact printable_lt (hm c hc)
  · exact hlit c (.inr hc)

theorem newline_notMem {s : Str} (h : ∀ c ∈ s, Printable c) : newline ∉ s :=
  fun hn => absurd (h newline hn) (by decide)

/-- A frame whose fields are printable goes out whole, and the relay reads
back its two fields. -/
theorem pairBody_parses {promptText mathText : Str} (hp : ∀ c ∈ promptText, Printable c)
    (hm : ∀ c ∈ mathText, Printable c) :
    ∃ payload, encodeAscii (pairBody promptText mathText) = some payload ∧
      ∃ text, decodeAscii payload = some text ∧ Relay.parsePair text = (promptText, mathText) := by
  have hascii := pairBody_ascii hp hm
  exact ⟨_, encodeAscii_of hascii, _, decodeAscii_encode hascii,
    Relay.parsePair_frame (newline_notMem hp) (newline_notMem hm)⟩

theorem getD_printable {o : Option Str} (h : ∀ text, o = some text → ∀ c ∈ text, Printable c) :
    ∀ c ∈ o.getD [], Printable c := by
  cases o with
  | none => simp
  | some text => exact h text rfl

/-- A call that ships a frame flushes a pair made of its own delivery and the buffer. -/
theorem step_frame {s : State} {e : Event} {promptText mathText : Str} {fate : Fate}
    (ho : (step s e).2 = some (.pair promptText mathText fate)) :
    ∃ pair, step s e = flushPair ⟨e.sock, pair⟩ e.send ∧
      (∀ m, pair.half m = (delivers m e.op).or (s.pair.half m)) ∧
      (∀ m, field promptText mathText m = (pair.half m).getD []) ∧
      (emitPair e.sock e.send promptText mathText).2 = fate := by
  rcases step_pair s e with ⟨pair, he, hpair⟩ | ⟨hno, -⟩
  · rw [he] at ho
    simp only [flushPair, Option.some.injEq, Output.pair.injEq] at ho
    obtain ⟨rfl, rfl, rfl⟩ := ho
    exact ⟨pair, he, hpair, half_getD pair, rfl⟩
  · rw [ho] at hno
    cases hno

/-- The fields of every frame are printable: no token content reaches beyond its line. -/
theorem frame_printable {s : State} (hb : Buffered s) {e : Event} {promptText mathText : Str} {fate : Fate}
    (ho : (step s e).2 = some (.pair promptText mathText fate)) (m : Mode) :
    ∀ c ∈ field promptText mathText m, Printable c := by
  obtain ⟨pair, -, hpair, hfield, -⟩ := step_frame ho
  rw [hfield m, hpair m]
  apply getD_printable
  intro text ht
  cases hd : delivers m e.op with
  | none => rw [hd] at ht; exact hb.printable m text ht
  | some t =>
    rw [hd] at ht
    cases ht
    unfold delivers at hd
    split at hd
    · split at hd
      · rename_i m' t' hdel _
        cases hd
        exact delivery_printable hdel
      · cases hd
    · cases hd

/-- Entry `k` of a run is taken from a well-formed state whose buffer is what
the entries before `k` left. -/
theorem entry_before {es : List Event} {k : Nat} {e : Event} {o : Option Output} (hk : (history es)[k]? = some (e, o)) :
    ∃ s, Inv ((history es).take k) s ∧ o = (step s e).2 ∧ after (es.take k) = s ∧
      after (es.take (k + 1)) = (step s e).1 := by
  obtain ⟨-, ho, htake, hnext⟩ := run_entry hk
  exact ⟨_, htake ▸ run_inv true (es.take k), ho, rfl, hnext⟩

/-- The fields of a frame are the latest halves since the previous frame. -/
theorem frame_fields {es : List Event} {k : Nat} {e : Event} {promptText mathText : Str} {fate : Fate}
    (hk : (history es)[k]? = some (e, some (.pair promptText mathText fate))) (m : Mode) :
    (∃ i, Carries (history es) m k i) ∨
      (field promptText mathText m = [] ∧ ∀ j x, j ≤ k → (history es)[j]? = some x → sets m x ≠ none →
        ∃ l y, j ≤ l ∧ l < k ∧ (history es)[l]? = some y ∧ flushes y = true) := by
  obtain ⟨s, hinv, ho, -, -⟩ := entry_before hk
  obtain ⟨pair, -, hpair, hfield, -⟩ := step_frame ho.symm
  have hoff := offered_half hinv m (e, some (.pair promptText mathText fate))
  rw [← hpair m] at hoff
  cases hof : offered (sets m) flushes ((history es).take k) (e, some (.pair promptText mathText fate)) with
  | some iv =>
    obtain ⟨i, v⟩ := iv
    rw [hof] at hoff
    have hv : field promptText mathText m = v := by rw [hfield m, ← hoff]; rfl
    exact .inl ⟨i, e, _, _, _, hk, hv ▸ (offered_iff hk i v).1 hof⟩
  | none =>
    rw [hof] at hoff
    refine .inr ⟨by rw [hfield m, ← hoff]; rfl, ?_⟩
    intro j x hj hx hs
    exact cleared_of_offered_none hk hof hj hx hs

/-- Two frames never carry the same half. -/
theorem carries_unique {h : History} {m : Mode} {k k' i : Nat} (hc : Carries h m k i) (hc' : Carries h m k' i) : k = k' := by
  obtain ⟨e, p, q, f, hk, ho⟩ := hc
  obtain ⟨e', p', q', f', hk', ho'⟩ := hc'
  exact taken_unique ⟨⟨_, hk, rfl⟩, ho⟩ ⟨⟨_, hk', rfl⟩, ho'⟩

/-! ## Str1 and Str2 reach the relay -/

theorem strip_prefixed {typeId : UInt8} (ht : typeId ∈ sizePrefixed) {body : Bytes} (hb : body.length < 65536) :
    stripSizePrefix typeId (Bytes.toLe 2 body.length ++ body) = body := by
  have hsize : (UInt8.ofNat body.length).toNat ||| ((UInt8.ofNat (body.length / 256)).toNat <<< 8) = body.length := by
    rw [Bytes.or_shiftLeft_8, UInt8.toNat_ofNat', UInt8.toNat_ofNat']
    omega
  simp only [Bytes.toLe, List.cons_append, List.nil_append, stripSizePrefix]
  rw [if_pos ⟨ht, hsize⟩]

/-- A size-prefixed Str1 or Str2 body is delivered as its decoded tokens. -/
theorem delivery_str (m : Mode) {body : Bytes} (hb : body.length < 65536) (rest : Bytes) :
    delivery (.onVar 0x04 ([0xAA, if m = .text then 0x00 else 0x01] ++ rest) (Bytes.toLe 2 body.length ++ body)) =
      some (m, tokensToAscii body m) := by
  have hs : stripSizePrefix 0x04 _ = body := strip_prefixed (by decide) hb
  cases m <;> simp [delivery, strSlot, hs, strSlotText, strSlotMath]

/-- A half waits for the other one, or ships with it. -/
theorem step_delivery (s : State) {e : Event} {m : Mode} {text : Str} (hd : delivery e.op = some (m, text)) :
    step s e = if s.pair.half (other m) = none then (⟨e.sock, (s.pair.store m text).stamp e.now⟩, none)
      else flushPair ⟨e.sock, (s.pair.store m text).stamp e.now⟩ e.send := by
  have heffect := effect_of s e
  generalize step s e = r at heffect ⊢
  cases heffect with
  | waits m' t h hother =>
    rw [hd] at h
    cases h
    rw [if_pos hother]
  | completes m' t h hother =>
    rw [hd] at h
    cases h
    rw [if_neg hother]
  | flushes hop => rw [hop] at hd; cases hd
  | keeps hop => rw [hop] at hd; cases hd
  | relays h => rw [hd] at h; cases h

/-- Two different halves in a row, from the empty buffer: the first waits, the
second ships both. -/
theorem run_two {m : Mode} {op op' : Op} {text text' : Str} (hd : delivery op = some (m, text))
    (hd' : delivery op' = some (other m, text')) (now now' : Nat) :
    ∃ pair, pair.half m = some text ∧ pair.half (other m) = some text' ∧
      run step ⟨true, .empty⟩ [⟨op, now, .ok, true⟩, ⟨op', now', .ok, true⟩] =
        ((flushPair ⟨true, pair⟩ .ok).1,
          [(⟨op, now, .ok, true⟩, none), (⟨op', now', .ok, true⟩, (flushPair ⟨true, pair⟩ .ok).2)]) := by
  set p1 := (Pair.empty.store m text).stamp now with hp1
  have hfirst : step ⟨true, .empty⟩ ⟨op, now, .ok, true⟩ = (⟨true, p1⟩, none) :=
    (step_delivery _ hd).trans (if_pos (by simp))
  have hm : p1.half m = some text := by simp [hp1, half_store]
  have hoo : other (other m) = m := by cases m <;> rfl
  have hne : m ≠ other m := by cases m <;> simp [other]
  set p2 := (p1.store (other m) text').stamp now' with hp2
  have hsecond : step ⟨true, p1⟩ ⟨op', now', .ok, true⟩ = flushPair ⟨true, p2⟩ .ok :=
    (step_delivery _ hd').trans (if_neg (by simp [hoo, hm]))
  refine ⟨p2, ?_, ?_, ?_⟩
  · rw [hp2, half_stamp, half_store, if_neg hne, hm]
  · rw [hp2, half_stamp, half_store, if_pos rfl]
  · simp only [run_cons, run_nil, hfirst, hsecond]

/-- A full buffer ships as its two texts. -/
theorem flush_full {pair : Pair} {promptText mathText : Str} {payload : Bytes} (hp : pair.half .text = some promptText)
    (hm : pair.half .math = some mathText) (henc : encodeAscii (pairBody promptText mathText) = some payload) :
    flushPair ⟨true, pair⟩ .ok = (⟨true, .empty⟩, some (.pair promptText mathText (.sent payload))) := by
  have hp' : pair.prompt = some promptText := hp
  have hm' : pair.math = some mathText := hm
  simp only [flushPair, hp', hm', Option.getD_some, emitPair, henc, trySend, if_true]

/-- Str1 and Str2 with any token content, in either order from an empty buffer
with the socket up: exactly one frame goes out, and the relay reads the two
decoded texts back from it. -/
theorem pair_reaches_relay (a b rest rest' : Bytes) (str1First : Bool) (now now' : Nat) (ha : a.length ≤ 65533)
    (hb : b.length ≤ 65533) :
    let str1 : Op := .onVar 0x04 ([0xAA, 0x00] ++ rest) (Bytes.toLe 2 a.length ++ a)
    let str2 : Op := .onVar 0x04 ([0xAA, 0x01] ++ rest') (Bytes.toLe 2 b.length ++ b)
    let es : List Event := if str1First then [⟨str1, now, .ok, true⟩, ⟨str2, now', .ok, true⟩]
      else [⟨str2, now, .ok, true⟩, ⟨str1, now', .ok, true⟩]
    ∃ payload text,
      encodeAscii (pairBody (tokensToAscii a .text) (tokensToAscii b .math)) = some payload ∧
      (history es).filterMap Prod.snd = [.pair (tokensToAscii a .text) (tokensToAscii b .math) (.sent payload)] ∧
      after es = ⟨true, .empty⟩ ∧
      decodeAscii payload = some text ∧
      Relay.parsePair text = (tokensToAscii a .text, tokensToAscii b .math) := by
  intro str1 str2 es
  have h1 : delivery str1 = some (.text, tokensToAscii a .text) := delivery_str .text (by omega) rest
  have h2 : delivery str2 = some (.math, tokensToAscii b .math) := delivery_str .math (by omega) rest'
  obtain ⟨payload, henc, text, hdec, hparse⟩ :=
    pairBody_parses (tokensToAscii_printable a .text) (tokensToAscii_printable b .math)
  refine ⟨payload, text, henc, ?_⟩
  cases str1First with
  | true =>
    obtain ⟨pair, hp, hm, hrun⟩ := run_two h1 h2 now now'
    have hflush := flush_full hp hm henc
    simp only [es, history, after, if_true, hrun, hflush]
    exact ⟨rfl, trivial, hdec, hparse⟩
  | false =>
    obtain ⟨pair, hm, hp, hrun⟩ := run_two h2 h1 now now'
    have hflush := flush_full hp hm henc
    simp only [es, history, after, Bool.false_eq_true, if_false, hrun, hflush]
    exact ⟨rfl, trivial, hdec, hparse⟩

/-- `HI` and `XY`, the math half first. -/
theorem pair_reaches_relay_math_first :
    ∃ payload text, encodeAscii (pairBody (str "HI") (str "X*Y")) = some payload ∧
      decodeAscii payload = some text ∧ Relay.parsePair text = (str "HI", str "X*Y") := by
  obtain ⟨payload, text, henc, -, -, hdec, hparse⟩ :=
    pair_reaches_relay [0x48, 0x49] [0x58, 0x59] [] [] false 0 40 (by decide) (by decide)
  exact ⟨payload, text, henc, hdec, hparse⟩

/-! ## What becomes of a half -/

/-- With the socket up and the send accepted, a frame goes out. -/
theorem step_sent {s : State} (hb : Buffered s) {e : Event} (hsock : e.sock = true) (hsend : e.send = .ok)
    {promptText mathText : Str} {fate : Fate} (ho : (step s e).2 = some (.pair promptText mathText fate)) :
    ∃ payload, fate = .sent payload := by
  obtain ⟨pair, -, -, -, hfate⟩ := step_frame ho
  obtain ⟨payload, henc, -⟩ := pairBody_parses (frame_printable hb ho .text) (frame_printable hb ho .math)
  have hemit : emitPair true .ok promptText mathText = (true, .sent payload) := by
    rw [emitPair, if_pos rfl, show encodeAscii (pairBody promptText mathText) = some payload from henc]
    rfl
  rw [hsock, hsend, hemit] at hfate
  exact ⟨payload, hfate.symm⟩

theorem flushes_pair {x : Event × Option Output} (h : flushes x = true) :
    ∃ promptText mathText fate, x = (x.1, some (.pair promptText mathText fate)) := by
  obtain ⟨e, o⟩ := x
  unfold flushes Output.isPair at h
  split at h
  · rename_i p q f ho
    exact ⟨p, q, f, by rw [show o = _ from ho]⟩
  · cases h

/-- With the socket up and every send accepted, a delivered half goes out in a
frame, or is still buffered, or a later half of its slot replaced it before a
frame left. -/
theorem half_fate (es : List Event) (hup : ∀ e ∈ es, e.sock = true ∧ e.send = .ok) {i : Nat} {e : Event} {m : Mode}
    {text : Str} (he : es[i]? = some e) (hd : delivers m e.op = some text) :
    (∃ k e' promptText mathText payload,
      (history es)[k]? = some (e', some (.pair promptText mathText (.sent payload))) ∧
      field promptText mathText m = text ∧ Carries (history es) m k i) ∨
    (after es).pair.half m = some text ∨
    Overwritten (sets m) flushes (history es) i := by
  have hlen : i < (history es).length := by
    rw [length_run]; exact (List.getElem?_eq_some_iff.1 he).1
  obtain ⟨⟨e', o⟩, hx⟩ : ∃ x, (history es)[i]? = some x := ⟨_, List.getElem?_eq_getElem hlen⟩
  obtain rfl : e' = e := by
    have := (run_entry hx).1
    rw [he] at this
    exact (Option.some.inj this).symm
  have hset : sets m (e', o) = some text := hd
  have hfate : (∃ k, Taken (sets m) flushes (history es) k i text) ∨ Latest (sets m) flushes (history es) i text ∨
      Overwritten (sets m) flushes (history es) i := Latch.fate hx hset
  rcases hfate with ⟨k, ht⟩ | hl | ho
  · obtain ⟨x, hk, hf⟩ := ht.clears
    obtain ⟨p, q, f, hx'⟩ := flushes_pair hf
    rw [hx'] at hk
    obtain ⟨s, hinv, hout, -, -⟩ := entry_before hk
    have hkup := hup x.1 (List.mem_of_getElem? (run_entry hk).1)
    obtain ⟨payload, rfl⟩ := step_sent hinv.buffered hkup.1 hkup.2 hout.symm
    -- The entry carries one half in this slot, and it is entry `i`'s.
    have hfield : field p q m = text := by
      rcases frame_fields hk m with ⟨j, e'', p', q', f', hk', hoff⟩ | ⟨-, hclear⟩
      · rw [hk] at hk'
        cases hk'
        have h1 := (offered_iff hk i text).2 ht.offers
        rw [(offered_iff hk j _).2 hoff] at h1
        cases h1
        rfl
      · obtain ⟨l, y, hil, hlk, hy, hcy⟩ := hclear i _ ht.offers.le hx (by simp [sets, hd])
        have := ht.offers.uncleared l y hil hlk hy
        rw [hcy] at this
        cases this
    exact .inl ⟨k, _, p, q, payload, hk, hfield, _, p, q, _, hk, hfield ▸ ht.offers⟩
  · refine .inr (.inl ?_)
    rw [← (run_inv true es).held m, (held_iff _ i text).2 hl]
    rfl
  · exact .inr (.inr ho)

/-- A String variable of one token, sent at `now` over a working socket. -/
def oneToken (slot tok : UInt8) (now : Nat) : Event :=
  ⟨.onVar 0x04 ([0xAA, slot] ++ List.replicate 6 0) [1, 0, tok], now, .ok, true⟩

/-- Str1 `A`, then Str2 `X`. -/
theorem half_fate_paired :
    let es := [oneToken 0 0x41 0, oneToken 1 0x58 40]
    (∃ k e' promptText mathText payload,
      (history es)[k]? = some (e', some (.pair promptText mathText (.sent payload))) ∧
      field promptText mathText .text = str "A" ∧ Carries (history es) .text k 0) ∨
    (after es).pair.half .text = some (str "A") ∨
    Overwritten (sets .text) flushes (history es) 0 :=
  half_fate [oneToken 0 0x41 0, oneToken 1 0x58 40] (by decide) rfl (by decide)

/-- A repeated half is lost: Str1 `A`, Str1 `B`, Str2 `X` ship one frame, with
`B` in it, and leave nothing buffered. -/
theorem repeated_half_lost :
    ¬ ∀ es : List Event, (∀ e ∈ es, e.sock = true ∧ e.send = .ok) → ∀ e ∈ es, ∀ m text, delivers m e.op = some text →
      (∃ x ∈ history es, ∃ promptText mathText fate, x.2 = some (.pair promptText mathText fate) ∧
        field promptText mathText m = text) ∨ (after es).pair.half m = some text := by
  intro h
  have hrun : run step ⟨true, .empty⟩ [oneToken 0 0x41 0, oneToken 0 0x42 20, oneToken 1 0x58 40] =
      (⟨true, .empty⟩, [(oneToken 0 0x41 0, none), (oneToken 0 0x42 20, none),
        (oneToken 1 0x58 40, some (.pair (str "B") (str "X") (.sent ((pairBody (str "B") (str "X")).map UInt8.ofNat))))]) := by
    decide
  rcases h [oneToken 0 0x41 0, oneToken 0 0x42 20, oneToken 1 0x58 40] (by decide) (oneToken 0 0x41 0) (by simp) .text
    (str "A") (by decide) with ⟨x, hx, p, q, f, ho, hp⟩ | hbuf
  · rw [history, hrun] at hx
    simp only [List.mem_cons, List.not_mem_nil, or_false] at hx
    rcases hx with rfl | rfl | rfl
    · cases ho
    · cases ho
    · simp only [Option.some.injEq, Output.pair.injEq] at ho
      rw [field, ← ho.1] at hp
      exact absurd hp (by decide)
  · rw [after, hrun] at hbuf
    cases hbuf

/-! ## The buffer in every reachable state -/

/-- Str1 or Str2, by type and name as `on_var` tells them apart. -/
def IsHalf (typeId : UInt8) (name8 : Bytes) : Prop :=
  typeId = 0x04 ∧ (name8.take 2 = [0xAA, 0x00] ∨ name8.take 2 = [0xAA, 0x01])

theorem delivery_of_not_half {typeId : UInt8} {name8 : Bytes} (h : ¬ IsHalf typeId name8) (data : Bytes) :
    delivery (.onVar typeId name8 data) = none := by
  unfold delivery strSlot
  cases name8 with
  | nil => rfl
  | cons n0 tl =>
    cases tl with
    | nil => rfl
    | cons slot rest =>
      by_cases ht : typeId = 0x04 ∧ n0 = 0xAA
      · obtain ⟨rfl, rfl⟩ := ht
        have h0 : slot ≠ strSlotText := by rintro rfl; exact h ⟨rfl, .inl rfl⟩
        have h1 : slot ≠ strSlotMath := by rintro rfl; exact h ⟨rfl, .inr rfl⟩
        simp [h0, h1]
      · simp [ht]

/-- A variable that is no half leaves the buffer alone. -/
theorem step_not_half {s : State} {e : Event} {typeId : UInt8} {name8 data : Bytes} (hop : e.op = .onVar typeId name8 data)
    (h : ¬ IsHalf typeId name8) : (step s e).1.pair = s.pair := by
  have hnone : delivery e.op = none := hop ▸ delivery_of_not_half h data
  have heffect := effect_of s e
  generalize step s e = r at heffect ⊢
  cases heffect with
  | waits m text hd => rw [hnone] at hd; cases hd
  | completes m text hd => rw [hnone] at hd; cases hd
  | flushes ho => rw [hop] at ho; cases ho
  | keeps => rfl
  | relays => exact (relayRaw_pair _ _ _).2

/-- A pair frame whose send raises takes the buffer and the socket with it. -/
theorem step_pair_failed {s : State} {e : Event} {promptText mathText : Str}
    (ho : (step s e).2 = some (.pair promptText mathText .failed)) : (step s e).1 = ⟨false, .empty⟩ := by
  obtain ⟨pair, he, -, -, hfate⟩ := step_frame ho
  rw [he] at ho ⊢
  simp only [flushPair, Option.some.injEq, Output.pair.injEq] at ho ⊢
  rw [emitPair_failed ho.2.2]

theorem relayRaw_failed {s : State} {send : Send} {payload : Bytes}
    (ho : (relayRaw s send payload).2 = some (.raw .failed)) : (relayRaw s send payload).1 = ⟨false, s.pair⟩ := by
  obtain ⟨sock, pair⟩ := s
  cases sock <;> cases send <;> simp_all [relayRaw, trySend]

/-- A raw relay whose send raises takes the socket only. -/
theorem step_raw_failed {s : State} {e : Event} (ho : (step s e).2 = some (.raw .failed)) :
    (step s e).1 = ⟨false, s.pair⟩ := by
  have heffect := effect_of s e
  generalize step s e = r at heffect ho ⊢
  cases heffect with
  | relays => exact relayRaw_failed ho
  | _ => cases ho

/-- In every state reached by any calls, with the socket up or down at each
and each send accepted or raising: the arrival time is unset exactly when
nothing is buffered, at most one half is, no half goes out twice, every frame
carries the latest halves since the previous one, other variables leave the
buffer alone, and a failed pair frame empties it and drops the socket, while a
failed raw relay drops the socket only. -/
theorem pair_buffer_runs (es : List Event) :
    let h := history es
    ((after es).pair.firstArrivalMs = none ↔ (after es).pair.prompt = none ∧ (after es).pair.math = none) ∧
    ((after es).pair.prompt = none ∨ (after es).pair.math = none) ∧
    (∀ m k k' i, Carries h m k i → Carries h m k' i → k = k') ∧
    (∀ k e promptText mathText fate, h[k]? = some (e, some (.pair promptText mathText fate)) → ∀ m,
      (∃ i, Carries h m k i) ∨
      (field promptText mathText m = [] ∧ ∀ j x, j ≤ k → h[j]? = some x → sets m x ≠ none →
        ∃ l y, j ≤ l ∧ l < k ∧ h[l]? = some y ∧ flushes y = true)) ∧
    ∀ k e o, h[k]? = some (e, o) →
      let before := after (es.take k)
      let next := after (es.take (k + 1))
      (∀ typeId name8 data, e.op = .onVar typeId name8 data → ¬ IsHalf typeId name8 → next.pair = before.pair) ∧
      (∀ promptText mathText, o = some (.pair promptText mathText .failed) → next = ⟨false, .empty⟩) ∧
      (o = some (.raw .failed) → next = ⟨false, before.pair⟩) := by
  intro h
  have hinv := run_inv true es
  refine ⟨hinv.buffered.stamp, hinv.buffered.single, fun m k k' i hc hc' => carries_unique hc hc',
    fun k e p q f hk m => frame_fields hk m, ?_⟩
  intro k e o hk
  obtain ⟨s, -, ho, hbefore, hnext⟩ := entry_before hk
  intro before next
  rw [show before = s from hbefore, show next = (step s e).1 from hnext]
  exact ⟨fun typeId name8 data hop hn => step_not_half hop hn, fun p q hf => step_pair_failed (ho ▸ hf),
    fun hf => step_raw_failed (ho ▸ hf)⟩

/-- A raw relay that raises while a half waits leaves the half buffered: Str1
`A`, then the real `X` over a socket that fails. -/
theorem raw_failure_keeps_half :
    ¬ ∀ (es : List Event) (k : Nat) (e : Event) (o : Output), (history es)[k]? = some (e, some o) → o.fate = .failed →
      after (es.take (k + 1)) = ⟨false, .empty⟩ := by
  intro h
  have hrun : ∀ l, l = [oneToken 0 0x41 0, ⟨.onVar 0x00 (0x58 :: List.replicate 7 0) (List.replicate 9 0), 20, .osError, true⟩] →
      run step ⟨true, .empty⟩ l = (⟨false, ⟨some (str "A"), none, some 0⟩⟩,
        l.zip [none, some (.raw .failed)]) := by
    rintro _ rfl
    decide
  have := h [oneToken 0 0x41 0, ⟨.onVar 0x00 (0x58 :: List.replicate 7 0) (List.replicate 9 0), 20, .osError, true⟩] 1 _
    (.raw .failed) (by rw [history, hrun _ rfl]; rfl) rfl
  rw [List.take_of_length_le (by decide), after, hrun _ rfl] at this
  cases this

end CalcBridge.Bridge
