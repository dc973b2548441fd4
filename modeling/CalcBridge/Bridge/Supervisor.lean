import CalcBridge.Bridge.PairRuns
import Mathlib.Data.List.Pairwise
/-!
# The pair timeout under the supervisor (`src/bridge.py`, `run`)

One pass of `run()` is the traffic of a `listen_loop` call, then the timeout
check, then the pushes. The check is the only place that looks at a half's
age, so a half that gets stale before the next check can still be paired:
`stale_half_paired` is such a run.
-/
open LinkLib LinkLib.Text LinkLib.Runs LinkLib.Latch LinkLib.Ticks CalcBridge.Tokens

namespace CalcBridge.Bridge

/-! ## The code -/

/-- A variable `listen_loop` hands to `on_var`, when, and how a send in it ends. -/
structure Delivery where
  typeId : UInt8
  name8 : Bytes
  data : Bytes
  now : Nat
  send : Send
  deriving DecidableEq, Repr

/-- One pass of the loop of `run()`. The pushes after the check take the time
until the next pass; `pollRaises` is an OSError out of `FrameReader.poll`. -/
structure Pass where
  listen : List Delivery
  checkAt : Nat
  checkSend : Send
  pollRaises : Bool
  deriving DecidableEq, Repr

/-- The call raised OSError. -/
def raises (o : Option Output) : Bool := o.any fun out => out.fate == .failed

/-- `listen_loop`: one `on_var` call a delivery, up to the first that raises. -/
def listen (s : State) : List Delivery → State × History × Bool
  | [] => (s, [], false)
  | d :: ds =>
    let e : Event := ⟨.onVar d.typeId d.name8 d.data, d.now, d.send, s.sock⟩
    let r := step s e
    if raises r.2 then (r.1, [(e, r.2)], true)
    else
      let t := listen r.1 ds
      (t.1, (e, r.2) :: t.2.1, t.2.2)

/-- One pass, from a connected socket. An OSError anywhere drops the socket
and goes on with the next pass. -/
def superviseOne (s : State) (p : Pass) : State × History :=
  let s : State := ⟨true, s.pair⟩
  let (s, h, raised) := listen s p.listen
  if raised then (⟨false, s.pair⟩, h)
  else
    let e : Event := ⟨.check, p.checkAt, p.checkSend, s.sock⟩
    let r := step s e
    (if raises r.2 || p.pollRaises then ⟨false, r.1.pair⟩ else r.1, h ++ [(e, r.2)])

/-- The loop of `run()`: the calls it makes and what each one shipped. -/
def supervise (s : State) : List Pass → State × History
  | [] => (s, [])
  | p :: ps =>
    let r := superviseOne s p
    let t := supervise r.1 ps
    (t.1, r.2 ++ t.2)

/-! ## Passes are runs -/

/-- A history is a run of its own calls, which ends with the buffer `pair`. -/
def RunsTo (s : State) (h : History) (pair : Pair) : Prop :=
  (run step s (h.map Prod.fst)).2 = h ∧ (run step s (h.map Prod.fst)).1.pair = pair

/-- A call only reads the buffer: the socket is the event's. -/
theorem run_pair_congr {s s' : State} (hp : s.pair = s'.pair) (es : List Event) :
    (run step s es).2 = (run step s' es).2 ∧ (run step s es).1.pair = (run step s' es).1.pair := by
  cases es with
  | nil => exact ⟨rfl, hp⟩
  | cons e es =>
    have hstep : step s e = step s' e := by simp only [step, hp]
    rw [run_cons, run_cons, hstep]
    exact ⟨rfl, rfl⟩

theorem RunsTo.congr {s : State} {h : History} {pair : Pair} (hr : RunsTo s h pair) (s' : State)
    (hp : s.pair = s'.pair) : RunsTo s' h pair := by
  obtain ⟨h1, h2⟩ := run_pair_congr hp (h.map Prod.fst)
  exact ⟨h1 ▸ hr.1, h2 ▸ hr.2⟩

theorem RunsTo.append {s s' : State} {h h' : History} {pair : Pair} (hr : RunsTo s h s'.pair) (hr' : RunsTo s' h' pair) :
    RunsTo s (h ++ h') pair := by
  obtain ⟨h1, h2⟩ := hr'.congr (run step s (h.map Prod.fst)).1 hr.2.symm
  refine ⟨?_, ?_⟩ <;> rw [List.map_append, run_append]
  · rw [hr.1, h1]
  · exact h2

theorem runsTo_one (s : State) (e : Event) : RunsTo s [(e, (step s e).2)] (step s e).1.pair := ⟨rfl, rfl⟩

theorem listen_runs (s : State) (ds : List Delivery) : RunsTo s (listen s ds).2.1 (listen s ds).1.pair := by
  induction ds generalizing s with
  | nil => exact ⟨rfl, rfl⟩
  | cons d ds ih =>
    simp only [listen]
    split
    · exact runsTo_one s _
    · exact (runsTo_one s _).append (ih _)

theorem superviseOne_runs (s : State) (p : Pass) : RunsTo s (superviseOne s p).2 (superviseOne s p).1.pair := by
  have hl := (listen_runs ⟨true, s.pair⟩ p.listen).congr s rfl
  unfold superviseOne
  dsimp only
  split
  · exact hl
  · have hc := hl.append (runsTo_one (listen ⟨true, s.pair⟩ p.listen).1
      ⟨.check, p.checkAt, p.checkSend, (listen ⟨true, s.pair⟩ p.listen).1.sock⟩)
    split
    · exact hc
    · exact hc

/-- What the supervisor does is a run of calls. -/
theorem supervise_runs (s : State) (ps : List Pass) : RunsTo s (supervise s ps).2 (supervise s ps).1.pair := by
  induction ps generalizing s with
  | nil => exact ⟨rfl, rfl⟩
  | cons p ps ih => exact (superviseOne_runs s p).append (ih _)

/-- The calls the supervisor makes from its start. -/
abbrev calls (ps : List Pass) : List Event := (supervise ⟨false, .empty⟩ ps).2.map Prod.fst

theorem history_calls (ps : List Pass) : history (calls ps) = (supervise ⟨false, .empty⟩ ps).2 :=
  ((supervise_runs ⟨false, .empty⟩ ps).congr ⟨true, .empty⟩ rfl).1

/-! ## Ages -/

/-- The clock does not run backwards over the calls. -/
def Clocked (es : List Event) : Prop := es.Pairwise fun a b => a.now ≤ b.now

instance (es : List Event) : Decidable (Clocked es) := inferInstanceAs (Decidable (es.Pairwise _))

/-- The condition on a call and the buffer it finds: a half that completes a
pair comes before the buffer is `PAIR_TIMEOUT_MS` old. -/
def Timely (s : State) (e : Event) : Prop :=
  ∀ m text first, delivery e.op = some (m, text) → s.pair.half (other m) ≠ none → s.pair.firstArrivalMs = some first →
    e.now < first + pairTimeoutMs

/-- Buffered halves came no earlier than the buffer's first arrival, and that
is the clock of some call. -/
structure Aged (h : History) (s : State) : Prop where
  inv : Inv h s
  since : ∀ m i text, Latest (sets m) flushes h i text →
    ∃ x first, h[i]? = some x ∧ s.pair.firstArrivalMs = some first ∧ first ≤ x.1.now
  first : ∀ first, s.pair.firstArrivalMs = some first → ∃ x ∈ h, x.1.now = first

theorem aged_nil (sock : Bool) : Aged [] ⟨sock, .empty⟩ where
  inv := inv_nil sock
  since m i text hl := by
    obtain ⟨x, hx, -⟩ := hl.sets
    simp at hx
  first first hf := by cases hf

theorem clocked_le {h : History} {x : Event × Option Output} (hc : Clocked ((h ++ [x]).map Prod.fst)) :
    Clocked (h.map Prod.fst) ∧ ∀ y ∈ h, y.1.now ≤ x.1.now := by
  rw [List.map_append, Clocked, List.pairwise_append] at hc
  exact ⟨hc.1, fun y hy => hc.2.2 y.1 (List.mem_map_of_mem hy) x.1 (by simp)⟩

theorem stamp_first {s : State} (m : Mode) (text : Str) (now : Nat) :
    ((s.pair.store m text).stamp now).firstArrivalMs = some (s.pair.firstArrivalMs.getD now) := by
  have hstore : (s.pair.store m text).firstArrivalMs = s.pair.firstArrivalMs := by cases m <;> rfl
  unfold Pair.stamp
  rw [hstore]
  cases hf : s.pair.firstArrivalMs with
  | none => rfl
  | some first => exact hstore.trans hf

/-- An empty buffer has no ages to keep. -/
theorem aged_empty {h : History} {s : State} (hinv : Inv h s) (hp : s.pair = .empty) : Aged h s := by
  refine ⟨hinv, ?_, ?_⟩
  · intro m i text hl
    have := hinv.held m
    rw [(held_iff _ i text).2 hl, hp] at this
    simp at this
  · intro first hf
    rw [hp] at hf; cases hf

/-- A call that neither delivers nor ships keeps them. -/
theorem aged_keep {h : History} {s s' : State} {x : Event × Option Output} (ha : Aged h s) (hinv : Inv (h ++ [x]) s')
    (hd : ∀ m, delivers m x.1.op = none) (ho : flushes x = false) (hp : s'.pair = s.pair) : Aged (h ++ [x]) s' := by
  refine ⟨hinv, ?_, ?_⟩
  · intro m i text hl
    obtain ⟨y, first, hy, hf, hle⟩ := ha.since m i text ((latest_snoc_keep ho (hd m) i text).1 hl)
    exact ⟨y, first, getElem?_snoc_old x hy, hp ▸ hf, hle⟩
  · intro first hf
    obtain ⟨y, hy, hn⟩ := ha.first first (hp ▸ hf)
    exact ⟨y, List.mem_append_left _ hy, hn⟩

/-- A half that waits: the first arrival is its own when nothing was buffered. -/
theorem aged_wait {h : History} {s : State} {e : Event} {m : Mode} {text : Str}
    (hle : ∀ y ∈ h, y.1.now ≤ e.now) (ha : Aged h s)
    (hinv : Inv (h ++ [(e, none)]) ⟨e.sock, (s.pair.store m text).stamp e.now⟩) :
    Aged (h ++ [(e, none)]) ⟨e.sock, (s.pair.store m text).stamp e.now⟩ := by
  have hfirst : s.pair.firstArrivalMs.getD e.now ≤ e.now := by
    cases hf : s.pair.firstArrivalMs with
    | none => exact Nat.le_refl _
    | some first =>
      obtain ⟨y, hy, hn⟩ := ha.first first hf
      exact hn ▸ hle y hy
  -- A half that was there keeps the older arrival time.
  refine ⟨hinv, ?_, ?_⟩
  · intro m' i text' hl
    cases hs : delivers m' e.op with
    | some t =>
      have hs' : sets m' (e, none) = some t := hs
      obtain ⟨rfl, rfl⟩ := (latest_snoc_set rfl hs' i text').1 hl
      exact ⟨(e, none), _, by simp, stamp_first m text e.now, hfirst⟩
    | none =>
      have hs' : sets m' (e, none) = none := hs
      have hl' := (latest_snoc_keep rfl hs' i text').1 hl
      obtain ⟨y, first, hy, hf, hyf⟩ := ha.since m' i text' hl'
      refine ⟨y, first, getElem?_snoc_old _ hy, ?_, hyf⟩
      rw [stamp_first m text e.now, hf]
      rfl
  · intro first hf
    rw [stamp_first m text e.now] at hf
    cases hold : s.pair.firstArrivalMs with
    | none =>
      rw [hold] at hf
      exact ⟨(e, none), by simp, Option.some.inj hf⟩
    | some first' =>
      rw [hold] at hf
      obtain ⟨y, hy, hn⟩ := ha.first first' hold
      exact ⟨y, List.mem_append_left _ hy, hn.trans (Option.some.inj hf)⟩

theorem step_aged {h : History} {s : State} {e : Event} (hc : Clocked ((h ++ [(e, (step s e).2)]).map Prod.fst))
    (ha : Aged h s) : Aged (h ++ [(e, (step s e).2)]) (step s e).1 := by
  have hinv := step_inv h s e ha.inv
  obtain ⟨-, hle⟩ := clocked_le hc
  have heffect := effect_of s e
  generalize step s e = r at heffect hinv ⊢
  cases heffect with
  | waits m text => exact aged_wait hle ha hinv
  | completes => exact aged_empty hinv rfl
  | flushes => exact aged_empty hinv rfl
  | keeps ho => exact aged_keep ha hinv (fun m => by rw [ho]; rfl) rfl rfl
  | relays hd payload =>
    obtain ⟨hraw, hpair⟩ := relayRaw_pair ⟨e.sock, s.pair⟩ e.send payload
    exact aged_keep ha hinv (fun m => delivers_none hd m) hraw hpair

theorem run_aged (es : List Event) (hc : Clocked es) : Aged (history es) (after es) := by
  refine run_keeps (fun h s => Clocked (h.map Prod.fst) → Aged h s) (fun _ => aged_nil true)
    (fun h s e hi hcl => step_aged hcl (hi (clocked_le hcl).1)) es ?_
  rwa [run_events]

/-! ## Frames of two halves -/

/-- Entry `k` of a clocked run, with the aged state it is taken from. -/
theorem aged_before {es : List Event} (hc : Clocked es) {k : Nat} {e : Event} {o : Option Output}
    (hk : (history es)[k]? = some (e, o)) : Aged ((history es).take k) (after (es.take k)) := by
  have htake := (run_entry hk).2.2.1
  have := run_aged (es.take k) (hc.sublist (List.take_sublist k es))
  rwa [history, ← htake] at this

/-- Earlier entries have earlier clocks. -/
theorem entry_clock_le {es : List Event} (hc : Clocked es) {j k : Nat} {x y : Event × Option Output} (hjk : j ≤ k)
    (hj : (history es)[j]? = some x) (hk : (history es)[k]? = some y) : x.1.now ≤ y.1.now := by
  have hx := (run_entry (e := x.1) (o := x.2) hj).1
  have hy := (run_entry (e := y.1) (o := y.2) hk).1
  rcases Nat.lt_or_eq_of_le hjk with hlt | rfl
  · obtain ⟨hjl, hx⟩ := List.getElem?_eq_some_iff.1 hx
    obtain ⟨hkl, hy⟩ := List.getElem?_eq_some_iff.1 hy
    rw [← hx, ← hy]
    exact List.pairwise_iff_getElem.1 hc j k hjl hkl hlt
  · rw [hx] at hy
    exact Nat.le_of_eq (congrArg Event.now (Option.some.inj hy))

/-- What entry `k` carries without delivering it was buffered before. -/
theorem carries_buffered {h : History} {s : State} {m : Mode} {k i : Nat} {e : Event} {o : Option Output}
    (hk : h[k]? = some (e, o)) (ha : Aged (h.take k) s) (hc : Carries h m k i) (hd : delivers m e.op = none) :
    s.pair.half m ≠ none ∧ i < k ∧
      ∃ x first, h[i]? = some x ∧ s.pair.firstArrivalMs = some first ∧ first ≤ x.1.now := by
  obtain ⟨e', p, q, f, hk', hoff⟩ := hc
  have hs : sets m (e, o) = none := hd
  have hl := (offers_iff_latest hk hs i _).1 hoff
  obtain ⟨x, first, hx, hf, hle⟩ := ha.since m i _ hl
  have hik : i < k := by have := lt_length_of_getElem? hx; simp at this; omega
  refine ⟨?_, hik, x, first, by rwa [List.getElem?_take_of_lt hik] at hx, hf, hle⟩
  rw [← ha.inv.held m, (held_iff _ i _).2 hl]
  simp

/-- A half that completes a pair in time and the half it finds are less than
`PAIR_TIMEOUT_MS` apart. -/
theorem completed_in_time {es : List Event} (hc : Clocked es) (hok : Holds step Timely ⟨true, .empty⟩ es) {k i j : Nat}
    {m : Mode} {e : Event} {o : Option Output} {text : Str} {x y : Event × Option Output}
    (hk : (history es)[k]? = some (e, o)) (hd : delivery e.op = some (m, text)) (hi : Carries (history es) m k i)
    (hj : Carries (history es) (other m) k j) (hx : (history es)[i]? = some x) (hy : (history es)[j]? = some y) :
    x.1.now < y.1.now + pairTimeoutMs ∧ y.1.now ≤ x.1.now := by
  obtain ⟨e', p, q, f, hk', hoff⟩ := hi
  have hset : sets m (e, o) = some text := by rw [sets, delivers_of hd, if_pos rfl]
  obtain ⟨rfl, -⟩ := (offers_iff_self hk hset i _).1 hoff
  rw [hk] at hx
  cases hx
  have hnone : delivers (other m) e.op = none := by
    rw [delivers_of hd, if_neg]
    cases m <;> simp [other]
  obtain ⟨hbuf, hjk, y', first, hy', hf, hle⟩ := carries_buffered hk (aged_before hc hk) hj hnone
  rw [hy] at hy'
  cases hy'
  have hin := holds_entry hok (run_entry hk).1 m text first hd hbuf hf
  exact ⟨by dsimp only; omega, entry_clock_le hc (Nat.le_of_lt hjk) hy hk⟩

/-- In a run whose completing halves come in time, the two halves of every
frame arrived less than `PAIR_TIMEOUT_MS` apart. -/
theorem combined_in_time {es : List Event} (hc : Clocked es) (hok : Holds step Timely ⟨true, .empty⟩ es) {k i j : Nat}
    {x y : Event × Option Output} (hi : Carries (history es) .text k i) (hj : Carries (history es) .math k j)
    (hx : (history es)[i]? = some x) (hy : (history es)[j]? = some y) :
    x.1.now < y.1.now + pairTimeoutMs ∧ y.1.now < x.1.now + pairTimeoutMs := by
  obtain ⟨e, p, q, f, hk, -⟩ := id hi
  have hpos : 0 < pairTimeoutMs := by decide
  cases hd : delivery e.op with
  | some mt =>
    obtain ⟨m, text⟩ := mt
    cases m with
    | text =>
      have := completed_in_time hc hok hk hd hi hj hx hy
      omega
    | math =>
      have := completed_in_time hc hok hk hd hj hi hy hx
      omega
  | none =>
    -- Nothing was delivered, so both halves were buffered at once.
    have ha := aged_before hc hk
    have ht := (carries_buffered hk ha hi (delivers_none hd .text)).1
    have hm := (carries_buffered hk ha hj (delivers_none hd .math)).1
    rcases ha.inv.buffered.single with h | h
    · exact absurd h ht
    · exact absurd h hm

/-- A check that finds a stale half, within the range of `ticks_diff`, ships it
alone and empties the buffer. -/
theorem stale_flushed_alone {es : List Event} (hc : Clocked es) {k first : Nat} {e : Event} {o : Option Output}
    (hk : (history es)[k]? = some (e, o)) (hop : e.op = .check)
    (hf : (after (es.take k)).pair.firstArrivalMs = some first) (hold : pairTimeoutMs ≤ e.now - first)
    (hrange : e.now - first < 2 ^ 29) :
    ∃ promptText mathText fate m text, o = some (.pair promptText mathText fate) ∧
      (after (es.take k)).pair.half m = some text ∧ field promptText mathText m = text ∧
      field promptText mathText (other m) = [] ∧ (∀ j, ¬ Carries (history es) (other m) k j) ∧
      (after (es.take (k + 1))).pair = .empty := by
  have ha := aged_before hc hk
  obtain ⟨-, ho, -, hnext⟩ := run_entry hk
  have hdiff : ticksDiff e.now first = ↑(e.now - first) :=
    ticksDiff_eq (by have : 0 < pairTimeoutMs := by decide
                     omega) hrange
  set s := after (es.take k) with hs
  -- One of the two halves is there, as the arrival time is set, and not both.
  obtain ⟨m, text, hm⟩ : ∃ m text, s.pair.half m = some text := by
    by_contra hno
    have hnone : ∀ m, s.pair.half m = none := by
      intro m
      cases h : s.pair.half m with
      | none => rfl
      | some text => exact absurd ⟨m, text, h⟩ hno
    have := ha.inv.buffered.stamp.2 ⟨hnone .text, hnone .math⟩
    rw [hf] at this
    cases this
  have hother : s.pair.half (other m) = none := other_none ha.inv.buffered m (by simp [hm])
  have hflush : step s e = flushPair ⟨e.sock, s.pair⟩ e.send := by
    have hage : ticksDiff e.now first ≥ pairTimeoutMs := by omega
    simp only [step, hop, maybeFlushStalePair, hf, hage, if_true, ite_self]
  refine ⟨s.pair.prompt.getD [], s.pair.math.getD [], (emitPair e.sock e.send (s.pair.prompt.getD []) (s.pair.math.getD [])).2,
    m, text, ?_, hm, ?_, ?_, ?_, ?_⟩
  · rw [ho, show (run step ⟨true, .empty⟩ (es.take k)).1 = s from rfl, hflush]
    rfl
  · rw [half_getD, hm]; rfl
  · rw [half_getD, hother]; rfl
  · intro j hj
    exact (carries_buffered hk ha hj (by rw [hop]; rfl)).1 hother
  · rw [after, hnext, show (run step ⟨true, .empty⟩ (es.take k)).1 = s from rfl, hflush]
    rfl

/-- In every timed run of the supervisor in which no half completes a stale
pair: the halves of every combined frame arrived less than `PAIR_TIMEOUT_MS`
apart, and a check that finds an older half ships it alone. -/
theorem pairs_within_timeout (ps : List Pass) (hclock : Clocked (calls ps))
    (hok : Holds step Timely ⟨true, .empty⟩ (calls ps)) :
    let h := (supervise ⟨false, .empty⟩ ps).2
    (∀ k i j x y, Carries h .text k i → Carries h .math k j → h[i]? = some x → h[j]? = some y →
      x.1.now < y.1.now + pairTimeoutMs ∧ y.1.now < x.1.now + pairTimeoutMs) ∧
    ∀ k e o first, h[k]? = some (e, o) → e.op = .check →
      let before := (after ((calls ps).take k)).pair
      before.firstArrivalMs = some first → pairTimeoutMs ≤ e.now - first → e.now - first < 2 ^ 29 →
      ∃ promptText mathText fate m text, o = some (.pair promptText mathText fate) ∧ before.half m = some text ∧
        field promptText mathText m = text ∧ field promptText mathText (other m) = [] ∧
        (∀ j, ¬ Carries h (other m) k j) ∧ (after ((calls ps).take (k + 1))).pair = .empty := by
  intro h
  have hh : h = history (calls ps) := (history_calls ps).symm
  rw [hh]
  exact ⟨fun k i j x y hi hj hx hy => combined_in_time hclock hok hi hj hx hy,
    fun k e o first hk hop hf hold hrange => stale_flushed_alone hclock hk hop hf hold hrange⟩

/-- A String variable of one token that arrives at `now`. -/
def oneTokenDelivery (slot tok : UInt8) (now : Nat) : Delivery :=
  ⟨0x04, [0xAA, slot] ++ List.replicate 6 0, [1, 0, tok], now, .ok⟩

/-- Str1 at 0 and Str2 at 40, then the check at 540. -/
theorem pairs_within_timeout_back_to_back :
    let ps : List Pass := [⟨[oneTokenDelivery 0 0x41 0, oneTokenDelivery 1 0x58 40], 540, .ok, false⟩]
    let h := (supervise ⟨false, .empty⟩ ps).2
    ∀ k i j x y, Carries h .text k i → Carries h .math k j → h[i]? = some x → h[j]? = some y →
      x.1.now < y.1.now + pairTimeoutMs ∧ y.1.now < x.1.now + pairTimeoutMs := by
  have hcalls : calls [⟨[oneTokenDelivery 0 0x41 0, oneTokenDelivery 1 0x58 40], 540, .ok, false⟩] =
      [oneToken 0 0x41 0, oneToken 1 0x58 40, ⟨.check, 540, .ok, true⟩] := by decide
  refine (pairs_within_timeout [⟨[oneTokenDelivery 0 0x41 0, oneTokenDelivery 1 0x58 40], 540, .ok, false⟩] ?_ ?_).1
  · rw [hcalls]; decide
  · rw [hcalls]
    refine ⟨?_, ?_, ?_, trivial⟩
    · intro m text first hd hbuf hf
      cases hf
    · intro m text first hd hbuf hf
      cases hf; decide
    · intro m text first hd hbuf hf
      cases hd

/-- A half that gets stale during a push is still paired: Str1 at 0, a check
at 500 that finds it fresh, a push of over five seconds, Str2 at 6000. -/
theorem stale_half_paired :
    ¬ ∀ ps : List Pass, Clocked (calls ps) →
      let h := (supervise ⟨false, .empty⟩ ps).2
      ∀ k i j x y, Carries h .text k i → Carries h .math k j → h[i]? = some x → h[j]? = some y →
        x.1.now < y.1.now + pairTimeoutMs ∧ y.1.now < x.1.now + pairTimeoutMs := by
  intro h
  have hrun : (supervise ⟨false, .empty⟩
      [⟨[oneTokenDelivery 0 0x41 0], 500, .ok, false⟩, ⟨[oneTokenDelivery 1 0x58 6000], 6500, .ok, false⟩]).2 =
      [(oneToken 0 0x41 0, none), (⟨.check, 500, .ok, true⟩, none),
        (oneToken 1 0x58 6000, some (.pair (str "A") (str "X") (.sent ((pairBody (str "A") (str "X")).map UInt8.ofNat)))),
        (⟨.check, 6500, .ok, true⟩, none)] := by decide
  have hgap := h [⟨[oneTokenDelivery 0 0x41 0], 500, .ok, false⟩, ⟨[oneTokenDelivery 1 0x58 6000], 6500, .ok, false⟩]
    (by rw [calls, hrun]; decide)
  rw [hrun] at hgap
  have hslot : ∀ m, Carries [(oneToken 0 0x41 0, none), (⟨.check, 500, .ok, true⟩, none),
      (oneToken 1 0x58 6000, some (.pair (str "A") (str "X") (.sent ((pairBody (str "A") (str "X")).map UInt8.ofNat)))),
      (⟨.check, 6500, .ok, true⟩, none)] m 2 (if m = .text then 0 else 2) := fun m =>
    ⟨_, _, _, _, rfl, (offered_iff rfl _ _).1 (by cases m <;> decide)⟩
  exact absurd (hgap 2 0 2 _ _ (hslot .text) (hslot .math) rfl rfl).2 (by decide)

end CalcBridge.Bridge
