import CalcBridge.Wire.Lines
import Mathlib.Data.List.Chain
/-!
# What two ends hear of each other

A dialogue is the list of the bits that are to go over the link, each with the
end that sends it. `Talk` relates both places, both lines and both call lists
at every moment of it. A change of direction is safe as long as the end that
is to speak next does not pull a line the other end still waits to see high.
-/
open LinkLib LinkLib.Runs

namespace CalcBridge.Wire

/-- The bits to be sent, in order, and by whom. -/
abbrev Dialogue := List (Side × Bool)

/-- The calls an end makes for a dialogue. -/
def jobs (w : Side) (d : Dialogue) : List Job := d.map fun x => if x.1 = w then .sendBit x.2 else .recvBit

/-- The bits an end is to hear. -/
def heard (w : Side) (d : Dialogue) : List Bool := (d.filter fun x => x.1 ≠ w).map Prod.snd

/-- An end between two calls. -/
def End.begin (js : List Job) (got : List Bool) : End := End.next ⟨.done, js, got, .idle⟩

/-- Both ends between two calls. -/
def fresh (got : Side → List Bool) (d : Dialogue) : Link := fun w => .begin (jobs w d) (got w)

/-- Both ends before their first call, with both lines released. -/
def begins (d : Dialogue) : Link := fresh (fun _ => []) d

/-- What is wanted of every state of the dialogue. -/
structure Good (d : Dialogue) (s : Link) : Prop where
  heard : ∀ w, (s w).got <+: heard w d
  moves : ¬ s.Stuck
  finished : s.Finished → (∀ w, (s w).got = Wire.heard w d) ∧ ∀ l, s.value l = true

/-! ## Places -/

/-- What an end pulls follows from where it is. -/
def At.pins : At → Pins
  | .awaitAck b | .release b => Pins.idle.pullLow (.ofBit b)
  | .awaitRelease b | .releaseAck b => Pins.idle.pullLow (.ofBit !b)
  | _ => .idle

/-- An end at a place, pulling what belongs to it. -/
def At.at (p : At) (js : List Job) (got : List Bool) : End := ⟨p, js, got, p.pins⟩

/-- Where the sender of bit `b` and its receiver are while it is on the way. -/
inductive Busy (b : Bool) : At → At → Prop where
  | offers : Busy b (.pull b) .readTip
  | offersHigh : Busy b (.pull b) (.readRing true)
  | offered : Busy b (.awaitAck b) .readTip
  | sampled (t : Bool) (h : t = false → b = false) : Busy b (.awaitAck b) (.readRing t)
  | noticed : Busy b (.awaitAck b) (.pullAck b)
  | acked : Busy b (.awaitAck b) (.awaitRelease b)
  | seen : Busy b (.release b) (.awaitRelease b)
  | released : Busy b (.awaitFree b) (.awaitRelease b)
  | freed : Busy b (.awaitFree b) (.releaseAck b)

/-- How far the receiver `w` of bit `b` has got with the rest of the dialogue
while the bit's sender waits to see its line high. -/
inductive Ahead (w : Side) (b : Bool) : Dialogue → At → List Job → Prop where
  | done : Ahead w b [] .done []
  | listens (y : Bool) (d : Dialogue) : Ahead w b ((w.other, y) :: d) .readTip (jobs w d)
  | listensHigh (y : Bool) (d : Dialogue) : Ahead w b ((w.other, y) :: d) (.readRing true) (jobs w d)
  | speaks (y : Bool) (d : Dialogue) : Ahead w b ((w, y) :: d) (.pull y) (jobs w d)
  | spoken (d : Dialogue) : Ahead w b ((w, b) :: d) (.awaitAck b) (jobs w d)

/-- The two ends while end `w`'s bit `b` is sent, with `post` after it. -/
inductive Bit (g : Side → List Bool) (w : Side) (b : Bool) (post : Dialogue) : End → End → Prop where
  | busy (p q : At) (h : Busy b p q) : Bit g w b post (p.at (jobs w post) (g w)) (q.at (jobs w.other post) (g w.other))
  | ahead (q : At) (js : List Job) (h : Ahead w.other b post q js) :
      Bit g w b post (At.at (.awaitFree b) (jobs w post) (g w)) (q.at js (g w.other ++ [b]))

/-- Every state of a dialogue: a bit is on the way, or everything is said. -/
inductive Talk (d : Dialogue) (s : Link) : Prop where
  | bit (pre : Dialogue) (w : Side) (b : Bool) (post : Dialogue) (hd : d = pre ++ (w, b) :: post)
      (h : Bit (fun v => heard v pre) w b post (s w) (s w.other))
  | done (h : ∀ w, s w = At.at .done [] (heard w d))

/-! ## One step -/

/-- A step of `e` with `o` at the other end. -/
def End.against (e o : End) : End := e.move fun l => !(e.pins.pulls l || o.pins.pulls l)

@[simp] theorem Side.other_other (w : Side) : w.other.other = w := by cases w <;> rfl

theorem Side.other_ne (w : Side) : w.other ≠ w := by cases w <;> decide

theorem Side.eq_other {v w : Side} (h : v ≠ w) : v = w.other := by
  revert h
  cases v <;> cases w <;> simp [Side.other]

theorem value_eq (s : Link) (w : Side) : s.value = fun l => !((s w).pins.pulls l || (s w.other).pins.pulls l) := by
  funext l
  cases w with
  | a => rfl
  | b => rw [Link.value, Bool.or_comm]; rfl

theorem move_self (s : Link) (w : Side) : (s.move w) w = (s w).against (s w.other) := by
  rw [Link.move, Function.update_self, value_eq s w, End.against]

theorem move_other (s : Link) (w : Side) : (s.move w) w.other = s w.other :=
  Function.update_of_ne w.other_ne _ _

/-- The sender's step while its bit is on the way. -/
theorem busy_sender {b : Bool} {p q : At} (h : Busy b p q) (js js' : List Job) (g g' : List Bool) :
    ∃ p', (p.at js g).against (q.at js' g') = p'.at js g ∧ Busy b p' q := by
  cases h with
  | offers => exact ⟨.awaitAck b, by cases b <;> rfl, .offered⟩
  | offersHigh => exact ⟨.awaitAck b, by cases b <;> rfl, .sampled true nofun⟩
  | offered => exact ⟨.awaitAck b, by cases b <;> rfl, .offered⟩
  | sampled t ht => exact ⟨.awaitAck b, by cases b <;> rfl, .sampled t ht⟩
  | noticed => exact ⟨.awaitAck b, by cases b <;> rfl, .noticed⟩
  | acked => exact ⟨.release b, by cases b <;> rfl, .seen⟩
  | seen => exact ⟨.awaitFree b, by cases b <;> rfl, .released⟩
  | released => exact ⟨.awaitFree b, by cases b <;> rfl, .released⟩
  | freed => exact ⟨.awaitFree b, by cases b <;> rfl, .freed⟩

/-- The receiver's step: it stays with the bit, or has heard it and goes on. -/
theorem busy_receiver {b : Bool} {p q : At} (h : Busy b p q) (js js' : List Job) (g g' : List Bool) :
    (∃ q', (q.at js' g').against (p.at js g) = q'.at js' g' ∧ Busy b p q') ∨
      (p = .awaitFree b ∧ (q.at js' g').against (p.at js g) = .begin js' (g' ++ [b])) := by
  cases h with
  | offers => exact .inl ⟨.readRing true, by cases b <;> rfl, .offersHigh⟩
  | offersHigh => exact .inl ⟨.readTip, by cases b <;> rfl, .offers⟩
  | offered =>
    cases b with
    | false => exact .inl ⟨.readRing false, rfl, .sampled false fun _ => rfl⟩
    | true => exact .inl ⟨.readRing true, rfl, .sampled true nofun⟩
  | sampled t ht =>
    cases t with
    | false =>
      obtain rfl := ht rfl
      exact .inl ⟨.pullAck false, rfl, .noticed⟩
    | true =>
      cases b with
      | false => exact .inl ⟨.readTip, rfl, .offered⟩
      | true => exact .inl ⟨.pullAck true, rfl, .noticed⟩
  | noticed => exact .inl ⟨.awaitRelease b, by cases b <;> rfl, .acked⟩
  | acked => exact .inl ⟨.awaitRelease b, by cases b <;> rfl, .acked⟩
  | seen => exact .inl ⟨.awaitRelease b, by cases b <;> rfl, .seen⟩
  | released => exact .inl ⟨.releaseAck b, by cases b <;> rfl, .freed⟩
  | freed => exact .inr ⟨rfl, by cases b <;> cases js' <;> rfl⟩

/-- An end that has heard bit `b` goes on with the rest of the dialogue. -/
theorem begin_ahead (v : Side) (b : Bool) (post : Dialogue) (g : List Bool) :
    ∃ q js, End.begin (jobs v post) g = q.at js g ∧ Ahead v b post q js := by
  cases post with
  | nil => exact ⟨.done, [], rfl, .done⟩
  | cons x d =>
    obtain ⟨u, y⟩ := x
    by_cases hu : u = v
    · subst hu
      refine ⟨.pull y, jobs u d, ?_, .speaks y d⟩
      rw [jobs, List.map_cons, if_pos rfl]
      rfl
    · obtain rfl := Side.eq_other hu
      refine ⟨.readTip, jobs v d, ?_, .listens y d⟩
      rw [jobs, List.map_cons, if_neg v.other_ne]
      rfl

/-- The sender sees its line high: the receiver does not pull it. -/
theorem ahead_sender {v : Side} {b : Bool} {post : Dialogue} {q : At} {js : List Job} (h : Ahead v b post q js)
    (js' : List Job) (g g' : List Bool) : (At.at (.awaitFree b) js' g).against (q.at js g') = .begin js' g := by
  cases h with
  | done => cases b <;> cases js' <;> rfl
  | listens => cases b <;> cases js' <;> rfl
  | listensHigh => cases b <;> cases js' <;> rfl
  | speaks y => cases b <;> cases js' <;> rfl
  | spoken => cases b <;> cases js' <;> rfl

/-- The receiver goes on, unless it would pull the line the sender waits for. -/
theorem ahead_receiver {v : Side} {b : Bool} {post : Dialogue} {q : At} {js : List Job} (h : Ahead v b post q js)
    (hclash : q ≠ .pull !b) (js' : List Job) (g g' : List Bool) :
    ∃ q', (q.at js g').against (At.at (.awaitFree b) js' g) = q'.at js g' ∧ Ahead v b post q' js := by
  cases h with
  | done => exact ⟨.done, rfl, .done⟩
  | listens y d => exact ⟨.readRing true, rfl, .listensHigh y d⟩
  | listensHigh y d => exact ⟨.readTip, rfl, .listens y d⟩
  | speaks y d =>
    obtain rfl : y = b := by
      by_contra hy
      exact hclash (by cases y <;> cases b <;> simp_all)
    exact ⟨.awaitAck y, by cases y <;> rfl, .spoken d⟩
  | spoken d => exact ⟨.awaitAck b, by cases b <;> rfl, .spoken d⟩

/-! ## Every step keeps the dialogue -/

theorem heard_append (w : Side) (d d' : Dialogue) : heard w (d ++ d') = heard w d ++ heard w d' := by
  simp [heard]

theorem heard_own (w : Side) (b : Bool) (pre : Dialogue) : heard w (pre ++ [(w, b)]) = heard w pre := by
  simp [heard]

theorem heard_other (w : Side) (b : Bool) (pre : Dialogue) :
    heard w.other (pre ++ [(w, b)]) = heard w.other pre ++ [b] := by
  simp [heard, (Side.other_ne w).symm]

theorem jobs_own (w : Side) (y : Bool) (d : Dialogue) : jobs w ((w, y) :: d) = .sendBit y :: jobs w d := by
  simp [jobs]

theorem jobs_other (w : Side) (y : Bool) (d : Dialogue) : jobs w ((w.other, y) :: d) = .recvBit :: jobs w d := by
  simp [jobs, Side.other_ne]

theorem begins_talk (d : Dialogue) : Talk d (begins d) := by
  cases d with
  | nil => exact .done fun w => rfl
  | cons x d =>
    obtain ⟨w, b⟩ := x
    refine .bit [] w b d rfl ?_
    have hs : begins ((w, b) :: d) w = At.at (.pull b) (jobs w d) [] := by
      rw [begins, fresh, jobs_own]
      rfl
    have hr : begins ((w, b) :: d) w.other = At.at .readTip (jobs w.other d) [] := by
      -- To the receiver the first bit comes from the other end.
      have := jobs_other w.other b d
      rw [Side.other_other] at this
      rw [begins, fresh, this]
      rfl
    rw [hs, hr]
    exact .busy _ _ .offers

/-- The sender has seen its line high. The next bit is the sender's or the receiver's. -/
theorem Talk.of_begin {d : Dialogue} {s : Link} {pre post : Dialogue} {w : Side} {b : Bool} {q : At} {js : List Job}
    (hd : d = pre ++ (w, b) :: post) (h : Ahead w.other b post q js) (hs : s w = .begin (jobs w post) (heard w pre))
    (hr : s w.other = q.at js (heard w.other pre ++ [b])) : Talk d s := by
  rw [← heard_own w b pre] at hs
  rw [← heard_other w b pre] at hr
  have hd' : d = (pre ++ [(w, b)]) ++ post := by rw [hd, List.append_assoc]; rfl
  have hlisten : ∀ y d', jobs w ((w.other.other, y) :: d') = .sendBit y :: jobs w d' := by
    intro y d'
    rw [Side.other_other, jobs_own]
  cases h with
  | done =>
    rw [List.append_nil] at hd'
    refine .done fun v => ?_
    rw [hd']
    by_cases hv : v = w
    · rw [hv]
      exact hs
    · rw [Side.eq_other hv]
      exact hr
  | listens y d' =>
    rw [hlisten] at hs
    rw [Side.other_other] at hd'
    refine .bit _ w y d' hd' ?_
    rw [hs, hr]
    exact .busy _ _ .offers
  | listensHigh y d' =>
    rw [hlisten] at hs
    rw [Side.other_other] at hd'
    refine .bit _ w y d' hd' ?_
    rw [hs, hr]
    exact .busy _ _ .offersHigh
  | speaks y d' =>
    rw [jobs_other] at hs
    refine .bit _ w.other y d' hd' ?_
    rw [Side.other_other, hs, hr]
    have : Bit (fun v => heard v (pre ++ [(w, b)])) w.other y d' _ _ := .busy _ _ .offers
    rwa [Side.other_other] at this
  | spoken d' =>
    rw [jobs_other] at hs
    refine .bit _ w.other b d' hd' ?_
    rw [Side.other_other, hs, hr]
    have : Bit (fun v => heard v (pre ++ [(w, b)])) w.other b d' _ _ := .busy _ _ .offered
    rwa [Side.other_other] at this

/-- The receiver's step, when it pulls no line that the sender waits for. -/
theorem Bit.receiver {g : Side → List Bool} {w : Side} {b : Bool} {post : Dialogue} {e o : End} (h : Bit g w b post e o)
    (hfree : ∀ l, o.place.pulling = some l → e.place.freeing ≠ some l) : Bit g w b post e (o.against e) := by
  cases h with
  | busy p q h =>
    obtain ⟨q', hmove, h'⟩ | ⟨rfl, hmove⟩ := busy_receiver h (jobs w post) (jobs w.other post) (g w) (g w.other)
    · rw [hmove]
      exact .busy p q' h'
    · -- The bit has been received, and the receiver goes on to the next one.
      obtain ⟨q', js, hbegin, h'⟩ := begin_ahead w.other b post (g w.other ++ [b])
      rw [hmove, hbegin]
      exact .ahead q' js h'
  | ahead q js h =>
    have hne : q ≠ .pull !b := by
      rintro rfl
      exact hfree (.ofBit !b) rfl rfl
    obtain ⟨q', hmove, h'⟩ := ahead_receiver h hne (jobs w post) (g w) (g w.other ++ [b])
    rw [hmove]
    exact .ahead q' js h'

/-- The sender's step. When it has seen its line high, the next bit is on the way. -/
theorem Talk.sender {d : Dialogue} {s : Link} {pre post : Dialogue} {w : Side} {b : Bool} (hd : d = pre ++ (w, b) :: post)
    (h : Bit (fun v => heard v pre) w b post (s w) (s w.other)) : Talk d (s.move w) := by
  have hself := move_self s w
  have hother := move_other s w
  generalize s w = e at h hself
  generalize s w.other = o at h hself hother
  cases h with
  | busy p q h =>
    obtain ⟨p', hmove, h'⟩ := busy_sender h (jobs w post) (jobs w.other post) (heard w pre) (heard w.other pre)
    refine .bit pre w b post hd ?_
    rw [hself, hother, hmove]
    exact .busy p' q h'
  | ahead q js h =>
    rw [ahead_sender h] at hself
    exact .of_begin hd h hself hother

/-- A step that pulls no line the other end waits for keeps the dialogue going. -/
theorem Talk.move {d : Dialogue} {s : Link} (h : Talk d s) {v : Side} (hclash : ¬ s.Clashes v) : Talk d (s.move v) := by
  cases h with
  | done h =>
    refine .done fun w => ?_
    by_cases hv : w = v
    · subst hv
      rw [move_self, h, h]
      rfl
    · rw [Link.move, Function.update_of_ne hv, h]
  | bit pre w b post hd h =>
    by_cases hv : v = w
    · subst hv
      exact .sender hd h
    · obtain rfl := Side.eq_other hv
      have hself := move_self s w.other
      have hother := move_other s w.other
      rw [Side.other_other] at hself hother
      refine .bit pre w b post hd ?_
      rw [hself, hother]
      apply h.receiver
      intro l hpull hfree
      exact hclash ⟨l, hpull, by rw [Side.other_other]; exact hfree⟩

/-! ## What holds in every state of a dialogue -/

theorem heard_prefix (w : Side) {pre d : Dialogue} (h : pre <+: d) : heard w pre <+: heard w d := by
  obtain ⟨post, rfl⟩ := h
  rw [heard_append]
  exact List.prefix_append _ _

/-- While a bit is on the way one of the two ends can go on. -/
theorem Bit.not_waiting {g : Side → List Bool} {w : Side} {b : Bool} {post : Dialogue} {e o : End} (h : Bit g w b post e o)
    (value : Line → Bool) (hvalue : value = fun l => !(e.pins.pulls l || o.pins.pulls l)) :
    ¬ ((e.place = .done ∨ e.Waits value) ∧ (o.place = .done ∨ o.Waits value)) := by
  subst hvalue
  cases h with
  | busy p q h =>
    cases h with
    | sampled t ht =>
      obtain rfl | rfl : t = true ∨ t = false := by cases t <;> simp
      · cases b <;> simp [At.at, At.pins, End.Waits, Pins.pulls, Pins.pullLow, Pins.set, Pins.idle, Line.ofBit]
      · simp [At.at, End.Waits]
    | _ => cases b <;> simp [At.at, At.pins, End.Waits, Pins.pulls, Pins.pullLow, Pins.set, Pins.idle, Line.ofBit]
  | ahead q js h =>
    cases h <;> cases b <;> simp [At.at, At.pins, End.Waits, Pins.pulls, Pins.pullLow, Pins.set, Pins.idle, Line.ofBit]

theorem Bit.sender_place {g : Side → List Bool} {w : Side} {b : Bool} {post : Dialogue} {e o : End}
    (h : Bit g w b post e o) :
    e.place ≠ .done := by
  cases h with
  | busy p q h => cases h <;> nofun
  | ahead q js h => nofun

theorem Talk.good {d : Dialogue} {s : Link} (h : Talk d s) : Good d s := by
  cases h with
  | done h =>
    have hfin : s.Finished := fun w => by rw [h]; rfl
    refine ⟨fun w => by rw [h]; exact List.prefix_refl _, fun hstuck => hstuck.1 hfin, fun _ => ⟨fun w => by rw [h]; rfl, ?_⟩⟩
    intro l
    rw [Link.value, h, h]
    cases l <;> rfl
  | bit pre w b post hd h =>
    refine ⟨fun v => ?_, fun hstuck => ?_, fun hfin => absurd (hfin w) h.sender_place⟩
    · have hpre : pre <+: d := ⟨_, hd.symm⟩
      have hpre' : pre ++ [(w, b)] <+: d := ⟨post, by rw [hd, List.append_assoc]; rfl⟩
      generalize hs : s w = e at h
      generalize hr : s w.other = o at h
      by_cases hv : v = w
      · rw [hv, hs]
        cases h with
        | busy => exact heard_prefix w hpre
        | ahead => exact heard_prefix w hpre
      · rw [Side.eq_other hv, hr]
        cases h with
        | busy => exact heard_prefix w.other hpre
        | ahead =>
          have := heard_prefix w.other hpre'
          rwa [heard_other] at this
    · exact h.not_waiting s.value (value_eq s w) ⟨hstuck.2 w, hstuck.2 w.other⟩

theorem busy_no_clash {b : Bool} {p q : At} (h : Busy b p q) (l : Line) :
    (p.pulling = some l → q.freeing ≠ some l) ∧ (q.pulling = some l → p.freeing ≠ some l) := by
  cases h <;> simp [At.pulling, At.freeing]

/-- One end waits to see the line high that the other pulls while it waits for
an ack. -/
theorem locked_stuck {s : Link} {w : Side} {b : Bool} {js js' : List Job} {g g' : List Bool}
    (hs : s w = At.at (.awaitFree b) js g) (hr : s w.other = At.at (.awaitAck !b) js' g') : s.Stuck := by
  refine ⟨fun hfin => ?_, fun v => .inr ?_⟩
  · have := hfin w
    rw [hs] at this
    cases this
  · rw [value_eq s w, hs, hr]
    by_cases hv : v = w
    · rw [hv, hs]
      cases b <;> rfl
    · rw [Side.eq_other hv, hr]
      cases b <;> rfl

/-- The sender pulls no line that the receiver waits for. -/
theorem Bit.no_clash {g : Side → List Bool} {w : Side} {b : Bool} {post : Dialogue} {e o : End}
    (h : Bit g w b post e o) {l : Line} (hpull : e.place.pulling = some l) : o.place.freeing ≠ some l := by
  cases h with
  | busy p q h => exact (busy_no_clash h l).1 hpull
  | ahead => cases hpull

/-- When the receiver pulls a line that the sender waits for, it is sending another bit. -/
theorem Bit.clash {g : Side → List Bool} {w : Side} {b : Bool} {post : Dialogue} {e o : End}
    (h : Bit g w b post e o) {l : Line} (hpull : o.place.pulling = some l) (hfree : e.place.freeing = some l) :
    (∃ d', post = (w.other, !b) :: d') ∧ e = At.at (.awaitFree b) (jobs w post) (g w) ∧
      ∃ js g', o.against e = At.at (.awaitAck !b) js g' := by
  cases h with
  | busy p q h => exact absurd hfree ((busy_no_clash h l).2 hpull)
  | ahead q js h =>
    cases h with
    | speaks y d' =>
      obtain rfl : y = !b := by
        rw [← hfree] at hpull
        revert hpull
        cases y <;> cases b <;> simp [At.at, At.pulling, At.freeing, Line.ofBit]
      exact ⟨⟨d', rfl⟩, rfl, _, _, rfl⟩
    | done => cases hpull
    | listens => cases hpull
    | listensHigh => cases hpull
    | spoken => cases hpull

/-- A clash comes where the direction changes between two different bits, and
after it both ends wait for good. -/
theorem Talk.clash {d : Dialogue} {s : Link} (h : Talk d s) {v : Side} (hclash : s.Clashes v) :
    (∃ pre b post, d = pre ++ (v.other, b) :: (v, !b) :: post) ∧ (s.move v).Stuck := by
  obtain ⟨l, hpull, hfree⟩ := hclash
  cases h with
  | done h =>
    rw [h] at hpull
    cases hpull
  | bit pre w b post hd h =>
    by_cases hv : v = w
    · subst hv
      exact absurd hfree (h.no_clash hpull)
    · obtain rfl := Side.eq_other hv
      have hself := move_self s w.other
      have hother := move_other s w.other
      rw [Side.other_other] at hfree hself hother
      obtain ⟨⟨d', rfl⟩, hwaits, js, g', hpulled⟩ := h.clash hpull hfree
      rw [Side.other_other]
      exact ⟨⟨pre, b, d', hd⟩, locked_stuck (hother.trans hwaits) (hself.trans hpulled)⟩

/-! ## Whole runs -/

theorem Talk.run {d : Dialogue} {s : Link} (h : Talk d s) (es : List Side)
    (hes : Holds Link.step (fun s v => ¬ s.Clashes v) s es) : Talk d (run Link.step s es).1 :=
  run_inv (fun _ s => Talk d s) h (fun _ _ _ hclash h => h.move hclash) es hes

/-- Every state of a run is good exactly when no step of it clashes. -/
theorem Talk.good_run_iff {d : Dialogue} {s : Link} (h : Talk d s) (es : List Side) :
    (∀ k, Good d (Runs.run Link.step s (es.take k)).1) ↔ Holds Link.step (fun s v => ¬ s.Clashes v) s es := by
  constructor
  · intro hgood
    induction es generalizing s with
    | nil => trivial
    | cons v es ih =>
      have hclash : ¬ s.Clashes v := fun hc => (hgood 1).moves (h.clash hc).2
      exact ⟨hclash, ih (h.move hclash) fun k => hgood (k + 1)⟩
  · intro hes k
    exact (h.run _ (holds_take hes k)).good

/-! ## Which dialogues are safe -/

/-- Where the direction changes, the reply starts with the bit that was sent last. -/
def Compatible (d : Dialogue) : Prop := d.IsChain fun x y => x.1 = y.1 ∨ x.2 = y.2

/-- One bit, up to where its receiver has gone on and its sender has not looked. -/
def bitSteps (w : Side) : List Side := [w, w.other, w.other, w.other, w, w, w.other, w.other]

theorem run_bit (g : Side → List Bool) (w : Side) (b : Bool) (d : Dialogue) :
    (run Link.step (fresh g ((w, b) :: d)) (bitSteps w)).1 =
      Function.update (fresh (Function.update g w.other (g w.other ++ [b])) d) w
        (At.at (.awaitFree b) (jobs w d) (g w)) := by
  funext v
  cases v <;> cases w <;> cases b <;> rfl

/-- One bit, up to where both ends have gone on. -/
theorem run_bit_whole (g : Side → List Bool) (w : Side) (b : Bool) (d : Dialogue) :
    (run Link.step (fresh g ((w, b) :: d)) (bitSteps w ++ [w])).1 =
      fresh (Function.update g w.other (g w.other ++ [b])) d := by
  rw [run_append, run_bit]
  obtain ⟨q, js, hbegin, hahead⟩ := begin_ahead w.other b d (g w.other ++ [b])
  funext v
  by_cases hv : v = w
  · rw [hv, run_cons, run_nil]
    simp only [Link.step]
    rw [move_self, Function.update_self, Function.update_of_ne w.other_ne]
    rw [fresh, fresh, Function.update_self, Function.update_of_ne w.other_ne.symm, hbegin]
    exact ahead_sender hahead _ _ _
  · rw [Side.eq_other hv, run_cons, run_nil]
    simp only [Link.step]
    rw [move_other, Function.update_of_ne w.other_ne]

/-- The ends can say any part of a dialogue and stand before the rest. -/
theorem exists_run (pre d : Dialogue) (g : Side → List Bool) :
    ∃ es, (run Link.step (fresh g (pre ++ d)) es).1 = fresh (fun v => g v ++ heard v pre) d := by
  induction pre generalizing g with
  | nil => exact ⟨[], by simp [heard]⟩
  | cons x pre ih =>
    obtain ⟨w, b⟩ := x
    obtain ⟨es, hes⟩ := ih (Function.update g w.other (g w.other ++ [b]))
    refine ⟨bitSteps w ++ [w] ++ es, ?_⟩
    rw [run_append, List.cons_append, run_bit_whole, hes]
    congr 1
    funext v
    by_cases hv : v = w
    · rw [hv, Function.update_of_ne w.other_ne.symm]
      simp [heard]
    · rw [Side.eq_other hv, Function.update_self]
      simp [heard, w.other_ne.symm]

/-- Before a change of direction with two different bits the ends can clash. -/
theorem exists_clash {d pre post : Dialogue} {w : Side} {b : Bool} (hd : d = pre ++ (w, b) :: (w.other, !b) :: post) :
    ∃ es, (run Link.step (begins d) es).1.Clashes w.other := by
  obtain ⟨es, hes⟩ := exists_run pre ((w, b) :: (w.other, !b) :: post) fun _ => []
  refine ⟨es ++ bitSteps w, .ofBit !b, ?_, ?_⟩
  · rw [hd, run_append, begins, hes, run_bit, Function.update_of_ne w.other_ne, fresh, jobs_own]
    rfl
  · rw [hd, run_append, begins, hes, run_bit, Side.other_other, Function.update_self]
    rfl

/-- All states of all runs are good exactly when the dialogue is compatible. -/
theorem good_iff_compatible (d : Dialogue) : (∀ es, Good d (run Link.step (begins d) es).1) ↔ Compatible d := by
  constructor
  · intro hgood
    rw [Compatible, List.isChain_iff_forall_rel_of_append_cons_cons]
    rintro ⟨w, b⟩ ⟨u, y⟩ pre post hd
    by_contra hne
    rw [not_or] at hne
    obtain rfl : u = w.other := Side.eq_other fun h => hne.1 h.symm
    obtain rfl : y = !b := by
      have := hne.2
      revert this
      cases b <;> cases y <;> simp
    obtain ⟨es, hclash⟩ := exists_clash hd
    have hall := ((begins_talk d).good_run_iff (es ++ [w.other])).1 fun k => hgood _
    exact (holds_append.1 hall).2.1 hclash
  · intro hcompat es
    have hno : ∀ s v, Talk d s → ¬ s.Clashes v := by
      intro s v h hclash
      obtain ⟨⟨pre, b, post, hd⟩, -⟩ := h.clash hclash
      rcases (List.isChain_iff_forall_rel_of_append_cons_cons.1 hcompat) hd with h | h
      · exact Side.other_ne v h
      · simp at h
    have hes : Holds Link.step (fun s v => ¬ s.Clashes v) (begins d) es :=
      holds_of_inv (fun _ _ h hclash => h.move hclash) hno (begins_talk d) es
    exact ((begins_talk d).run es hes).good

/-- One end's bits in a row. -/
theorem compatible_sent (w : Side) (bits : List Bool) : Compatible (bits.map (w, ·)) := by
  rw [Compatible, List.isChain_map]
  exact (List.pairwise_of_forall fun _ _ => .inl rfl).isChain

/-! ## One direction -/

/-- `send_byte` over some bytes at one end, and as many `recv_byte` at the other. -/
def oneWay (w : Side) (bytes : List UInt8) : Link := fun v =>
  if v = w then .begin (bytes.flatMap sendByte) [] else .begin (List.replicate (8 * bytes.length) .recvBit) []

theorem jobs_sent (w : Side) (bits : List Bool) : jobs w (bits.map (w, ·)) = bits.map .sendBit := by
  simp [jobs, Function.comp_def]

theorem jobs_heard {v w : Side} (h : w ≠ v) (bits : List Bool) :
    jobs v (bits.map (w, ·)) = List.replicate bits.length .recvBit := by
  simp [jobs, Function.comp_def, h, List.map_const']

theorem heard_sent (w : Side) (bits : List Bool) : heard w (bits.map (w, ·)) = [] := by
  simp [heard, List.filter_map, Function.comp_def]

theorem heard_heard {v w : Side} (h : w ≠ v) (bits : List Bool) : heard v (bits.map (w, ·)) = bits := by
  simp [heard, Function.comp_def, List.filter_map, h]

theorem oneWay_eq (w : Side) (bytes : List UInt8) : oneWay w bytes = begins ((bytes.flatMap byteBits).map (w, ·)) := by
  funext v
  by_cases hv : v = w
  · subst hv
    rw [oneWay, if_pos rfl, begins, fresh, jobs_sent, List.map_flatMap]
    rfl
  · rw [oneWay, if_neg hv, begins, fresh, jobs_heard (Ne.symm hv), length_byteBits]

/-- One direction: in every state of every interleaving what was received is a
prefix of what is sent, some end can go on, and at the end the bytes have
arrived and both lines are high. -/
theorem bytes_cross (w : Side) (bytes : List UInt8) (es : List Side) :
    let s := (run Link.step (oneWay w bytes) es).1
    (s w.other).got <+: bytes.flatMap byteBits ∧ ¬ s.Stuck ∧
      (s.Finished → recvBytes bytes.length (s w.other).got = bytes ∧ ∀ l, s.value l = true) := by
  intro s
  have hgood := (good_iff_compatible _).2 (compatible_sent w (bytes.flatMap byteBits)) es
  rw [← oneWay_eq] at hgood
  have hheard := heard_heard w.other_ne.symm (bytes.flatMap byteBits)
  refine ⟨?_, hgood.moves, fun hfin => ?_⟩
  · have := hgood.heard w.other
    rwa [hheard] at this
  · obtain ⟨hgot, hhigh⟩ := hgood.finished hfin
    refine ⟨?_, hhigh⟩
    rw [hgot, hheard, recvBytes_flatMap]

/-- The ends can get there. -/
theorem oneWay_finishes (w : Side) (bytes : List UInt8) : ∃ es, (run Link.step (oneWay w bytes) es).1.Finished := by
  obtain ⟨es, hes⟩ := exists_run ((bytes.flatMap byteBits).map (w, ·)) [] fun _ => []
  rw [List.append_nil] at hes
  refine ⟨es, fun v => ?_⟩
  rw [oneWay_eq, begins, hes]
  rfl

/-! ## A change of direction -/

/-- End `a` sends `xs` and receives as many bits as `ys` has; end `b` receives and then sends. -/
def turnaround (xs ys : List Bool) : Link
  | .a => .begin (xs.map .sendBit ++ List.replicate ys.length .recvBit) []
  | .b => .begin (List.replicate xs.length .recvBit ++ ys.map .sendBit) []

/-- What is wanted of every state: both sequences are on their way, some end can
go on, and at the end both have arrived. -/
structure Received (xs ys : List Bool) (s : Link) : Prop where
  there : (s .b).got <+: xs
  back : (s .a).got <+: ys
  moves : ¬ s.Stuck
  finished : s.Finished → (s .b).got = xs ∧ (s .a).got = ys ∧ ∀ l, s.value l = true

/-- The dialogue of a change of direction. -/
def thereAndBack (xs ys : List Bool) : Dialogue := xs.map (Side.a, ·) ++ ys.map (Side.b, ·)

theorem turnaround_eq (xs ys : List Bool) : turnaround xs ys = begins (thereAndBack xs ys) := by
  funext v
  have hjobs : ∀ v, jobs v (thereAndBack xs ys) = jobs v (xs.map (Side.a, ·)) ++ jobs v (ys.map (Side.b, ·)) :=
    fun v => List.map_append
  rw [begins, fresh, hjobs]
  cases v with
  | a => rw [jobs_sent, jobs_heard (by decide)]; rfl
  | b => rw [jobs_sent, jobs_heard (by decide)]; rfl

theorem received_iff_good (xs ys : List Bool) (s : Link) : Received xs ys s ↔ Good (thereAndBack xs ys) s := by
  have ha : heard .a (thereAndBack xs ys) = ys := by
    rw [thereAndBack, heard_append, heard_sent, heard_heard (by decide), List.nil_append]
  have hb : heard .b (thereAndBack xs ys) = xs := by
    rw [thereAndBack, heard_append, heard_sent, heard_heard (by decide), List.append_nil]
  constructor
  · intro h
    refine ⟨fun w => ?_, h.moves, fun hfin => ⟨fun w => ?_, (h.finished hfin).2.2⟩⟩
    · cases w with
      | a => rw [ha]; exact h.back
      | b => rw [hb]; exact h.there
    · cases w with
      | a => rw [ha]; exact (h.finished hfin).2.1
      | b => rw [hb]; exact (h.finished hfin).1
  · intro h
    have hback := h.heard .a
    have hthere := h.heard .b
    rw [ha] at hback
    rw [hb] at hthere
    refine ⟨hthere, hback, h.moves, fun hfin => ?_⟩
    obtain ⟨hgot, hhigh⟩ := h.finished hfin
    exact ⟨(hgot .b).trans hb, (hgot .a).trans ha, hhigh⟩

theorem compatible_turnaround (xs ys : List Bool) (x y : Bool) :
    Compatible (thereAndBack (xs ++ [x]) (y :: ys)) ↔ x = y := by
  rw [Compatible, thereAndBack, List.isChain_append]
  constructor
  · rintro ⟨-, -, h⟩
    have := h (.a, x) (by simp) (.b, y) (by simp)
    simpa using this
  · rintro rfl
    refine ⟨compatible_sent .a _, compatible_sent .b _, ?_⟩
    simp

/-- For two non-empty sequences: every state of every run is as wanted exactly
when the reply starts with the bit that was sent last; and every state of one
run is, exactly when no end of it pulls a line the other still waits to see high. -/
theorem turnaround_iff (xs ys : List Bool) (x y : Bool) :
    ((∀ es, Received (xs ++ [x]) (y :: ys) (run Link.step (turnaround (xs ++ [x]) (y :: ys)) es).1) ↔ x = y) ∧
      ∀ es, (∀ k, Received (xs ++ [x]) (y :: ys) (run Link.step (turnaround (xs ++ [x]) (y :: ys)) (es.take k)).1) ↔
        Holds Link.step (fun s w => ¬ s.Clashes w) (turnaround (xs ++ [x]) (y :: ys)) es := by
  have hs : turnaround (xs ++ [x]) (y :: ys) = begins (thereAndBack (xs ++ [x]) (y :: ys)) := turnaround_eq _ _
  simp only [received_iff_good, hs]
  rw [good_iff_compatible, compatible_turnaround]
  exact ⟨Iff.rfl, fun es => (begins_talk _).good_run_iff es⟩

/-- A 0, and the reply starts with a 1: `b` pulls `ring` again while `a` waits to
see it high, and whatever follows neither end moves on. -/
theorem turnaround_locks :
    let s := (run Link.step (turnaround [false] [true]) (bitSteps .a ++ [.b])).1
    s.Stuck ∧ ∀ es, (run Link.step s es).1.Stuck := by
  intro s
  have hstuck : s.Stuck := by
    refine ⟨fun hfin => ?_, fun w => ?_⟩
    · cases hfin .a
    · cases w with
      | a => exact .inr rfl
      | b => exact .inr rfl
  exact ⟨hstuck, hstuck.run⟩

end CalcBridge.Wire
