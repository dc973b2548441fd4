import CalcBridge.Deck.Loop
/-!
# What a deck's waiting is for

Whatever is on its way can still arrive: nothing is stuck for good. So a deck
that asks while it is not at rest may get the old answer for its new question.
-/
open LinkLib LinkLib.Text LinkLib.Runs CalcBridge.Bridge CalcBridge.Calc CalcBridge.Relay

namespace CalcBridge.Deck

/-- Where a question is, that another may have been asked behind. -/
inductive Loop.Place (loads : Str → Option Json) (repr : Json → Str) (x : Ask) (l : Loop) : Prop where
  | sent (hx : l.sent[l.read]? = some x.frame) (hthreads : l.conn.threads.length = l.read) (hrest : Rest l.conn)
      (hpolled : l.polled = l.conn.replies.length) (hleft : l.round.left = [])
  | thread (pre : List Thread) (t : Thread) (hx : l.sent[pre.length]? = some x.frame) (hbusy : Busy l.conn pre t)
      (hframe : ∀ frame, t.stage = .answered frame → x.FrameTo loads repr frame) (hpolled : l.polled = l.conn.replies.length)
      (hleft : l.round.left = [])
  | reply (i : Nat) (frame : Bytes) (hreply : l.conn.replies[l.polled]? = some (i, frame)) (hframe : x.FrameTo loads repr frame)
      (hleft : l.round.left = [])
  | pushed (raw : List Entry) (hraw : x.Reply loads repr raw) (hleft : l.round.left ≠ [])
      (hpages : l.round.pages = layoutRows raw 16 7 8)

structure Loop.OnWay (loads : Str → Option Json) (repr : Json → Str) (x : Ask) (l : Loop) : Prop where
  round : l.round.Inv
  count : l.count = 0
  place : l.Place loads repr x

/-- Some run from here, in which nothing is asked, ends with the answer to this question counted. -/
def Loop.Arrives (loads : Str → Option Json) (repr : Json → Str) (x : Ask) (l : Loop) : Prop :=
  ∃ more, let m := (run (Loop.step loads repr) l more).1
    m.latest = l.latest ∧ m.round.Inv ∧ m.count ≠ 0 ∧ ∃ raw, x.Reply loads repr raw ∧ m.round.pages = layoutRows raw 16 7 8

section Proofs
variable {loads : Str → Option Json} {repr : Json → Str} {x : Ask} {l : Loop}

theorem Loop.Arrives.of_next {e : Occurs} (h : (l.next loads repr e).Arrives loads repr x)
    (hlatest : (l.next loads repr e).latest = l.latest) : l.Arrives loads repr x := by
  obtain ⟨more, hsame, hrest⟩ := h
  exact ⟨e :: more, hsame.trans hlatest, hrest⟩

/-! ## The pushes -/

/-- A push that goes through leaves one less. -/
theorem next_tries_left {r : Round} (h : r.left ≠ []) : (r.next (.tries true true)).left.length + 1 = r.left.length := by
  rw [Round.next]
  split
  · exact absurd ‹_› h
  · rename_i p left hcons
    rw [hcons]
    rfl

theorem pushed_arrives (n : Nat) {l : Loop} (hround : l.round.Inv) (hn : l.round.left.length = n) (hleft : l.round.left ≠ [])
    {raw : List Entry} (hraw : x.Reply loads repr raw) (hpages : l.round.pages = layoutRows raw 16 7 8) :
    l.Arrives loads repr x := by
  induction n generalizing l with
  | zero => exact absurd (List.length_eq_zero_iff.1 hn) hleft
  | succ n ih =>
    have hlen := next_tries_left hleft
    have hround' := hround.tries true true
    have hpages' := (next_tries_pages l.round true true).trans hpages
    by_cases hdone : (l.round.next (.tries true true)).left = []
    · exact ⟨[.tries true true], rfl, hround', hround.counted hleft hdone, raw, hraw, hpages'⟩
    · have hn' : (l.round.next (.tries true true)).left.length = n := by omega
      exact .of_next (e := .tries true true) (ih hround' hn' hdone hpages') rfl

/-! ## From the relay to the bridge -/

theorem reply_arrives (hround : l.round.Inv) (hcount : l.count = 0) {i : Nat} {frame : Bytes}
    (hreply : l.conn.replies[l.polled]? = some (i, frame)) (hframe : x.FrameTo loads repr frame) (hleft : l.round.left = []) :
    l.Arrives loads repr x := by
  obtain ⟨raw, hraw, hparse⟩ := hframe
  have hnext : l.next loads repr .polls = _ := next_polls_reply hleft hreply hparse
  refine .of_next (e := .polls) ?_ (by rw [hnext])
  rw [hnext]
  exact pushed_arrives _ (hround.next (e := .begins raw) fun _ _ => hcount) rfl (next_begins_left hleft raw) hraw
    (by rw [next_begins hleft])

/-! ## The thread -/

theorem answered_arrives (hround : l.round.Inv) (hcount : l.count = 0) {pre : List Thread} {t : Thread}
    (hbusy : Busy l.conn pre t)
    {frame : Bytes} (hstage : t.stage = .answered frame) (hframe : x.FrameTo loads repr frame)
    (hpolled : l.polled = l.conn.replies.length) (hleft : l.round.left = []) : l.Arrives loads repr x := by
  have ht := hbusy.get
  refine .of_next (e := .sends pre.length true) ?_ rfl
  refine reply_arrives (i := pre.length) hround hcount ?_ hframe hleft
  rw [Loop.next, Loop.relay, next_send ht hstage, hpolled]
  exact List.getElem?_concat_length

theorem calling_arrives (hround : l.round.Inv) (hcount : l.count = 0) {raw : List Entry} (hraw : x.Reply loads repr raw)
    {pre : List Thread} {t : Thread} (hx : l.sent[pre.length]? = some x.frame) (hbusy : Busy l.conn pre t)
    (hstage : t.stage = .calling)
    (hpolled : l.polled = l.conn.replies.length) (hleft : l.round.left = []) : l.Arrives loads repr x := by
  have ht := hbusy.get
  obtain ⟨frame, more, hworker⟩ := List.exists_cons_of_ne_nil (worker_ne_nil hraw t.text)
  have hnext : l.next loads repr (.answers pre.length) = { l with conn := l.conn.move pre.length t (.answered frame) } := by
    rw [Loop.next, hx, Ask.frame]
    dsimp only
    rw [Loop.relay, Conn.next, ht]
    dsimp only
    rw [if_pos hstage, hworker]
  refine .of_next (e := .answers pre.length) ?_ (by rw [hnext])
  rw [hnext]
  exact answered_arrives hround hcount (hbusy.moved fun _ h => by cases h) rfl
    (worker_frame (hworker ▸ List.mem_cons_self)) hpolled hleft

/-- The threads of other connections return their permits. -/
theorem waiting_arrives (n : Nat) {l : Loop} (hround : l.round.Inv) (hcount : l.count = 0) {raw : List Entry}
    (hraw : x.Reply loads repr raw) {pre : List Thread} {t : Thread} (hx : l.sent[pre.length]? = some x.frame)
    (hbusy : Busy l.conn pre t) (hstage : t.stage = .waiting) (hn : l.conn.others = n)
    (hpolled : l.polled = l.conn.replies.length) (hleft : l.round.left = []) : l.Arrives loads repr x := by
  induction n generalizing l with
  | succ n ih =>
    refine .of_next (e := .otherReleases) ?_ rfl
    refine ih hround hcount hx ⟨hbusy.threads, hbusy.ended, hbusy.busy⟩ ?_ hpolled hleft
    rw [Loop.next, Loop.relay, Conn.next]
    exact Nat.sub_eq_of_eq_add hn
  | zero =>
    have ht := hbusy.get
    have hinflight : l.conn.inflight = 0 := by
      have hnone : l.conn.threads.countP (·.stage = .calling) = 0 := by
        rw [List.countP_eq_zero, hbusy.threads]
        intro u hu
        rcases List.mem_append.1 hu with hu | hu
        · obtain ⟨sent, hsent⟩ := hbusy.ended u hu
          simp [hsent]
        · simp [List.mem_singleton.1 hu, hstage]
      rw [Conn.inflight, hnone, hn]
    have hnext : l.next loads repr (.acquires pre.length) = { l with conn := l.conn.move pre.length t .calling } := by
      rw [Loop.next, Loop.relay, Conn.next, ht]
      dsimp only
      rw [if_pos ⟨hstage, by omega⟩]
    refine .of_next (e := .acquires pre.length) ?_ (by rw [hnext])
    rw [hnext]
    exact calling_arrives hround hcount hraw hx (hbusy.moved fun _ h => by cases h) rfl hpolled hleft

/-- What is on its way can arrive. -/
theorem Loop.OnWay.arrives (h : l.OnWay loads repr x) {raw : List Entry} (hraw : x.Reply loads repr raw) :
    l.Arrives loads repr x := by
  have hthread {m : Loop} (hround : m.round.Inv) (hcount : m.count = 0) (pre : List Thread) (t : Thread)
      (hx : m.sent[pre.length]? = some x.frame) (hbusy : Busy m.conn pre t)
      (hframe : ∀ frame, t.stage = .answered frame → x.FrameTo loads repr frame) (hpolled : m.polled = m.conn.replies.length)
      (hleft : m.round.left = []) : m.Arrives loads repr x := by
    cases hstage : t.stage with
    | waiting => exact waiting_arrives _ hround hcount hraw hx hbusy hstage rfl hpolled hleft
    | calling => exact calling_arrives hround hcount hraw hx hbusy hstage hpolled hleft
    | answered frame => exact answered_arrives hround hcount hbusy hstage (hframe frame hstage) hpolled hleft
    | done sent => exact absurd hstage (hbusy.busy sent)
  cases h.place with
  | pushed raw hraw hleft hpages => exact pushed_arrives _ h.round rfl hleft hraw hpages
  | reply i frame hreply hframe hleft => exact reply_arrives h.round h.count hreply hframe hleft
  | thread pre t hx hbusy hframe hpolled hleft => exact hthread h.round h.count pre t hx hbusy hframe hpolled hleft
  | sent hx hthreads hrest hpolled hleft =>
    obtain ⟨text, -, hnext⟩ := next_reads loads repr hx
    refine .of_next (e := .reads) ?_ (by rw [hnext])
    rw [hnext]
    exact hthread h.round h.count l.conn.threads ⟨text, .waiting⟩ (hthreads ▸ hx) ⟨rfl, hrest, nofun⟩ nofun hpolled hleft

/-! ## What is on its way -/

theorem Loop.Inv.onWay {smooth : Prop} (h : l.Inv loads repr smooth) (hbusy : ¬l.Settled) (hlink : l.link = []) :
    ∃ x, l.latest = some x ∧ l.OnWay loads repr x := by
  cases h.phase with
  | settled _ hs _ => exact absurd hs hbusy
  | crossing _ _ _ _ _ hcrosses => exact absurd hlink hcrosses.link_ne
  | asking hc before x hlatest hasked hread hrest hpolled hleft hcount =>
    refine ⟨x, hlatest, h.round, hcount, .sent ?_ h.length_threads hrest hpolled hleft⟩
    rw [hc.sent, hasked, hread, List.getElem?_map, List.getElem?_concat_length]
    rfl
  | working hc before x pre t hlatest hasked hread hpre hthread hframe hpolled hleft hcount =>
    refine ⟨x, hlatest, h.round, hcount, .thread pre t ?_ hthread hframe hpolled hleft⟩
    rw [hc.sent, hasked, hpre, List.getElem?_map, List.getElem?_concat_length]
    rfl
  | replied _ x replies i frame hlatest hread hrest hreplies hpolled hframe hleft hcount =>
    refine ⟨x, hlatest, h.round, hcount, .reply i frame ?_ hframe hleft⟩
    rw [hreplies, hpolled, List.getElem?_concat_length]
  | pushing _ x raw hlatest hraw hread hrest hpolled hleft hpages hcount =>
    exact ⟨x, hlatest, h.round, hcount, .pushed raw hraw hleft hpages⟩

/-- Another question changes nothing of it. -/
theorem Loop.OnWay.asks (h : l.OnWay loads repr x) (y : Ask) : (l.next loads repr (.asks y)).OnWay loads repr x := by
  refine ⟨h.round.next (e := .asks) (fun _ he => nomatch he), by simp [Loop.count, Loop.next, Round.next], ?_⟩
  cases h.place with
  | sent hx hthreads hrest hpolled hleft => exact .sent hx hthreads hrest hpolled hleft
  | thread pre t hx hbusy hframe hpolled hleft => exact .thread pre t hx hbusy hframe hpolled hleft
  | reply i frame hreply hframe hleft => exact .reply i frame hreply hframe hleft
  | pushed raw hraw hleft hpages => exact .pushed raw hraw hleft hpages

/-- What can arrive can be shown. -/
theorem Loop.Arrives.shown {glyph : Bytes → Str} (hg : GlyphOk glyph) (h : l.Arrives loads repr x) {raw : List Entry}
    (hraw : x.Reply loads repr raw) :
    ∃ more, ∀ y, l.latest = some y → (run (Loop.step loads repr) l more).1.Displays glyph y raw := by
  obtain ⟨more, hlatest, hround, hcount, raw', hraw', hpages⟩ := h
  obtain rfl : raw = raw' := Except.ok.inj (hraw.symm.trans hraw')
  refine ⟨more, fun y hy => ⟨hlatest.trans hy, ?_⟩⟩
  rw [← hpages]
  exact ((hround.shown hg).resolve_left hcount).2

/-- In every state that a patient deck gets into, by questions that get to the
buffer and leave it whole, when `CHAT` is through and what it asked has not come:
the answer can still come up, and if the deck asks anything else now, the same
answer can come up for that. -/
theorem hasty_question {glyph : Bytes → Str} (hg : GlyphOk glyph) (loads : Str → Option Json) (repr : Json → Str) {s : Calc.State}
    (hN : s.nums .N = 0) {es : List Occurs}
    (hp : Holds (Loop.step loads repr) (fun l e => Patient l e ∧ Whole l e) (.start s) es) :
    let l := (run (Loop.step loads repr) (.start s) es).1
    ¬l.Settled → l.link = [] → ∃ x, l.latest = some x ∧ ∀ raw, x.Reply loads repr raw →
      (∃ more, (run (Loop.step loads repr) l more).1.Displays glyph x raw) ∧
      ∀ y, ∃ more, (run (Loop.step loads repr) (l.next loads repr (.asks y)) more).1.Displays glyph y raw := by
  intro l hbusy hlink
  obtain ⟨x, hlatest, hway⟩ := Loop.Inv.onWay (Loop.inv_run loads repr hN hp) hbusy hlink
  refine ⟨x, hlatest, fun raw hraw => ⟨?_, fun y => ?_⟩⟩
  · obtain ⟨more, hshown⟩ := (hway.arrives hraw).shown hg hraw
    exact ⟨more, hshown x hlatest⟩
  · obtain ⟨more, hshown⟩ := ((hway.asks y).arrives hraw).shown hg hraw
    exact ⟨more, hshown y rfl⟩

/-- `A` and, before its answer has come, `B`. -/
theorem hasty_question_two :
    let x : Ask := ⟨⟨[0x41], [], by decide, by decide⟩, .failed (str "no")⟩
    let y : Ask := ⟨⟨[0x42], [], by decide, by decide⟩, .failed (str "yes")⟩
    let crosses : Occurs := .crosses 0 .ok .raised
    ∃ more, (run (Loop.step (fun _ => none) fun _ => []) (.start fresh)
      (.asks x :: crosses :: crosses :: .asks y :: more)).1.Displays renderGlyph y [.text (str "err: no")] := by
  intro x y crosses
  have hg : GlyphOk renderGlyph := show ∀ e ∈ Tokens.asciiToTok, renderGlyph [e.2] = [e.1] by decide
  have hp : Holds (Loop.step (fun _ => none) fun _ => []) (fun l e => Patient l e ∧ Whole l e) (.start fresh)
      [.asks x, crosses, crosses] :=
    ⟨⟨fun _ _ => .inr ⟨rfl, rfl, rfl, nofun, rfl, rfl⟩, trivial⟩, ⟨nofun, trivial⟩, ⟨nofun, trivial⟩, trivial⟩
  have hunread : (run (Loop.step (fun _ => none) fun _ => []) (.start fresh) [.asks x, crosses, crosses]).1.read ≠
      (run (Loop.step (fun _ => none) fun _ => []) (.start fresh) [.asks x, crosses, crosses]).1.sent.length := by decide +kernel
  obtain ⟨z, hz, hboth⟩ := hasty_question hg (fun _ => none) (fun _ => []) (s := fresh) rfl hp (fun hs => hunread hs.read)
    (by decide +kernel)
  obtain rfl : x = z := Option.some.inj ((latest_run ..).symm.trans hz)
  obtain ⟨more, hshown⟩ := (hboth [.text (str "err: no")] rfl).2 y
  refine ⟨more, ?_⟩
  rw [run_cons, run_cons, run_cons, run_cons]
  rw [run_cons, run_cons, run_cons, run_nil] at hshown
  exact hshown

end Proofs

end CalcBridge.Deck
