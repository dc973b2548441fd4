import CalcBridge.Deck.Answers
import CalcBridge.Deck.Questions
import CalcBridge.Deck.Rounds
import CalcBridge.Relay.Workers
/-!
# Questions and their answers

The deck, the bridge and one connection to the relay together. A question
crosses the link in two halves, which meet in the bridge's buffer or leave it
apart. What is on the way behind it comes in order or, when the bridge connects
anew, not at all; a reply does not say what it answers. It is the deck's waiting
that brings the two together.
-/
open LinkLib LinkLib.Text LinkLib.Runs CalcBridge.Bridge CalcBridge.Calc CalcBridge.Relay CalcBridge.Transfer

namespace CalcBridge.Deck

/-! ## The loop -/

/-- A question, and what the call of the model for the whole of it will come to. -/
structure Ask where
  question : Question
  http : Http

/-- The rows of a page, as the deck's `sub(` takes them. -/
def rowsOf (page : Str) : List Str := (List.range 7).map fun r => (page.drop (16 * r)).take 16

/-- `_push_paginated_reply` is called with a frame. -/
def Round.pushes (r : Round) (frame : Bytes) : Round :=
  ⟨r.memory, if parsePagesFrame frame = [] then [] else pushPlan frame, (pagesToPush frame).map rowsOf⟩

/-- What the bridge sends for a whole question. -/
def Ask.frame (x : Ask) : Bytes × Http := (x.question.payload, x.http)

structure Loop where
  /-- The questions asked over this connection, with one that still crossed when it was made. -/
  asked : List Ask
  /-- The Strings that `CHAT` has yet to send. -/
  link : List Outgoing
  pair : Pair
  /-- What the bridge has sent over this connection, and what the call of the model for each will come to. -/
  sent : List (Bytes × Http)
  /-- How many of them the relay has read. -/
  read : Nat
  conn : Conn
  /-- How many of the replies the bridge has polled. -/
  polled : Nat
  round : Round
  /-- The last question of all. -/
  latest : Option Ask

/-- A deck that has stored 0 to N, and a bridge that has connected. -/
def Loop.start (s : Calc.State) : Loop := ⟨[], [], .empty, [], 0, .init, 0, .start s, none⟩

inductive Occurs where
  /-- The deck's `0->N`, and `CHAT`. One that still runs is broken off. -/
  | asks (x : Ask)
  /-- The next String crosses the link and `on_var` takes it. `http` is for a
  frame that is not the whole question. -/
  | crosses (now : Nat) (send : Send) (http : Http)
  /-- It does not get to `on_var`. `ends`: the calculator's ERR:LINK ends `CHAT`. -/
  | misses (ends : Bool)
  /-- The timeout check. -/
  | checks (now : Nat) (send : Send) (http : Http)
  /-- The relay reads the next frame. -/
  | reads
  /-- Thread `i` gets a permit, its answer, and sends. -/
  | acquires (i : Nat)
  | answers (i : Nat)
  | sends (i : Nat) (ok : Bool)
  | otherAcquires
  | otherReleases
  /-- The bridge polls the next reply, unless it still pushes the last one. -/
  | polls
  /-- The next `send_var`, as in `Happens.tries`. -/
  | tries (ok kept : Bool)
  /-- What is on the way is lost, and the threads of the old connection are those of another one. -/
  | reconnects

/-- The bridge connects anew. -/
def Loop.reconnect (l : Loop) : Loop :=
  { l with
    asked := if l.link = [] then [] else l.latest.toList, sent := [], read := 0, conn := ⟨[], l.conn.inflight, []⟩, polled := 0 }

/-- What the call of the model for this payload comes to. -/
def Loop.callFor (l : Loop) (payload : Bytes) (http : Http) : Http :=
  match l.latest with
  | some x => if payload = x.question.payload then x.http else http
  | none => http

/-- A call of `on_var` or of the check. An OSError drops the connection. -/
def Loop.bridge (l : Loop) (op : Op) (now : Nat) (send : Send) (http : Http) : Loop :=
  let r := Bridge.step ⟨true, l.pair⟩ ⟨op, now, send, true⟩
  let l : Loop := { l with pair := r.1.pair }
  match r.2.map Output.fate with
  | some (.sent payload) => { l with sent := l.sent ++ [(payload, l.callFor payload http)] }
  | some .failed => l.reconnect
  | _ => l

section Step
variable (loads : Str → Option Json) (repr : Json → Str)

def Loop.relay (l : Loop) (e : Relay.Event) : Loop := { l with conn := l.conn.next loads repr e }

def Loop.next (l : Loop) : Occurs → Loop
  | .asks x => { l with asked := l.asked ++ [x], link := x.question.chat, round := l.round.next .asks, latest := some x }
  | .crosses now send http =>
    match l.round.left, l.link with
    -- The bridge listens unless it pushes.
    | [], v :: link => Loop.bridge { l with link } (strOp v) now send http
    | _, _ => l
  | .misses ends => { l with link := if ends then [] else l.link.tail }
  | .checks now send http => if l.round.left = [] then l.bridge .check now send http else l
  | .reads =>
    match l.sent[l.read]? with
    | some (payload, _) =>
      if payload.length ≤ 1 <<< 20 then { l with read := l.read + 1, conn := l.conn.next loads repr (.frame payload) }
      -- The handler has returned.
      else l
    | none => l
  | .acquires i => l.relay loads repr (.acquire i)
  | .answers i =>
    match l.sent[i]? with
    | some (_, http) => l.relay loads repr (.answer i http)
    | none => l
  | .sends i ok => l.relay loads repr (.send i ok)
  | .otherAcquires => l.relay loads repr .otherAcquire
  | .otherReleases => l.relay loads repr .otherRelease
  | .polls =>
    match l.round.left, l.conn.replies[l.polled]? with
    -- `FrameReader` takes the length word off.
    | [], some (_, frame) => { l with polled := l.polled + 1, round := l.round.pushes (frame.drop 4) }
    | _, _ => l
  | .tries ok kept => { l with round := l.round.next (.tries ok kept) }
  | .reconnects => l.reconnect

def Loop.step (l : Loop) (e : Occurs) : Loop × Unit := (l.next loads repr e, ())

end Step

/-- The page count the deck sees. -/
def Loop.count (l : Loop) : Int := l.round.memory.nums .N

/-- Every thread has ended. -/
def Rest (c : Conn) : Prop := ∀ t ∈ c.threads, ∃ sent, t.stage = .done sent

/-- Nothing is on its way. -/
structure Loop.Settled (l : Loop) : Prop where
  link : l.link = []
  pair : l.pair = .empty
  read : l.read = l.sent.length
  rest : Rest l.conn
  polled : l.polled = l.conn.replies.length
  left : l.round.left = []

/-- The deck asks when an answer is on the screen, or when nothing is on its way. -/
def Patient (l : Loop) (e : Occurs) : Prop := ∀ x, e = .asks x → l.count ≠ 0 ∨ l.Settled

/-- Every String gets to `on_var`, and no half is due before the other is there. -/
def Whole (l : Loop) : Occurs → Prop
  | .misses _ => False
  | .checks now _ _ => ∀ first, l.pair.firstArrivalMs = some first → Ticks.ticksDiff now first < pairTimeoutMs
  | _ => True

/-! ## The frames -/

theorem rows_flatten {page : List Str} (h7 : page.length = 7) (h16 : ∀ r ∈ page, r.length = 16) :
    rowsOf page.flatten = page := by
  apply List.ext_getElem
  · rw [rowsOf, List.length_map, List.length_range, h7]
  · intro i hi _
    rw [rowsOf, List.length_map, List.length_range] at hi
    simp only [rowsOf, List.getElem_map, List.getElem_range]
    exact Relay.take_drop_flatten page h16 i (by omega)

/-- A frame that parses to laid out pages is pushed as `Happens.begins` has it. -/
theorem pushes_eq_begins {r : Round} (hleft : r.left = []) {raw : List Entry} {frame : Bytes}
    (hparse : parsePagesFrame frame = layoutPages raw) : r.pushes frame = r.next (.begins raw) := by
  obtain ⟨h1, h8⟩ := layoutRows_count raw 16 7 (by decide : 0 < 8)
  have hne : parsePagesFrame frame ≠ [] := by
    rw [hparse]
    exact List.length_pos_iff.1 ((List.length_map _).symm ▸ h1)
  have hpush : pagesToPush frame = (layoutRows raw 16 7 8).map List.flatten := by
    rw [pagesToPush, hparse]
    exact List.take_of_length_le ((List.length_map _).symm ▸ h8)
  have hrows : ((layoutRows raw 16 7 8).map List.flatten).map rowsOf = layoutRows raw 16 7 8 := by
    rw [List.map_map]
    conv_rhs => rw [← List.map_id (layoutRows raw 16 7 8)]
    apply List.map_congr_left
    intro page hpage
    obtain ⟨h7, h16⟩ := layoutRows_square raw page hpage
    exact rows_flatten h7 h16
  rw [next_begins hleft, Round.pushes, if_neg hne, pushPlan, hpush, hrows, planOf, pagePushes, List.length_map]

section Frames
variable (loads : Str → Option Json) (repr : Json → Str)

/-- The entries the relay lays out for this question. -/
def Ask.Reply (x : Ask) (raw : List Entry) : Prop := rawPages (modelEntries loads repr x.http) = .ok raw

/-- The frame, behind its length word, is the relay's for this question. -/
def Ask.FrameTo (x : Ask) (frame : Bytes) : Prop :=
  ∃ raw, x.Reply loads repr raw ∧ parsePagesFrame (frame.drop 4) = layoutPages raw

end Frames

section Proofs
variable {loads : Str → Option Json} {repr : Json → Str}

theorem worker_frame {x : Ask} {text : Str} {frame : Bytes} (h : frame ∈ worker loads repr (fun _ _ => x.http) text) :
    x.FrameTo loads repr frame := by
  unfold worker at h
  split at h
  · rename_i reply hreply
    obtain ⟨raw, hraw⟩ := Answers.raw ⟨text, hreply⟩
    refine ⟨raw, hraw, ?_⟩
    rw [List.mem_singleton.1 h]
    have hdrop : (Bytes.toBe 4 reply.length ++ reply).drop 4 = reply := List.drop_left' (Bytes.length_toBe 4 _)
    rw [hdrop]
    exact parse_llmReply hraw hreply
  · cases h

theorem worker_ne_nil {x : Ask} {raw : List Entry} (h : x.Reply loads repr raw) (text : Str) :
    worker loads repr (fun _ _ => x.http) text ≠ [] := by
  have hreply : llmReplyPages (fun _ _ => modelEntries loads repr x.http) text = .ok _ := llmReplyPages_ok h
  rw [worker, promptReply, hreply]
  exact List.cons_ne_nil _ _

/-! ## The threads -/

/-- What an event does that starts no thread. -/
inductive Does (loads : Str → Option Json) (repr : Json → Str) (c : Conn) (e : Relay.Event) : Conn → Prop where
  | permits (others : Nat) : Does loads repr c e { c with others := others }
  | calls (i : Nat) (t : Thread) (ht : c.threads[i]? = some t) (hstage : t.stage = .waiting) :
      Does loads repr c e (c.move i t .calling)
  | answers (i : Nat) (http : Http) (t : Thread) (frame : Bytes) (he : e = .answer i http) (ht : c.threads[i]? = some t)
      (hstage : t.stage = .calling) (hframe : frame ∈ worker loads repr (fun _ _ => http) t.text) :
      Does loads repr c e (c.move i t (.answered frame))
  | dies (i : Nat) (http : Http) (t : Thread) (he : e = .answer i http) (ht : c.threads[i]? = some t)
      (hstage : t.stage = .calling) (hnone : worker loads repr (fun _ _ => http) t.text = []) :
      Does loads repr c e (c.move i t (.done false))
  | sends (i : Nat) (t : Thread) (frame : Bytes) (ht : c.threads[i]? = some t) (hstage : t.stage = .answered frame) :
      Does loads repr c e { c.move i t (.done true) with replies := c.replies ++ [(i, frame)] }
  | fails (i : Nat) (t : Thread) (frame : Bytes) (he : e = .send i false) (ht : c.threads[i]? = some t)
      (hstage : t.stage = .answered frame) : Does loads repr c e (c.move i t (.done false))

variable (loads repr) in
theorem does_of (c : Conn) {e : Relay.Event} (he : ∀ body, e ≠ .frame body) : Does loads repr c e (c.next loads repr e) := by
  have hsame : Does loads repr c e c := .permits c.others
  unfold Conn.next
  cases e with
  | frame body => exact absurd rfl (he body)
  | acquire i =>
    dsimp only
    split
    · rename_i t ht
      split
      · rename_i h
        exact .calls i t ht h.1
      · exact hsame
    · exact hsame
  | answer i http =>
    dsimp only
    split
    · rename_i t ht
      split
      · rename_i hstage
        split
        · rename_i frame more hworker
          exact .answers i http t frame rfl ht hstage (hworker ▸ List.mem_cons_self)
        · rename_i hworker
          exact .dies i http t rfl ht hstage hworker
      · exact hsame
    · exact hsame
  | send i ok =>
    dsimp only
    split
    · rename_i t ht
      split
      · rename_i frame hstage
        cases ok with
        | true => exact .sends i t frame ht hstage
        | false => exact .fails i t frame rfl ht hstage
      · exact hsame
    · exact hsame
  | otherAcquire =>
    dsimp only
    split
    · exact .permits _
    · exact hsame
  | otherRelease => exact .permits _

/-- No thread moves when all have ended. -/
theorem Rest.does {c c' : Conn} {e : Relay.Event} (h : Rest c) (hd : Does loads repr c e c') :
    Rest c' ∧ c'.replies = c.replies := by
  have hdone {i : Nat} {t : Thread} (ht : c.threads[i]? = some t) : ∃ sent, t.stage = .done sent :=
    h t (List.mem_of_getElem? ht)
  cases hd with
  | permits others => exact ⟨h, rfl⟩
  | calls i t ht hstage | answers i http t frame he ht hstage hframe | dies i http t he ht hstage hnone
  | sends i t frame ht hstage | fails i t frame he ht hstage =>
    obtain ⟨sent, hsent⟩ := hdone ht
    rw [hstage] at hsent
    cases hsent

/-- The last thread is the only one that has not ended. -/
structure Busy (c : Conn) (pre : List Thread) (t : Thread) : Prop where
  threads : c.threads = pre ++ [t]
  ended : ∀ u ∈ pre, ∃ sent, u.stage = .done sent
  busy : ∀ sent, t.stage ≠ .done sent

theorem Busy.get {c : Conn} {pre : List Thread} {t : Thread} (h : Busy c pre t) : c.threads[pre.length]? = some t := by
  rw [h.threads, List.getElem?_concat_length]

theorem Busy.pending {c : Conn} {pre : List Thread} {t u : Thread} (h : Busy c pre t) {i : Nat} (hu : c.threads[i]? = some u)
    (hbusy : ∀ sent, u.stage ≠ .done sent) : i = pre.length ∧ u = t := by
  rw [h.threads] at hu
  rcases Nat.lt_or_ge i pre.length with hi | hi
  · rw [List.getElem?_append_left hi] at hu
    obtain ⟨sent, hsent⟩ := h.ended u (List.mem_of_getElem? hu)
    exact absurd hsent (hbusy sent)
  · rw [List.getElem?_append_right hi] at hu
    obtain ⟨hlt, hu⟩ := List.getElem?_eq_some_iff.1 hu
    rw [List.length_singleton] at hlt
    rw [List.getElem_singleton] at hu
    exact ⟨by omega, hu.symm⟩

theorem Busy.move {c : Conn} {pre : List Thread} {t : Thread} (h : Busy c pre t) (stage : Stage) :
    (c.move pre.length t stage).threads = pre ++ [{ t with stage := stage }] := by
  simp [Conn.move, h.threads]

theorem Busy.moved {c : Conn} {pre : List Thread} {t : Thread} (h : Busy c pre t) {stage : Stage}
    (hstage : ∀ sent, stage ≠ .done sent) : Busy (c.move pre.length t stage) pre { t with stage := stage } :=
  ⟨h.move stage, h.ended, hstage⟩

theorem Busy.rest {pre : List Thread} {t : Thread} {c c' : Conn} (h : Busy c pre t) {sent : Bool}
    (hthreads : c'.threads = pre ++ [{ t with stage := .done sent }]) : Rest c' := by
  intro u hu
  rw [hthreads] at hu
  rcases List.mem_append.1 hu with hu | hu
  · exact h.ended u hu
  · rw [List.mem_singleton.1 hu]
    exact ⟨sent, rfl⟩

theorem Does.texts {c c' : Conn} {e : Relay.Event} (hd : Does loads repr c e c') :
    c'.threads.map (·.text) = c.threads.map (·.text) := by
  cases hd with
  | permits others => rfl
  | calls i t ht hstage | answers i http t frame he ht hstage hframe | dies i http t he ht hstage hnone
  | sends i t frame ht hstage | fails i t frame he ht hstage => exact move_texts ht _

/-! ## Where a question is -/

/-- All pages of the answer to the last question are counted. -/
def Loop.Shows (loads : Str → Option Json) (repr : Json → Str) (l : Loop) : Prop :=
  l.count ≠ 0 ∧ ∃ x raw, l.latest = some x ∧ x.Reply loads repr raw ∧ l.round.pages = layoutRows raw 16 7 8

/-- The question waits for the bridge, or its first half is in the buffer. -/
inductive Loop.Crosses (l : Loop) (x : Ask) : Prop where
  | waits (hlink : l.link = x.question.chat) (hpair : l.pair = .empty)
  | buffered (first : Nat) (hlink : l.link = [strVariable strSlotMath x.question.math x.question.math_length])
      (hpair : l.pair = ⟨some x.question.texts.1, none, some first⟩)

/-- All questions have crossed, whole. -/
structure Loop.Crossed (l : Loop) : Prop where
  link : l.link = []
  pair : l.pair = .empty
  sent : l.sent = l.asked.map Ask.frame

/-- Only the last question is on its way: over the link, to the relay, in its
thread, as a reply, or as what is pushed. In a run that is `smooth` it arrives. -/
inductive Loop.Phase (loads : Str → Option Json) (repr : Json → Str) (smooth : Prop) (l : Loop) : Prop where
  | settled (hc : l.Crossed) (h : l.Settled) (hshown : (l.count = 0 ∧ (smooth → l.latest = none)) ∨ l.Shows loads repr)
  | crossing (before : List Ask) (x : Ask) (hlatest : l.latest = some x) (hasked : l.asked = before ++ [x])
      (hsent : l.sent = before.map Ask.frame) (hcrosses : l.Crosses x) (hread : l.read = before.length) (hrest : Rest l.conn)
      (hpolled : l.polled = l.conn.replies.length) (hleft : l.round.left = []) (hcount : l.count = 0)
  | asking (hc : l.Crossed) (before : List Ask) (x : Ask) (hlatest : l.latest = some x) (hasked : l.asked = before ++ [x])
      (hread : l.read = before.length) (hrest : Rest l.conn) (hpolled : l.polled = l.conn.replies.length)
      (hleft : l.round.left = []) (hcount : l.count = 0)
  | working (hc : l.Crossed) (before : List Ask) (x : Ask) (pre : List Thread) (t : Thread) (hlatest : l.latest = some x)
      (hasked : l.asked = before ++ [x]) (hread : l.read = l.asked.length) (hpre : pre.length = before.length)
      (hbusy : Busy l.conn pre t) (hframe : ∀ frame, t.stage = .answered frame → x.FrameTo loads repr frame)
      (hpolled : l.polled = l.conn.replies.length) (hleft : l.round.left = []) (hcount : l.count = 0)
  | replied (hc : l.Crossed) (x : Ask) (replies : List (Nat × Bytes)) (i : Nat) (frame : Bytes) (hlatest : l.latest = some x)
      (hread : l.read = l.asked.length) (hrest : Rest l.conn) (hreplies : l.conn.replies = replies ++ [(i, frame)])
      (hpolled : l.polled = replies.length) (hframe : x.FrameTo loads repr frame) (hleft : l.round.left = [])
      (hcount : l.count = 0)
  | pushing (hc : l.Crossed) (x : Ask) (raw : List Entry) (hlatest : l.latest = some x) (hraw : x.Reply loads repr raw)
      (hread : l.read = l.asked.length) (hrest : Rest l.conn) (hpolled : l.polled = l.conn.replies.length)
      (hleft : l.round.left ≠ []) (hpages : l.round.pages = layoutRows raw 16 7 8) (hcount : l.count = 0)

structure Loop.Inv (loads : Str → Option Json) (repr : Json → Str) (smooth : Prop) (l : Loop) : Prop where
  round : l.round.Inv
  read_le : l.read ≤ l.asked.length
  texts : (l.conn.threads.map fun t => parsePair t.text) = (l.asked.take l.read).map fun x => x.question.texts
  answerable : smooth → ∀ x, l.latest = some x → ∃ raw, x.Reply loads repr raw
  phase : l.Phase loads repr smooth

/-- What goes well. -/
def Occurs.Smooth (loads : Str → Option Json) (repr : Json → Str) : Occurs → Prop
  | .asks x => ∃ raw, x.Reply loads repr raw
  | .crosses _ send _ => send = .ok
  | .sends _ ok => ok = true
  | .tries ok _ => ok = true
  | .reconnects => False
  | _ => True

variable {smooth smooth' : Prop} {l : Loop}

theorem Loop.Phase.mono (h : l.Phase loads repr smooth) (hs : smooth' → smooth) : l.Phase loads repr smooth' := by
  cases h with
  | settled hc h hshown => exact .settled hc h (hshown.imp_left fun ⟨hcount, hnone⟩ => ⟨hcount, fun h => hnone (hs h)⟩)
  | crossing before x hlatest hasked hsent hcrosses hread hrest hpolled hleft hcount =>
    exact .crossing before x hlatest hasked hsent hcrosses hread hrest hpolled hleft hcount
  | asking hc before x hlatest hasked hread hrest hpolled hleft hcount =>
    exact .asking hc before x hlatest hasked hread hrest hpolled hleft hcount
  | working hc before x pre t hlatest hasked hread hpre hbusy hframe hpolled hleft hcount =>
    exact .working hc before x pre t hlatest hasked hread hpre hbusy hframe hpolled hleft hcount
  | replied hc x replies i frame hlatest hread hrest hreplies hpolled hframe hleft hcount =>
    exact .replied hc x replies i frame hlatest hread hrest hreplies hpolled hframe hleft hcount
  | pushing hc x raw hlatest hraw hread hrest hpolled hleft hpages hcount =>
    exact .pushing hc x raw hlatest hraw hread hrest hpolled hleft hpages hcount

theorem Loop.Inv.mono (h : l.Inv loads repr smooth) (hs : smooth' → smooth) : l.Inv loads repr smooth' :=
  ⟨h.round, h.read_le, h.texts, fun h' => h.answerable (hs h'), h.phase.mono hs⟩

theorem Loop.Inv.length_threads (h : l.Inv loads repr smooth) : l.conn.threads.length = l.read := by
  have := congrArg List.length h.texts
  rwa [List.length_map, List.length_map, List.length_take, Nat.min_eq_left h.read_le] at this

theorem Loop.Crossed.length {l : Loop} (h : l.Crossed) : l.sent.length = l.asked.length := by rw [h.sent, List.length_map]

theorem Loop.Crosses.link_ne {l : Loop} {x : Ask} (h : l.Crosses x) : l.link ≠ [] := by
  cases h with
  | waits hlink | buffered first hlink => rw [hlink]; exact List.cons_ne_nil _ _

/-! ## One thing that occurs -/

/-- A patient deck asks when nothing is on its way. -/
theorem Loop.Inv.settled (h : l.Inv loads repr smooth) (hp : l.count ≠ 0 ∨ l.Settled) : l.Crossed ∧ l.Settled := by
  have hcrossed : l.link = [] → l.Crossed := by
    intro hlink
    cases h.phase with
    | crossing _ _ _ _ _ hcrosses => exact absurd hlink hcrosses.link_ne
    | settled hc | asking hc | working hc | replied hc | pushing hc => exact hc
  rcases hp with hcount | hs
  · cases h.phase with
    | settled hc h _ => exact ⟨hc, h⟩
    | crossing | asking | working | replied | pushing => exact absurd ‹l.count = 0› hcount
  · exact ⟨hcrossed hs.link, hs⟩

theorem Loop.Inv.asks (h : l.Inv loads repr smooth) (hp : l.count ≠ 0 ∨ l.Settled) (x : Ask) :
    (l.next loads repr (.asks x)).Inv loads repr (smooth ∧ (Occurs.asks x).Smooth loads repr) := by
  obtain ⟨hc, hs⟩ := h.settled hp
  have hround : (l.round.next .asks).Inv := h.round.next fun _ he => nomatch he
  refine ⟨hround, ?_, ?_, ?_, ?_⟩
  · change l.read ≤ (l.asked ++ [x]).length
    rw [List.length_append]
    exact Nat.le_add_right_of_le h.read_le
  · change _ = ((l.asked ++ [x]).take l.read).map _
    rw [List.take_append_of_le_length h.read_le]
    exact h.texts
  · rintro hsmooth y ⟨⟩
    exact hsmooth.2
  · exact .crossing l.asked x rfl rfl hc.sent (.waits rfl hc.pair) (hs.read.trans hc.length) hs.rest hs.polled hs.left
      (by simp [Loop.count, Loop.next, Round.next])

/-- A check that finds no half that is due changes nothing. -/
theorem bridge_check {now : Nat}
    (hyoung : ∀ first, l.pair.firstArrivalMs = some first → Ticks.ticksDiff now first < pairTimeoutMs)
    (hsingle : l.pair.prompt = none ∨ l.pair.math = none) (send : Send) (http : Http) :
    l.bridge .check now send http = l := by
  rw [Loop.bridge, check_keeps (s := ⟨true, l.pair⟩) hyoung hsingle]
  rfl

theorem Loop.Inv.checks (h : l.Inv loads repr smooth) {now : Nat}
    (hyoung : ∀ first, l.pair.firstArrivalMs = some first → Ticks.ticksDiff now first < pairTimeoutMs) (send : Send)
    (http : Http) : (l.next loads repr (.checks now send http)).Inv loads repr smooth := by
  have hsingle : l.pair.prompt = none ∨ l.pair.math = none := by
    cases h.phase with
    | settled hc | asking hc | working hc | replied hc | pushing hc => exact .inl (congrArg Pair.prompt hc.pair)
    | crossing _ _ _ _ _ hcrosses =>
      cases hcrosses with
      | waits _ hpair | buffered _ _ hpair => exact .inr (congrArg Pair.math hpair)
  rw [Loop.next]
  split
  · rwa [bridge_check hyoung hsingle]
  · exact h

theorem next_crosses_nil (h : l.link = []) (now : Nat) (send : Send) (http : Http) :
    l.next loads repr (.crosses now send http) = l := by
  rw [Loop.next]
  split
  · rename_i hcons
    rw [h] at hcons
    cases hcons
  · rfl

theorem next_crosses {v : Outgoing} {link : List Outgoing} (hleft : l.round.left = []) (hlink : l.link = v :: link)
    (now : Nat) (send : Send) (http : Http) :
    l.next loads repr (.crosses now send http) = Loop.bridge { l with link } (strOp v) now send http := by
  rw [Loop.next, hleft, hlink]

/-- Str2 behind Str1 of the last question: the pair is sent, or is lost with the connection. -/
theorem bridge_math {x : Ask} (hlatest : l.latest = some x) {first : Nat}
    (hpair : l.pair = ⟨some x.question.texts.1, none, some first⟩) (now : Nat) (send : Send) (http : Http) :
    l.bridge (strOp (strVariable strSlotMath x.question.math x.question.math_length)) now send http = match send with
      | .ok => { l with pair := .empty, sent := l.sent ++ [x.frame] }
      | .osError => Loop.reconnect { l with pair := .empty } := by
  rw [Loop.bridge, math_completes (s := ⟨true, l.pair⟩) x.question hpair]
  cases send with
  | ok =>
    have hcall : Loop.callFor { l with pair := .empty } x.question.payload http = x.http := by
      rw [Loop.callFor, hlatest]
      exact if_pos rfl
    rw [Ask.frame, ← hcall]
    rfl
  | osError => rfl

/-- A String gets to the buffer: Str1 waits there, and behind it Str2 sends the pair. -/
theorem Loop.Inv.crosses (h : l.Inv loads repr smooth) (now : Nat) (send : Send) (http : Http) :
    (l.next loads repr (.crosses now send http)).Inv loads repr (smooth ∧ send = .ok) := by
  have hkept : l.Inv loads repr (smooth ∧ send = .ok) := h.mono And.left
  cases hkept.phase with
  | settled hc | asking hc | working hc | replied hc | pushing hc => rwa [next_crosses_nil hc.link]
  | crossing before x hlatest hasked hsent hcrosses hread hrest hpolled hleft hcount =>
    cases hcrosses with
    | waits hlink hpair =>
      rw [next_crosses hleft hlink, Loop.bridge, prompt_waits hpair]
      exact ⟨h.round, h.read_le, h.texts, hkept.answerable,
        .crossing before x hlatest hasked hsent (.buffered now rfl rfl) hread hrest hpolled hleft hcount⟩
    | buffered first hlink hpair =>
      rw [next_crosses hleft hlink, bridge_math (l := { l with link := [] }) hlatest hpair]
      cases send with
      | ok =>
        have hsent' : l.sent ++ [x.frame] = l.asked.map Ask.frame := by
          rw [hsent, hasked, List.map_append, List.map_singleton]
        exact ⟨h.round, h.read_le, h.texts, hkept.answerable,
          .asking ⟨rfl, rfl, hsent'⟩ before x hlatest hasked hread hrest hpolled hleft hcount⟩
      | osError =>
        refine ⟨h.round, Nat.zero_le _, rfl, hkept.answerable, ?_⟩
        exact .settled ⟨rfl, rfl, rfl⟩ ⟨rfl, rfl, rfl, nofun, rfl, hleft⟩ (.inl ⟨hcount, fun hs => nomatch hs.2⟩)

theorem next_reads_none (h : l.read = l.sent.length) : l.next loads repr .reads = l := by
  rw [Loop.next, List.getElem?_eq_none (Nat.le_of_eq h.symm)]

variable (loads repr) in
/-- A question that is read starts a thread. -/
theorem next_reads {x : Ask} (hx : l.sent[l.read]? = some x.frame) :
    ∃ text, parsePair text = x.question.texts ∧ l.next loads repr .reads =
      { l with read := l.read + 1, conn := { l.conn with threads := l.conn.threads ++ [⟨text, .waiting⟩] } } := by
  obtain ⟨text, htext, htexts⟩ := Option.map_eq_some_iff.1 (asked_payload x.question)
  refine ⟨text, htexts, ?_⟩
  rw [Loop.next, hx, Ask.frame]
  dsimp only
  rw [if_pos x.question.length_payload, Conn.next, htext]

theorem Loop.Inv.reads (h : l.Inv loads repr smooth) : (l.next loads repr .reads).Inv loads repr smooth := by
  cases h.phase with
  | settled _ hs _ => rwa [next_reads_none hs.read]
  | crossing _ _ _ _ hsent _ hread => rwa [next_reads_none (by rw [hread, hsent, List.length_map])]
  | working hc _ _ _ _ _ _ hread | replied hc _ _ _ _ _ hread | pushing hc _ _ _ _ hread =>
    rwa [next_reads_none (hread.trans hc.length.symm)]
  | asking hc before x hlatest hasked hread hrest hpolled hleft hcount =>
    have hx : l.asked[l.read]? = some x := by rw [hasked, hread, List.getElem?_concat_length]
    obtain ⟨text, htexts, hnext⟩ := next_reads loads repr (x := x) (by rw [hc.sent, List.getElem?_map, hx]; rfl)
    have hlen : l.read + 1 = l.asked.length := by rw [hasked, hread, List.length_append, List.length_singleton]
    rw [hnext]
    refine ⟨h.round, Nat.le_of_eq hlen, ?_, h.answerable, ?_⟩
    · change (l.conn.threads ++ [_]).map _ = (l.asked.take (l.read + 1)).map _
      obtain ⟨hlt, hget⟩ := List.getElem?_eq_some_iff.1 hx
      rw [List.take_succ_eq_append_getElem hlt, hget, List.map_append, List.map_append, h.texts]
      exact congrArg (_ ++ [·]) htexts
    · refine .working ⟨hc.link, hc.pair, hc.sent⟩ before x l.conn.threads ⟨text, .waiting⟩ hlatest hasked hlen ?_
        ⟨rfl, hrest, nofun⟩ nofun hpolled hleft hcount
      rw [h.length_threads, hread]

/-- What the threads do. -/
theorem Loop.Inv.relay (h : l.Inv loads repr smooth) {e : Relay.Event} (he : ∀ body, e ≠ .frame body)
    (hsent : ∀ i http, e = .answer i http → ∃ payload, l.sent[i]? = some (payload, http))
    (hs : smooth' → smooth ∧ ∀ i, e ≠ .send i false) : (l.relay loads repr e).Inv loads repr smooth' := by
  have hd := does_of loads repr l.conn he
  have hkept := h.mono fun h' => (hs h').1
  rw [Loop.relay]
  generalize l.conn.next loads repr e = c at hd ⊢
  have htexts : (c.threads.map fun t => parsePair t.text) = l.conn.threads.map fun t => parsePair t.text := by
    have := congrArg (List.map parsePair) hd.texts
    rwa [List.map_map, List.map_map] at this
  have hcrossed (hc : l.Crossed) : Loop.Crossed { l with conn := c } := ⟨hc.link, hc.pair, hc.sent⟩
  refine ⟨h.round, h.read_le, htexts.trans h.texts, hkept.answerable, ?_⟩
  cases hkept.phase with
  | settled hc hsettled hshown =>
    obtain ⟨hrest', hreplies⟩ := hsettled.rest.does hd
    exact .settled (hcrossed hc)
      ⟨hc.link, hc.pair, hsettled.read, hrest', hreplies ▸ hsettled.polled, hsettled.left⟩ hshown
  | crossing before x hlatest hasked hsent hcrosses hread hrest hpolled hleft hcount =>
    obtain ⟨hrest', hreplies⟩ := hrest.does hd
    have hcrosses' : Loop.Crosses { l with conn := c } x := by
      cases hcrosses with
      | waits hlink hpair => exact .waits hlink hpair
      | buffered first hlink hpair => exact .buffered first hlink hpair
    exact .crossing before x hlatest hasked hsent hcrosses' hread hrest' (hreplies ▸ hpolled) hleft hcount
  | asking hc before x hlatest hasked hread hrest hpolled hleft hcount =>
    obtain ⟨hrest', hreplies⟩ := hrest.does hd
    exact .asking (hcrossed hc) before x hlatest hasked hread hrest' (hreplies ▸ hpolled) hleft hcount
  | replied hc x replies i frame hlatest hread hrest hback hpolled hframe hleft hcount =>
    obtain ⟨hrest', hreplies⟩ := hrest.does hd
    exact .replied (hcrossed hc) x replies i frame hlatest hread hrest' (hreplies ▸ hback) hpolled hframe hleft hcount
  | pushing hc x raw hlatest hraw hread hrest hpolled hleft hpages hcount =>
    obtain ⟨hrest', hreplies⟩ := hrest.does hd
    exact .pushing (hcrossed hc) x raw hlatest hraw hread hrest' (hreplies ▸ hpolled) hleft hpages hcount
  | working hc before x pre t hlatest hlast hread hpre hbusy hframe hpolled hleft hcount =>
    have hhttp {http : Http} (h : ∃ payload, l.sent[pre.length]? = some (payload, http)) : x.http = http := by
      obtain ⟨payload, h⟩ := h
      rw [hc.sent, hlast, List.getElem?_map, hpre, List.getElem?_concat_length, Option.map_some, Option.some.injEq] at h
      exact congrArg Prod.snd h
    have hsettled {c' : Conn} (hrest : Rest c') (hreplies : c'.replies = l.conn.replies) :
        Loop.Settled { l with conn := c' } :=
      ⟨hc.link, hc.pair, hread.trans hc.length.symm, hrest, hreplies ▸ hpolled, hleft⟩
    cases hd with
    | permits others =>
      have hbusy' : Busy { l.conn with others } pre t := ⟨hbusy.threads, hbusy.ended, hbusy.busy⟩
      exact .working (hcrossed hc) before x pre t hlatest hlast hread hpre hbusy' hframe hpolled hleft hcount
    | calls i u hu hstage =>
      obtain ⟨rfl, rfl⟩ := hbusy.pending hu (by rw [hstage]; nofun)
      exact .working (hcrossed hc) before x pre _ hlatest hlast hread hpre (hbusy.moved nofun) nofun hpolled hleft hcount
    | answers i http u frame he hu hstage hworker =>
      obtain ⟨rfl, rfl⟩ := hbusy.pending hu (by rw [hstage]; nofun)
      obtain rfl := hhttp (hsent _ http he)
      refine .working (hcrossed hc) before x pre _ hlatest hlast hread hpre (hbusy.moved nofun) ?_ hpolled hleft hcount
      rintro frame' ⟨⟩
      exact worker_frame hworker
    | dies i http u he hu hstage hnone =>
      obtain ⟨rfl, rfl⟩ := hbusy.pending hu (by rw [hstage]; nofun)
      obtain rfl := hhttp (hsent _ http he)
      refine .settled (hcrossed hc) (hsettled (hbusy.rest (hbusy.move _)) rfl) (.inl ⟨hcount, fun h' => ?_⟩)
      -- An answer that can be laid out makes a frame.
      obtain ⟨raw, hraw⟩ := hkept.answerable h' x hlatest
      exact absurd hnone (worker_ne_nil hraw _)
    | sends i u frame hu hstage =>
      obtain ⟨rfl, rfl⟩ := hbusy.pending hu (by rw [hstage]; nofun)
      exact .replied (hcrossed hc) x l.conn.replies _ frame hlatest hread (hbusy.rest (hbusy.move _)) rfl hpolled
        (hframe frame hstage) hleft hcount
    | fails i u frame he hu hstage =>
      obtain ⟨rfl, rfl⟩ := hbusy.pending hu (by rw [hstage]; nofun)
      exact .settled (hcrossed hc) (hsettled (hbusy.rest (hbusy.move _)) rfl)
        (.inl ⟨hcount, fun h' => absurd he ((hs h').2 _)⟩)

theorem next_polls_busy (h : l.round.left ≠ []) : l.next loads repr .polls = l := by
  rw [Loop.next]
  split
  · exact absurd ‹_› h
  · rfl

theorem next_polls_none (h : l.polled = l.conn.replies.length) : l.next loads repr .polls = l := by
  rw [Loop.next]
  split
  · rename_i hreply
    rw [List.getElem?_eq_none (Nat.le_of_eq h.symm)] at hreply
    cases hreply
  · rfl

/-- A reply that is polled is pushed. -/
theorem next_polls_reply (hleft : l.round.left = []) {i : Nat} {frame : Bytes}
    (hreply : l.conn.replies[l.polled]? = some (i, frame)) {raw : List Entry}
    (hparse : parsePagesFrame (frame.drop 4) = layoutPages raw) :
    l.next loads repr .polls = { l with polled := l.polled + 1, round := l.round.next (.begins raw) } := by
  rw [Loop.next, hleft, hreply]
  dsimp only
  rw [pushes_eq_begins hleft hparse]

theorem next_begins_left {r : Round} (hleft : r.left = []) (raw : List Entry) : (r.next (.begins raw)).left ≠ [] := by
  rw [next_begins hleft]
  simp [planOf]

theorem Loop.Inv.polls (h : l.Inv loads repr smooth) : (l.next loads repr .polls).Inv loads repr smooth := by
  cases h.phase with
  | settled _ hs _ => rwa [next_polls_none hs.polled]
  | crossing _ _ _ _ _ _ _ _ hpolled | asking _ _ _ _ _ _ _ hpolled | working _ _ _ _ _ _ _ _ _ _ _ hpolled =>
    rwa [next_polls_none hpolled]
  | pushing _ _ _ _ _ _ _ _ hleft => rwa [next_polls_busy hleft]
  | replied hc x replies i frame hlatest hread hrest hreplies hpolled hframe hleft hcount =>
    obtain ⟨raw, hraw, hparse⟩ := hframe
    have hreply : l.conn.replies[l.polled]? = some (i, frame) := by rw [hreplies, hpolled, List.getElem?_concat_length]
    have hbegins := next_begins hleft raw
    rw [next_polls_reply hleft hreply hparse]
    refine ⟨h.round.next (e := .begins raw) fun _ _ => hcount, h.read_le, h.texts, h.answerable, ?_⟩
    refine .pushing ⟨hc.link, hc.pair, hc.sent⟩ x raw hlatest hraw hread hrest ?_ (next_begins_left hleft raw)
      (by rw [hbegins]) (by rw [Loop.count, hbegins]; exact hcount)
    rw [hreplies, hpolled, List.length_append, List.length_singleton]

theorem next_tries_nil {r : Round} (h : r.left = []) (ok kept : Bool) : r.next (.tries ok kept) = r := by
  rw [Round.next, h]

theorem next_tries_pages (r : Round) (ok kept : Bool) : (r.next (.tries ok kept)).pages = r.pages := by
  rw [Round.next]
  split <;> rfl

/-- What is pushed last is the count. -/
theorem Round.Inv.counted {r : Round} (h : r.Inv) (hleft : r.left ≠ []) {kept : Bool}
    (hdone : (r.next (.tries true kept)).left = []) : (r.next (.tries true kept)).memory.nums .N ≠ 0 := by
  cases h with
  | idle hnil => exact absurd hnil hleft
  | pushing raw i hpages hi hplan hcount hslots =>
    obtain ⟨h1, h8⟩ := count_bounds hpages
    rcases Nat.lt_or_eq_of_le hi with hlt | rfl
    · rw [drop_planOf h8 hlt] at hplan
      rw [Round.next, hplan] at hdone
      have hlen : (planOf r.pages).length ≤ i + 1 := List.drop_eq_nil_iff.1 hdone
      rw [planOf, List.length_append, length_pagePushes (by rwa [List.length_map]), List.length_map,
        List.length_singleton] at hlen
      omega
    · rw [drop_planOf_end h8] at hplan
      rw [Round.next, hplan]
      dsimp only
      rw [Bool.true_or, if_pos rfl, receive_count h1 h8]
      simp only [Function.update_self]
      omega

/-- A push. After the last one nothing is on its way. -/
theorem Loop.Inv.tries (h : l.Inv loads repr smooth) (ok kept : Bool) :
    (l.next loads repr (.tries ok kept)).Inv loads repr (smooth ∧ ok = true) := by
  have hkept : l.Inv loads repr (smooth ∧ ok = true) := h.mono And.left
  have hsame (hleft : l.round.left = []) : l.next loads repr (.tries ok kept) = l := by
    rw [Loop.next, next_tries_nil hleft]
  cases hkept.phase with
  | settled _ hs _ => rwa [hsame hs.left]
  | crossing _ _ _ _ _ _ _ _ _ hleft | asking _ _ _ _ _ _ _ _ hleft | working _ _ _ _ _ _ _ _ _ _ _ _ hleft
  | replied _ _ _ _ _ _ _ _ _ _ _ hleft => rwa [hsame hleft]
  | pushing hc x raw hlatest hraw hread hrest hpolled hleft hpages hcount =>
    have hround := h.round.tries ok kept
    have hpages' : (l.round.next (.tries ok kept)).pages = layoutRows raw 16 7 8 := (next_tries_pages _ _ _).trans hpages
    refine ⟨hround, h.read_le, h.texts, hkept.answerable, ?_⟩
    by_cases hdone : (l.round.next (.tries ok kept)).left = []
    · refine .settled ⟨hc.link, hc.pair, hc.sent⟩ ⟨hc.link, hc.pair, hread.trans hc.length.symm, hrest, hpolled, hdone⟩ ?_
      by_cases hzero : (l.next loads repr (.tries ok kept)).count = 0
      · refine .inl ⟨hzero, fun hs => ?_⟩
        obtain rfl := hs.2
        exact absurd hzero (h.round.counted hleft hdone)
      · exact .inr ⟨hzero, x, raw, hlatest, hraw, hpages'⟩
    · refine .pushing ⟨hc.link, hc.pair, hc.sent⟩ x raw hlatest hraw hread hrest hpolled hdone hpages' ?_
      cases hround with
      | pushing _ _ _ _ _ hcount => exact hcount
      | idle hnil => exact absurd hnil hdone

/-- What was on the way to the relay and back is lost. What crosses the link or is pushed is not. -/
theorem Loop.Inv.reconnects (h : l.Inv loads repr smooth) : (l.next loads repr .reconnects).Inv loads repr False := by
  have hkept : l.Inv loads repr False := h.mono False.elim
  refine ⟨h.round, Nat.zero_le _, rfl, False.elim, ?_⟩
  have hempty (hc : l.Crossed) : l.reconnect.Crossed := ⟨hc.link, hc.pair, by rw [Loop.reconnect, if_pos hc.link]; rfl⟩
  have hsettled (hc : l.Crossed) (hleft : l.round.left = []) : l.reconnect.Settled :=
    ⟨hc.link, hc.pair, rfl, nofun, rfl, hleft⟩
  cases hkept.phase with
  | settled hc hs hshown => exact .settled (hempty hc) (hsettled hc hs.left) hshown
  | crossing before x hlatest hasked hsent hcrosses hread hrest hpolled hleft hcount =>
    have hlast : l.reconnect.asked = [] ++ [x] := by rw [Loop.reconnect, if_neg hcrosses.link_ne, hlatest]; rfl
    refine .crossing [] x hlatest hlast rfl ?_ rfl nofun rfl hleft hcount
    cases hcrosses with
    | waits hlink hpair => exact .waits hlink hpair
    | buffered first hlink hpair => exact .buffered first hlink hpair
  | asking hc _ _ _ _ _ _ _ hleft hcount | working hc _ _ _ _ _ _ _ _ _ _ _ hleft hcount
  | replied hc _ _ _ _ _ _ _ _ _ _ hleft hcount =>
    exact .settled (hempty hc) (hsettled hc hleft) (.inl ⟨hcount, False.elim⟩)
  | pushing hc x raw hlatest hraw hread hrest hpolled hleft hpages hcount =>
    refine .pushing (hempty hc) x raw hlatest hraw ?_ nofun rfl hleft hpages hcount
    show 0 = l.reconnect.asked.length
    rw [Loop.reconnect, if_pos hc.link]
    rfl

theorem Loop.Inv.next (h : l.Inv loads repr smooth) {e : Occurs} (hp : Patient l e) (hw : Whole l e) :
    (l.next loads repr e).Inv loads repr (smooth ∧ e.Smooth loads repr) := by
  cases e with
  | asks x => exact h.asks (hp x rfl) x
  | crosses now send http => exact h.crosses now send http
  | misses ends => exact hw.elim
  | checks now send http => exact (h.checks hw send http).mono And.left
  | reads => exact h.reads.mono And.left
  | acquires i => exact h.relay nofun nofun fun hs => ⟨hs.1, nofun⟩
  | answers i =>
    rw [Loop.next]
    split
    · rename_i payload http hsent
      refine h.relay nofun ?_ fun hs => ⟨hs.1, nofun⟩
      rintro j http' ⟨⟩
      exact ⟨payload, hsent⟩
    · exact h.mono And.left
  | sends i ok =>
    refine h.relay nofun nofun fun hs => ⟨hs.1, ?_⟩
    rintro j ⟨⟩
    cases hs.2
  | otherAcquires => exact h.relay nofun nofun fun hs => ⟨hs.1, nofun⟩
  | otherReleases => exact h.relay nofun nofun fun hs => ⟨hs.1, nofun⟩
  | polls => exact h.polls.mono And.left
  | tries ok kept => exact h.tries ok kept
  | reconnects => exact h.reconnects.mono And.right

end Proofs

/-! ## Whole runs -/

/-- Nothing has failed. -/
def SmoothRun (loads : Str → Option Json) (repr : Json → Str) (es : List Occurs) : Prop := ∀ e ∈ es, e.Smooth loads repr

theorem Loop.inv_run (loads : Str → Option Json) (repr : Json → Str) {s : Calc.State} (hN : s.nums .N = 0) {es : List Occurs}
    (hp : Holds (Loop.step loads repr) (fun l e => Patient l e ∧ Whole l e) (.start s) es) :
    (run (Loop.step loads repr) (.start s) es).1.Inv loads repr (SmoothRun loads repr es) := by
  have hstart : (Loop.start s).Inv loads repr (SmoothRun loads repr []) :=
    ⟨.idle rfl (.inl hN), Nat.zero_le _, rfl, nofun,
      .settled ⟨rfl, rfl, rfl⟩ ⟨rfl, rfl, rfl, nofun, rfl, rfl⟩ (.inl ⟨hN, fun _ => rfl⟩)⟩
  have h := run_inv (fun (h : List (Occurs × Unit)) (l : Loop) => l.Inv loads repr (SmoothRun loads repr (h.map Prod.fst)))
    hstart (fun h l e hp hinv => ?_) es hp
  · rwa [run_events] at h
  · have hnext : (l.next loads repr e).Inv loads repr (SmoothRun loads repr (h.map Prod.fst) ∧ e.Smooth loads repr) :=
      hinv.next hp.1 hp.2
    refine hnext.mono fun hall => ?_
    rw [List.map_append] at hall
    exact ⟨fun e' he' => hall e' (List.mem_append_left _ he'), hall e (List.mem_append_right _ (List.mem_singleton_self e))⟩

def Occurs.ask : Occurs → Option Ask
  | .asks x => some x
  | _ => none

/-- `latest` is the last question of the run. -/
theorem latest_run (loads : Str → Option Json) (repr : Json → Str) (l : Loop) (es : List Occurs) :
    (run (Loop.step loads repr) l es).1.latest = (es.filterMap Occurs.ask).getLast?.or l.latest := by
  induction es generalizing l with
  | nil => rfl
  | cons e es ih =>
    have hbridge (l : Loop) (op : Op) (now : Nat) (send : Send) (http : Http) :
        (l.bridge op now send http).latest = l.latest := by
      unfold Loop.bridge
      dsimp only
      split <;> rfl
    have hnext : (l.next loads repr e).latest = e.ask.or l.latest := by
      cases e with
      | asks x => rfl
      | crosses | checks =>
        rw [Loop.next]
        split
        · exact hbridge ..
        · rfl
      | reads | answers i | polls =>
        rw [Loop.next]
        repeat' split
        all_goals rfl
      | misses | acquires | sends | otherAcquires | otherReleases | tries | reconnects => rfl
    rw [run_cons, ih, Loop.step, hnext, List.filterMap_cons]
    cases e.ask with
    | none => rfl
    | some x =>
      dsimp only
      rw [List.getLast?_cons]
      cases (es.filterMap Occurs.ask).getLast? <;> rfl

/-- The pager shows the pages of these entries as the answer to this question. -/
def Loop.Displays (glyph : Bytes → Str) (l : Loop) (x : Ask) (raw : List Entry) : Prop :=
  l.latest = some x ∧ l.count = (layoutRows raw 16 7 8).length ∧ ShowsPages glyph (layoutRows raw 16 7 8) l.round.memory

/-- Over whole runs of questions and answers, with threads, sends and pushes
failing and connections lost at any moment, a deck that waits, and whose
questions get to the bridge's buffer whole and leave it whole, is answered what
it asked: the model is called with its questions, in order; at every moment N is
0 or the pager shows the pages laid out from the answer to the last question; and
N is not 0 once nothing is on its way and nothing has failed. -/
theorem answers_own_question {glyph : Bytes → Str} (hg : GlyphOk glyph) (loads : Str → Option Json) (repr : Json → Str)
    {s : Calc.State} (hN : s.nums .N = 0) {es : List Occurs}
    (hp : Holds (Loop.step loads repr) (fun l e => Patient l e ∧ Whole l e) (.start s) es) :
    let l := (run (Loop.step loads repr) (.start s) es).1
    (l.conn.threads.map fun t => parsePair t.text) <+: (l.asked.map fun x => x.question.texts) ∧
    (l.count = 0 ∨ ∃ x raw, x.Reply loads repr raw ∧ l.Displays glyph x raw) ∧
    (SmoothRun loads repr es → l.Settled → l.latest ≠ none → l.count ≠ 0) := by
  intro l
  have h : l.Inv loads repr (SmoothRun loads repr es) := Loop.inv_run loads repr hN hp
  refine ⟨?_, ?_, ?_⟩
  · rw [h.texts]
    exact (List.take_prefix _ _).map _
  · by_cases hcount : l.count = 0
    · exact .inl hcount
    · cases h.phase with
      | crossing | asking | working | replied | pushing => exact absurd ‹l.count = 0› hcount
      | settled _ hs hshown =>
        obtain ⟨-, x, raw, hlatest, hraw, hpages⟩ := hshown.resolve_left fun ⟨hzero, _⟩ => hcount hzero
        refine .inr ⟨x, raw, hraw, hlatest, ?_⟩
        rw [← hpages]
        exact ((h.round.shown hg).resolve_left hcount).2
  · intro hsmooth hsettled hasked hcount
    cases h.phase with
    | settled _ _ hshown =>
      rcases hshown with ⟨-, hnone⟩ | ⟨hne, -⟩
      · exact hasked (hnone hsmooth)
      · exact hne hcount
    | crossing _ _ _ _ _ hcrosses => exact hcrosses.link_ne hsettled.link
    | asking hc before x hlatest hlast hread =>
      have := hsettled.read
      rw [hc.length, hlast, hread, List.length_append, List.length_singleton] at this
      omega
    | working _ _ _ pre t _ _ _ _ hbusy =>
      obtain ⟨sent, hsent⟩ := hsettled.rest t (List.mem_of_getElem? hbusy.get)
      exact hbusy.busy sent hsent
    | replied _ x replies i frame _ _ _ hreplies hpolled =>
      have := hsettled.polled
      rw [hreplies, hpolled, List.length_append, List.length_singleton] at this
      omega
    | pushing _ _ _ _ _ _ _ _ hleft => exact hleft hsettled.left

/-- The second of two questions is on the screen. -/
theorem answers_own_question_two :
    let x : Ask := ⟨⟨[0x48], [0x32], by decide, by decide⟩, .failed (str "no")⟩
    let y : Ask := ⟨⟨[0x49], [0x33], by decide, by decide⟩,
      .body (.obj [(str "message", .obj [(str "content", .str (str "HI"))])])⟩
    let comes (i : Nat) : List Occurs :=
      [.crosses 0 .ok .raised, .crosses 900 .ok .raised, .reads, .acquires i, .answers i, .sends i true, .polls,
        .tries true true, .tries true true]
    (run (Loop.step (fun _ => none) fun _ => []) (.start fresh) (.asks x :: comes 0 ++ .asks y :: comes 1)).1.Displays
      renderGlyph y [.text (str "HI")] := by
  intro x y comes
  have hg : GlyphOk renderGlyph := show ∀ e ∈ Tokens.asciiToTok, renderGlyph [e.2] = [e.1] by decide
  have hcomes (l : Loop) (i : Nat) :
      Holds (Loop.step (fun _ => none) fun _ => []) (fun l e => Patient l e ∧ Whole l e) l (comes i) :=
    ⟨⟨nofun, trivial⟩, ⟨nofun, trivial⟩, ⟨nofun, trivial⟩, ⟨nofun, trivial⟩, ⟨nofun, trivial⟩, ⟨nofun, trivial⟩,
      ⟨nofun, trivial⟩, ⟨nofun, trivial⟩, ⟨nofun, trivial⟩, trivial⟩
  have hp : Holds (Loop.step (fun _ => none) fun _ => []) (fun l e => Patient l e ∧ Whole l e) (.start fresh)
      (.asks x :: comes 0 ++ .asks y :: comes 1) :=
    holds_append.2 ⟨⟨⟨fun _ _ => .inr ⟨rfl, rfl, rfl, nofun, rfl, rfl⟩, trivial⟩, hcomes _ 0⟩,
      ⟨fun _ _ => .inl (by decide +kernel), trivial⟩, hcomes _ 1⟩
  obtain ⟨-, hshown, -⟩ := answers_own_question hg (fun _ => none) (fun _ => []) (s := fresh) rfl hp
  have hcount : (run (Loop.step (fun _ => none) fun _ => []) (.start fresh)
      (.asks x :: comes 0 ++ .asks y :: comes 1)).1.count ≠ 0 := by
    decide +kernel
  obtain ⟨z, raw, hraw, hdisplays⟩ := hshown.resolve_left hcount
  obtain rfl : z = y := Option.some.inj (hdisplays.1.symm.trans (latest_run ..))
  obtain rfl : raw = [.text (str "HI")] := Except.ok.inj (hraw.symm.trans rfl)
  exact hdisplays

/-- Str2 comes when Str1 was due: the model is called for each of them. -/
example :
    let x : Ask := ⟨⟨[0x48], [0x32], by decide, by decide⟩, .failed (str "no")⟩
    let l := (run (Loop.step (fun _ => none) fun _ => []) (.start fresh)
      [.asks x, .crosses 0 .ok .raised, .checks 2500 .ok .raised, .crosses 2600 .ok .raised, .checks 5100 .ok .raised,
        .reads, .reads]).1
    (l.conn.threads.map fun t => parsePair t.text) = [(str "H", []), ([], str "2")] := by
  decide +kernel

end CalcBridge.Deck
