import CalcBridge.LinkLib.Runs
import CalcBridge.Relay.ModelCall
/-!
# Worker threads of one connection (`tools/relay_server.py`, `FramedHandler`)

In LLM mode every prompt frame starts a thread that asks the model and sends
its reply. At most two calls are in flight in the process. The threads send in
any order, and a reply does not say which prompt it answers.
-/
open LinkLib LinkLib.Runs LinkLib.Text

namespace CalcBridge.Relay

inductive Stage where
  /-- At the semaphore. -/
  | waiting
  | calling
  /-- The reply frame is built. -/
  | answered (frame : Bytes)
  /-- The thread has ended, with its reply sent or not. -/
  | done (sent : Bool)
  deriving DecidableEq, Repr

structure Thread where
  text : Str
  stage : Stage
  deriving DecidableEq, Repr

/-- One connection: its threads in the order of their prompts, the calls in
flight of other connections, and the reply frames sent, each with the number
of the thread that sent it. -/
structure Conn where
  threads : List Thread
  others : Nat
  replies : List (Nat × Bytes)
  deriving DecidableEq, Repr

def Conn.init : Conn := ⟨[], 0, []⟩

/-- The calls in flight, of `_LLM_INFLIGHT`'s two. -/
def Conn.inflight (c : Conn) : Nat := c.threads.countP (·.stage = .calling) + c.others

/-- What happens next: the handler reads a frame, a thread takes a permit, its
request ends, it sends (each `sendall` is one event), or another connection's
thread takes or returns a permit. -/
inductive Event where
  | frame (body : Bytes)
  | acquire (i : Nat)
  | answer (i : Nat) (http : Http)
  | send (i : Nat) (ok : Bool)
  | otherAcquire
  | otherRelease

/-- Thread `i`, which is `t`, is now at `stage`. -/
def Conn.move (c : Conn) (i : Nat) (t : Thread) (stage : Stage) : Conn :=
  { c with threads := c.threads.set i { t with stage := stage } }

section Step
variable (loads : Str → Option Json) (repr : Json → Str)

/-- One event. An event that is not possible changes nothing. -/
def Conn.next (c : Conn) (e : Event) : Conn :=
  match e with
  | .frame body =>
    match decodeAscii body with
    | some text => { c with threads := c.threads ++ [⟨text, .waiting⟩] }
    | none => c
  | .acquire i =>
    match c.threads[i]? with
    | some t => if t.stage = .waiting ∧ c.inflight < 2 then c.move i t .calling else c
    | none => c
  | .answer i http =>
    match c.threads[i]? with
    | some t =>
      if t.stage = .calling then
        match worker loads repr (fun _ _ => http) t.text with
        | frame :: _ => c.move i t (.answered frame)
        -- The exception ends the thread.
        | [] => c.move i t (.done false)
      else c
    | none => c
  | .send i ok =>
    match c.threads[i]? with
    | some t =>
      match t.stage with
      | .answered frame =>
        let c := c.move i t (.done ok)
        if ok then { c with replies := c.replies ++ [(i, frame)] } else c
      | _ => c
    | none => c
  | .otherAcquire => if c.inflight < 2 then { c with others := c.others + 1 } else c
  | .otherRelease => { c with others := c.others - 1 }

def Conn.step (c : Conn) (e : Event) : Conn × Unit := (c.next loads repr e, ())

end Step

/-- The prompts among the frames that were read. -/
def prompts (es : List Event) : List Str :=
  es.filterMap fun | .frame body => decodeAscii body | _ => none

/-! ## What one event does -/

/-- The stages a thread goes through. -/
inductive Conn.Moves (loads : Str → Option Json) (repr : Json → Str) (text : Str) : Stage → Stage → Prop where
  | call : Moves loads repr text .waiting .calling
  | answer {http frame} (h : frame ∈ worker loads repr (fun _ _ => http) text) :
      Moves loads repr text .calling (.answered frame)
  | die : Moves loads repr text .calling (.done false)
  | fail {frame} : Moves loads repr text (.answered frame) (.done false)

/-- An event starts a thread for a prompt, moves one that sends nothing, sends
one reply, or leaves the threads and the replies alone. -/
inductive Conn.Effect (loads : Str → Option Json) (repr : Json → Str) (c : Conn) (e : Event) : Conn → Prop where
  | start (text : Str) (he : prompts [e] = [text]) :
      Effect loads repr c e { c with threads := c.threads ++ [⟨text, .waiting⟩] }
  | move (i : Nat) (t : Thread) (stage : Stage) (he : prompts [e] = []) (ht : c.threads[i]? = some t)
      (hmove : Conn.Moves loads repr t.text t.stage stage) (hfree : stage = .calling → c.inflight < 2) :
      Effect loads repr c e (c.move i t stage)
  | send (i : Nat) (t : Thread) (frame : Bytes) (he : e = .send i true) (ht : c.threads[i]? = some t)
      (hframe : t.stage = .answered frame) :
      Effect loads repr c e { c.move i t (.done true) with replies := c.replies ++ [(i, frame)] }
  | permits (others : Nat) (he : prompts [e] = []) (hle : others ≤ c.others ∨ c.inflight < 2 ∧ others = c.others + 1) :
      Effect loads repr c e { c with others := others }

section Cases
variable {loads : Str → Option Json} {repr : Json → Str}

theorem Conn.Effect.same {c : Conn} {e : Event} (he : prompts [e] = []) : c.Effect loads repr e c :=
  .permits c.others he (.inl (Nat.le_refl _))

variable (loads repr) in
theorem effect_of (c : Conn) (e : Event) : c.Effect loads repr e (c.next loads repr e) := by
  unfold Conn.next
  cases e with
  | frame body =>
    dsimp only
    cases htext : decodeAscii body with
    | some text => exact .start text (by simp [prompts, htext])
    | none => exact .same (by simp [prompts, htext])
  | acquire i =>
    dsimp only
    split
    · rename_i t ht
      split
      · rename_i h
        refine .move i t .calling rfl ht ?_ fun _ => h.2
        rw [h.1]
        exact .call
      · exact .same rfl
    · exact .same rfl
  | answer i http =>
    dsimp only
    split
    · rename_i t ht
      split
      · rename_i hcall
        split
        · rename_i frame more hframe
          have hmem : frame ∈ worker loads repr (fun _ _ => http) t.text := by
            rw [hframe]
            exact List.mem_cons_self
          refine .move i t (.answered frame) rfl ht ?_ nofun
          rw [hcall]
          exact .answer hmem
        · refine .move i t (.done false) rfl ht ?_ nofun
          rw [hcall]
          exact .die
      · exact .same rfl
    · exact .same rfl
  | send i ok =>
    dsimp only
    split
    · rename_i t ht
      split
      · rename_i frame hframe
        cases ok with
        | true => exact .send i t frame rfl ht hframe
        | false =>
          refine .move i t (.done false) rfl ht ?_ nofun
          rw [hframe]
          exact .fail
      · exact .same rfl
    · exact .same rfl
  | otherAcquire =>
    dsimp only
    split
    · exact .permits _ rfl (.inr ⟨‹_›, rfl⟩)
    · exact .same rfl
  | otherRelease => exact .permits _ rfl (.inl (Nat.sub_le _ _))

/-! ## Moving one thread -/

theorem move_self {c : Conn} {i : Nat} {t : Thread} (h : c.threads[i]? = some t) (stage : Stage) :
    (c.move i t stage).threads[i]? = some { t with stage := stage } :=
  List.getElem?_set_self (List.getElem?_eq_some_iff.1 h).1

theorem move_ne {c : Conn} {i k : Nat} (h : i ≠ k) (t : Thread) (stage : Stage) :
    (c.move i t stage).threads[k]? = c.threads[k]? := List.getElem?_set_ne h

theorem move_texts {c : Conn} {i : Nat} {t : Thread} (h : c.threads[i]? = some t) (stage : Stage) :
    (c.move i t stage).threads.map (·.text) = c.threads.map (·.text) := by
  apply List.ext_getElem?
  intro k
  rw [List.getElem?_map, List.getElem?_map]
  by_cases hk : i = k
  · rw [← hk, move_self h, h]
    rfl
  · rw [move_ne hk]

/-- A moved thread is in flight or not; the others stay. -/
theorem move_inflight {c : Conn} {i : Nat} {t : Thread} (h : c.threads[i]? = some t) (stage : Stage) :
    (c.move i t stage).inflight ≤ c.inflight + if stage = .calling then 1 else 0 := by
  obtain ⟨hi, -⟩ := List.getElem?_eq_some_iff.1 h
  simp only [Conn.inflight, Conn.move, List.countP_set hi, decide_eq_true_eq]
  omega

/-- The threads after a move are the old ones and the moved one. -/
theorem mem_move {c : Conn} {i : Nat} {t u : Thread} {stage : Stage} (hu : u ∈ (c.move i t stage).threads) :
    u ∈ c.threads ∨ u = { t with stage := stage } := List.mem_or_eq_of_mem_set hu

/-! ## Every reply answers one prompt -/

/-- A thread whose reply is sent, and was computed from its own prompt. -/
def Conn.Answers (loads : Str → Option Json) (repr : Json → Str) (c : Conn) (r : Nat × Bytes) : Prop :=
  ∃ t http, c.threads[r.1]? = some t ∧ t.stage = .done true ∧ r.2 ∈ worker loads repr (fun _ _ => http) t.text

/-- The threads are the prompts', the semaphore holds, and what a thread is
about to send or has sent was computed from its own prompt. -/
structure Conn.Ok (loads : Str → Option Json) (repr : Json → Str) (es : List Event) (c : Conn) : Prop where
  texts : c.threads.map (·.text) = prompts es
  inflight : c.inflight ≤ 2
  answered : ∀ t ∈ c.threads, ∀ frame, t.stage = .answered frame → ∃ http, frame ∈ worker loads repr (fun _ _ => http) t.text
  replies : ∀ r ∈ c.replies, c.Answers loads repr r
  once : (c.replies.map Prod.fst).Nodup

/-- A thread that is not done yet has no reply on the connection. -/
theorem Conn.Answers.ne {c : Conn} {r : Nat × Bytes} (h : c.Answers loads repr r) {i : Nat} {t : Thread}
    (ht : c.threads[i]? = some t) (hdone : t.stage ≠ .done true) : i ≠ r.1 := by
  rintro rfl
  obtain ⟨t', -, ht', hdone', -⟩ := h
  rw [ht, Option.some.injEq] at ht'
  exact hdone (ht' ▸ hdone')

theorem Conn.Answers.move {c : Conn} {r : Nat × Bytes} (h : c.Answers loads repr r) {i : Nat} {t : Thread}
    (ht : c.threads[i]? = some t) (hdone : t.stage ≠ .done true) (stage : Stage) :
    (c.move i t stage).Answers loads repr r := by
  have hne := h.ne ht hdone
  obtain ⟨t', http, ht', hrest⟩ := h
  exact ⟨t', http, (move_ne hne t stage).trans ht', hrest⟩

theorem Conn.Moves.not_done {text : Str} {stage stage' : Stage} (h : Conn.Moves loads repr text stage stage') :
    stage ≠ .done true := by
  cases h <;> nofun

theorem prompts_snoc (es : List Event) (e : Event) : prompts (es ++ [e]) = prompts es ++ prompts [e] := List.filterMap_append

/-- What the threads and the replies meet is kept by a move that sends nothing. -/
theorem Conn.Ok.move {es : List Event} {c : Conn} (h : c.Ok loads repr es) {e : Event} (he : prompts [e] = []) {i : Nat}
    {t : Thread} {stage : Stage} (ht : c.threads[i]? = some t) (hmove : Conn.Moves loads repr t.text t.stage stage)
    (hfree : stage = .calling → c.inflight < 2) : (c.move i t stage).Ok loads repr (es ++ [e]) where
  texts := by rw [move_texts ht, h.texts, prompts_snoc, he, List.append_nil]
  inflight := by
    have hle := move_inflight ht stage
    have hold := h.inflight
    split at hle
    · have := hfree ‹_›
      omega
    · omega
  answered u hu frame hframe := by
    rcases mem_move hu with hu | rfl
    · exact h.answered u hu frame hframe
    · change stage = .answered frame at hframe
      subst hframe
      generalize t.stage = old at hmove
      cases hmove with
      | answer hanswer => exact ⟨_, hanswer⟩
  replies r hr := (h.replies r hr).move ht hmove.not_done stage
  once := h.once

/-- The thread that sends was not done, so its reply is its only one. -/
theorem Conn.Ok.send {es : List Event} {c : Conn} (h : c.Ok loads repr es) {e : Event} (he : prompts [e] = []) {i : Nat}
    {t : Thread} {frame : Bytes} (ht : c.threads[i]? = some t) (hframe : t.stage = .answered frame) :
    Conn.Ok loads repr (es ++ [e]) { c.move i t (.done true) with replies := c.replies ++ [(i, frame)] } where
  texts := by
    change (c.move i t (.done true)).threads.map (·.text) = _
    rw [move_texts ht, h.texts, prompts_snoc, he, List.append_nil]
  inflight := Nat.le_trans (move_inflight ht (.done true)) h.inflight
  answered u hu frame' hframe' := by
    rcases mem_move hu with hu | rfl
    · exact h.answered u hu frame' hframe'
    · cases hframe'
  replies r hr := by
    rcases List.mem_append.1 hr with hr | hr
    · exact (h.replies r hr).move ht (by rw [hframe]; nofun) (.done true)
    · obtain ⟨http, hanswer⟩ := h.answered t (List.mem_of_getElem? ht) frame hframe
      rw [List.mem_singleton.1 hr]
      exact ⟨_, http, move_self ht _, rfl, hanswer⟩
  once := by
    rw [List.map_append, List.nodup_append]
    refine ⟨h.once, by simp, ?_⟩
    intro k hk k' hk'
    obtain ⟨r, hr, rfl⟩ := List.mem_map.1 hk
    rw [List.mem_singleton.1 hk']
    exact ((h.replies r hr).ne ht (by rw [hframe]; nofun)).symm

theorem Conn.Ok.next {es : List Event} {c : Conn} (h : c.Ok loads repr es) (e : Event) :
    (c.next loads repr e).Ok loads repr (es ++ [e]) := by
  have heffect := effect_of loads repr c e
  generalize c.next loads repr e = c' at heffect ⊢
  cases heffect with
  | start text he =>
    -- A new thread waits at the semaphore.
    refine ⟨?_, ?_, ?_, ?_, h.once⟩
    · rw [List.map_append, h.texts, prompts_snoc, he]
      rfl
    · simpa [Conn.inflight, List.countP_append] using h.inflight
    · intro t ht frame hframe
      rcases List.mem_append.1 ht with ht | ht
      · exact h.answered t ht frame hframe
      · rw [List.mem_singleton.1 ht] at hframe
        cases hframe
    · intro r hr
      obtain ⟨t, http, ht, hrest⟩ := h.replies r hr
      exact ⟨t, http, (List.getElem?_append_left (List.getElem?_eq_some_iff.1 ht).1).trans ht, hrest⟩
  | move i t stage he ht hmove hfree => exact h.move he ht hmove hfree
  | send i t frame he ht hframe => exact h.send (by rw [he]; rfl) ht hframe
  | permits others he hle =>
    refine ⟨by rw [prompts_snoc, he, List.append_nil]; exact h.texts, ?_, h.answered, h.replies, h.once⟩
    have hold := h.inflight
    simp only [Conn.inflight] at hold hle ⊢
    omega

theorem ok_run (es : List Event) : (run (Conn.step loads repr) .init es).1.Ok loads repr es := by
  have h0 : Conn.init.Ok loads repr [] := ⟨rfl, by decide, nofun, nofun, List.Pairwise.nil⟩
  have hstep : ∀ (h : List (Event × Unit)) (c : Conn) (e : Event), c.Ok loads repr (h.map Prod.fst) →
      (c.next loads repr e).Ok loads repr ((h ++ [(e, ())]).map Prod.fst) := by
    intro h c e hok
    rw [List.map_append]
    exact hok.next e
  have h : (run (Conn.step loads repr) .init es).1.Ok loads repr ((run (Conn.step loads repr) .init es).2.map Prod.fst) :=
    run_keeps (fun (h : List (Event × Unit)) (c : Conn) => c.Ok loads repr (h.map Prod.fst)) h0 hstep es
  rwa [run_events] at h

/-! ## The order of the replies -/

/-- The `k`th reply answers the `k`th prompt. -/
def InOrder (replies : List (Nat × Bytes)) : Prop := ∀ (k : Nat) (r : Nat × Bytes), replies[k]? = some r → r.1 = k

/-- The event sends the reply of thread `i`. -/
def Conn.Sends (c : Conn) (e : Event) (i : Nat) : Prop :=
  e = .send i true ∧ ∃ t frame, c.threads[i]? = some t ∧ t.stage = .answered frame

/-- A thread sends only once a reply is sent for every prompt before its own. -/
def InTurn (c : Conn) (e : Event) : Prop := ∀ i, c.Sends e i → i = c.replies.length

theorem inOrder_snoc {replies : List (Nat × Bytes)} {i : Nat} {frame : Bytes} :
    InOrder (replies ++ [(i, frame)]) ↔ InOrder replies ∧ i = replies.length := by
  constructor
  · intro h
    refine ⟨fun k r hr => ?_, ?_⟩
    · obtain ⟨hk, -⟩ := List.getElem?_eq_some_iff.1 hr
      exact h k r (by rw [List.getElem?_append_left hk]; exact hr)
    · exact h replies.length (i, frame) (by simp)
  · rintro ⟨h, rfl⟩ k r hr
    rcases Nat.lt_or_ge k replies.length with hk | hk
    · exact h k r (by rwa [List.getElem?_append_left hk] at hr)
    · rw [List.getElem?_append_right hk] at hr
      obtain ⟨hk', hr⟩ := List.getElem?_eq_some_iff.1 hr
      rw [List.length_singleton] at hk'
      rw [← hr, List.getElem_singleton]
      dsimp only
      omega

theorem next_send {c : Conn} {i : Nat} {t : Thread} {frame : Bytes} (ht : c.threads[i]? = some t)
    (hframe : t.stage = .answered frame) :
    c.next loads repr (.send i true) = { c.move i t (.done true) with replies := c.replies ++ [(i, frame)] } := by
  unfold Conn.next
  dsimp only
  rw [ht]
  dsimp only
  rw [hframe]
  rfl

/-- One event keeps the order exactly when it is in turn. -/
theorem inOrder_next (c : Conn) (e : Event) :
    InOrder (c.next loads repr e).replies ↔ InOrder c.replies ∧ InTurn c e := by
  by_cases hsend : ∃ i, c.Sends e i
  · obtain ⟨i, rfl, t, frame, ht, hframe⟩ := hsend
    have hturn : InTurn c (.send i true) ↔ i = c.replies.length := by
      constructor
      · intro h
        exact h i ⟨rfl, t, frame, ht, hframe⟩
      · rintro h i' ⟨heq, -⟩
        cases heq
        exact h
    rw [next_send ht hframe, hturn]
    exact inOrder_snoc
  · have hturn : InTurn c e := fun i hi => absurd ⟨i, hi⟩ hsend
    rw [and_iff_left hturn]
    have heffect := effect_of loads repr c e
    generalize c.next loads repr e = c' at heffect ⊢
    cases heffect with
    | start | move | permits => exact Iff.rfl
    | send i t frame he ht hframe => exact absurd ⟨i, he, t, frame, ht, hframe⟩ hsend

theorem inOrder_run (es : List Event) (c : Conn) :
    InOrder (run (Conn.step loads repr) c es).1.replies ↔ InOrder c.replies ∧ Holds (Conn.step loads repr) InTurn c es := by
  induction es generalizing c with
  | nil => exact (and_iff_left trivial).symm
  | cons e es ih =>
    rw [run_cons, ih, Conn.step, inOrder_next, and_assoc]
    rfl

/-! ## One prompt at a time -/

/-- A prompt is read only when the reply to every earlier one is sent. -/
def Sequential (c : Conn) (e : Event) : Prop := prompts [e] ≠ [] → ∀ t ∈ c.threads, t.stage = .done true

/-- Every prompt in `pre` has its reply, and after them there is at most one. -/
structure Conn.OneAtATime (c : Conn) (pre : List Thread) (last : Option Thread) : Prop where
  threads : c.threads = pre ++ last.toList
  sent : ∀ t ∈ pre, t.stage = .done true
  unsent : ∀ t ∈ last, t.stage ≠ .done true
  replies : c.replies.length = pre.length

/-- A thread that has not sent is the last one. -/
theorem Conn.OneAtATime.pending {c : Conn} {pre : List Thread} {last : Option Thread} (h : c.OneAtATime pre last) {i : Nat}
    {t : Thread} (ht : c.threads[i]? = some t) (hdone : t.stage ≠ .done true) : i = pre.length ∧ last = some t := by
  rw [h.threads] at ht
  rcases Nat.lt_or_ge i pre.length with hi | hi
  · rw [List.getElem?_append_left hi] at ht
    exact absurd (h.sent t (List.mem_of_getElem? ht)) hdone
  · rw [List.getElem?_append_right hi] at ht
    cases last with
    | none => simp at ht
    | some u =>
      obtain ⟨hlt, hu⟩ := List.getElem?_eq_some_iff.1 ht
      simp only [Option.toList_some, List.length_singleton, List.getElem_singleton] at hlt hu
      exact ⟨by omega, by rw [hu]⟩

theorem Conn.OneAtATime.inTurn {c : Conn} {pre : List Thread} {last : Option Thread} (h : c.OneAtATime pre last)
    (e : Event) :
    InTurn c e := by
  rintro i ⟨-, t, frame, ht, hframe⟩
  rw [h.replies]
  exact (h.pending ht (by rw [hframe]; nofun)).1

/-- Moving the last thread. -/
theorem Conn.OneAtATime.move {c : Conn} {pre : List Thread} {t : Thread} (h : c.OneAtATime pre (some t)) (stage : Stage) :
    (c.move pre.length t stage).threads = pre ++ [{ t with stage := stage }] := by
  simp [Conn.move, h.threads]

theorem Conn.Moves.ne_done {text : Str} {stage stage' : Stage} (h : Conn.Moves loads repr text stage stage') :
    stage' ≠ .done true := by
  cases h <;> nofun

theorem Conn.OneAtATime.next {c : Conn} {pre : List Thread} {last : Option Thread} (h : c.OneAtATime pre last) {e : Event}
    (hseq : Sequential c e) : ∃ pre' last', (c.next loads repr e).OneAtATime pre' last' := by
  have heffect := effect_of loads repr c e
  generalize c.next loads repr e = c' at heffect ⊢
  cases heffect with
  | start text he =>
    have hall := hseq (by rw [he]; exact List.cons_ne_nil _ _)
    cases last with
    | some t => exact absurd (hall t (by simp [h.threads])) (h.unsent t rfl)
    | none =>
      refine ⟨pre, some ⟨text, .waiting⟩, ?_, h.sent, ?_, h.replies⟩
      · simp [h.threads]
      · rintro t ⟨⟩
        nofun
  | move i t stage he ht hmove =>
    -- Only the last thread can still move.
    obtain ⟨rfl, rfl⟩ := h.pending ht hmove.not_done
    refine ⟨pre, some { t with stage := stage }, h.move stage, h.sent, ?_, h.replies⟩
    rintro u ⟨⟩
    exact hmove.ne_done
  | send i t frame he ht hframe =>
    obtain ⟨rfl, rfl⟩ := h.pending ht (by rw [hframe]; nofun)
    refine ⟨pre ++ [{ t with stage := .done true }], none, ?_, ?_, nofun, by simp [h.replies]⟩
    · rw [Option.toList_none, List.append_nil]
      exact h.move (.done true)
    · intro u hu
      rcases List.mem_append.1 hu with hu | hu
      · exact h.sent u hu
      · rw [List.mem_singleton.1 hu]
  | permits => exact ⟨pre, last, h.threads, h.sent, h.unsent, h.replies⟩

theorem inTurn_of_sequential (es : List Event) (c : Conn) {pre : List Thread} {last : Option Thread}
    (h : c.OneAtATime pre last) (hseq : Holds (Conn.step loads repr) Sequential c es) :
    Holds (Conn.step loads repr) InTurn c es := by
  induction es generalizing c pre last with
  | nil => trivial
  | cons e es ih =>
    obtain ⟨pre', last', h'⟩ : ∃ pre' last', (c.next loads repr e).OneAtATime pre' last' := h.next hseq.1
    exact ⟨h.inTurn e, ih _ h' hseq.2⟩

end Cases

/-! ## Which prompt a reply answers -/

end CalcBridge.Relay
