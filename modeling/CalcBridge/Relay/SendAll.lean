import CalcBridge.LinkLib.Framing
import CalcBridge.LinkLib.Writers
import CalcBridge.Relay.Workers
/-!
# `sendall` in pieces (`tools/relay_server.py`, `_worker`)

The worker threads of a connection write their frames to the same socket. A
`sendall` hands the kernel what is left of its frame until all of it is taken,
and nothing keeps another thread from writing in between.
-/
open LinkLib LinkLib.Runs LinkLib.Text LinkLib.Writers

namespace CalcBridge.Relay

/-- A connection and the bytes its threads have put on the socket. -/
structure Socket where
  conn : Conn
  out : Shared UInt8

def Socket.init : Socket := ⟨.init, .empty⟩

/-- What happens next: anything but a send, the kernel takes up to `n + 1` more
bytes of thread `i`'s frame, or thread `i`'s `sendall` raises. -/
inductive SocketEvent where
  | event (e : Event)
  | write (i n : Nat)
  | raise (i : Nat)

section Step
variable (loads : Str → Option Json) (repr : Json → Str)

/-- One event. `sendall` returns when all of the frame is taken. -/
def Socket.next (s : Socket) (e : SocketEvent) : Socket :=
  match e with
  | .event (.send _ _) => s
  | .event e => { s with conn := s.conn.next loads repr e }
  | .write i n =>
    match s.conn.threads[i]? with
    | some t =>
      match t.stage with
      | .answered frame =>
        let piece := (frame.drop (s.out.part i).length).take (n + 1)
        if s.out.part i ++ piece = frame then ⟨s.conn.next loads repr (.send i true), (s.out.put i piece).finish i⟩
        else { s with out := s.out.put i piece }
      | _ => s
    | none => s
  | .raise i => { s with conn := s.conn.next loads repr (.send i false) }

def Socket.step (s : Socket) (e : SocketEvent) : Socket × Unit := (s.next loads repr e, ())

end Step

/-- The event puts bytes of thread `i`'s frame on the socket. -/
def Socket.Writes (s : Socket) (e : SocketEvent) (i : Nat) : Prop :=
  ∃ n t frame, e = .write i n ∧ s.conn.threads[i]? = some t ∧ t.stage = .answered frame

/-- A thread writes only while no other is within its frame. -/
def WritesAlone (s : Socket) (e : SocketEvent) : Prop := ∀ i, s.Writes e i → s.out.Alone i

/-! ## What one event does -/

/-- Event `e` completes no send. -/
def Event.Quiet (e : Event) : Prop := ∀ i, e ≠ .send i true

/-- The socket is as it was, its connection takes an event that completes no
send, or a thread puts a piece of its frame, which may be the last. -/
inductive Socket.Effect (loads : Str → Option Json) (repr : Json → Str) (s : Socket) (e : SocketEvent) : Socket → Prop where
  | same : Effect loads repr s e s
  | conn (e' : Event) (hquiet : e'.Quiet) (he : e = .event e' ∨ prompts [e'] = []) :
      Effect loads repr s e { s with conn := s.conn.next loads repr e' }
  | piece (i : Nat) (t : Thread) (frame piece : Bytes) (he : s.Writes e i) (ht : s.conn.threads[i]? = some t)
      (hframe : t.stage = .answered frame) (hpiece : piece <+: frame.drop (s.out.part i).length)
      (hmore : s.out.part i ++ piece ≠ frame) : Effect loads repr s e { s with out := s.out.put i piece }
  | last (i : Nat) (t : Thread) (frame piece : Bytes) (he : s.Writes e i) (ht : s.conn.threads[i]? = some t)
      (hframe : t.stage = .answered frame) (hall : s.out.part i ++ piece = frame) :
      Effect loads repr s e ⟨s.conn.next loads repr (.send i true), (s.out.put i piece).finish i⟩

section Cases
variable {loads : Str → Option Json} {repr : Json → Str}

variable (loads repr) in
theorem Socket.effect_of (s : Socket) (e : SocketEvent) : s.Effect loads repr e (s.next loads repr e) := by
  unfold Socket.next
  cases e with
  | event e =>
    cases e with
    | send i ok => exact .same
    | frame body => exact .conn _ nofun (.inl rfl)
    | acquire i => exact .conn _ nofun (.inl rfl)
    | answer i http => exact .conn _ nofun (.inl rfl)
    | otherAcquire => exact .conn _ nofun (.inl rfl)
    | otherRelease => exact .conn _ nofun (.inl rfl)
  | raise i => exact .conn _ nofun (.inr rfl)
  | write i n =>
    dsimp only
    split
    · rename_i t ht
      split
      · rename_i frame hframe
        have hwrites : s.Writes (.write i n) i := ⟨n, t, frame, rfl, ht, hframe⟩
        split
        · exact .last i t frame _ hwrites ht hframe ‹_›
        · exact .piece i t frame _ hwrites ht hframe (List.take_prefix _ _) ‹_›
      · exact .same
    · exact .same

/-- An event that completes no send leaves the replies. -/
theorem Conn.replies_of_quiet {c : Conn} {e : Event} (h : e.Quiet) : (c.next loads repr e).replies = c.replies := by
  have heffect := Relay.effect_of loads repr c e
  generalize c.next loads repr e = c' at heffect ⊢
  cases heffect with
  | start => rfl
  | move => rfl
  | send i t frame he => exact absurd he (h i)
  | permits => rfl

/-! ## The frames under way -/

/-- Of the frame of thread `i` some is on the wire and some is not: the thread
is still sending it, or its `sendall` raised. -/
def Conn.HasPart (loads : Str → Option Json) (repr : Json → Str) (c : Conn) (i : Nat) (part : Bytes) : Prop :=
  ∃ t frame http, c.threads[i]? = some t ∧ (t.stage = .answered frame ∨ t.stage = .done false) ∧
    frame ∈ worker loads repr (fun _ _ => http) t.text ∧ part <+: frame ∧ part ≠ frame

theorem Conn.Moves.of_sending {text : Str} {stage stage' : Stage} {frame : Bytes}
    (h : Conn.Moves loads repr text stage stage') (hstage : stage = .answered frame ∨ stage = .done false) : stage' = .done false := by
  cases h with
  | fail => rfl
  | call | answer | die => simp at hstage

/-- Only the thread itself ends the sending of its frame. -/
theorem Conn.HasPart.next {c : Conn} {i : Nat} {part : Bytes} (h : c.HasPart loads repr i part) {e : Event}
    (he : e ≠ .send i true) : (c.next loads repr e).HasPart loads repr i part := by
  obtain ⟨t, frame, http, ht, hstage, hrest⟩ := h
  have heffect := Relay.effect_of loads repr c e
  generalize c.next loads repr e = c' at heffect ⊢
  cases heffect with
  | start text =>
    exact ⟨t, frame, http, (List.getElem?_append_left (List.getElem?_eq_some_iff.1 ht).1).trans ht, hstage, hrest⟩
  | move k u stage hk hu hmove =>
    by_cases hki : k = i
    · subst hki
      rw [ht, Option.some.injEq] at hu
      subst hu
      exact ⟨_, frame, http, move_self ht stage, .inr (hmove.of_sending hstage), hrest⟩
    · exact ⟨t, frame, http, (move_ne hki u stage).trans ht, hstage, hrest⟩
  | send k u frame' hk =>
    have hki : k ≠ i := fun hki => he (hki ▸ hk)
    exact ⟨t, frame, http, (move_ne hki u (.done true)).trans ht, hstage, hrest⟩
  | permits => exact ⟨t, frame, http, ht, hstage, hrest⟩

/-- The connection was reached without the socket, the finished frames are its
replies, and what else a thread has written is part of its frame. -/
structure Socket.Ok (loads : Str → Option Json) (repr : Json → Str) (s : Socket) : Prop where
  reached : ∃ es, s.conn = (run (Conn.step loads repr) .init es).1
  finished : s.out.finished = s.conn.replies.map Prod.snd
  parts : ∀ i, s.out.part i = [] ∨ s.conn.HasPart loads repr i (s.out.part i)

theorem reached_next {c : Conn} (h : ∃ es, c = (run (Conn.step loads repr) .init es).1) (e : Event) :
    ∃ es, c.next loads repr e = (run (Conn.step loads repr) .init es).1 := by
  obtain ⟨es, rfl⟩ := h
  exact ⟨es ++ [e], by rw [run_append]; rfl⟩

theorem Socket.Ok.conn_ok {s : Socket} (h : s.Ok loads repr) : ∃ es, s.conn.Ok loads repr es := by
  obtain ⟨es, hes⟩ := h.reached
  exact ⟨es, hes ▸ ok_run es⟩

/-- A thread that is sending has written the beginning of its frame. -/
theorem Socket.Ok.part_prefix {s : Socket} (h : s.Ok loads repr) {i : Nat} {t : Thread} {frame : Bytes}
    (ht : s.conn.threads[i]? = some t) (hframe : t.stage = .answered frame) : s.out.part i <+: frame := by
  rcases h.parts i with hnone | ⟨u, frame', http, hu, hstage, -, hprefix, -⟩
  · rw [hnone]
    exact List.nil_prefix
  · rw [ht, Option.some.injEq] at hu
    rw [← hu, hframe] at hstage
    rcases hstage with hstage | hstage
    · cases hstage
      exact hprefix
    · cases hstage

/-- Another piece of it is still part of the frame. -/
theorem Socket.Ok.hasPart_put {s : Socket} (h : s.Ok loads repr) {i : Nat} {t : Thread} {frame piece : Bytes}
    (ht : s.conn.threads[i]? = some t) (hframe : t.stage = .answered frame)
    (hpiece : piece <+: frame.drop (s.out.part i).length) (hmore : s.out.part i ++ piece ≠ frame) :
    s.conn.HasPart loads repr i (s.out.part i ++ piece) := by
  obtain ⟨es, hok⟩ := h.conn_ok
  obtain ⟨http, hanswer⟩ := hok.answered t (List.mem_of_getElem? ht) frame hframe
  refine ⟨t, frame, http, ht, .inl hframe, hanswer, ?_, hmore⟩
  obtain ⟨rest, hrest⟩ := h.part_prefix ht hframe
  rw [← hrest, List.drop_left] at hpiece
  rw [← hrest]
  exact (List.prefix_append_right_inj _).2 hpiece

theorem Socket.Ok.next {s : Socket} (h : s.Ok loads repr) (e : SocketEvent) : (s.next loads repr e).Ok loads repr := by
  have heffect := s.effect_of loads repr e
  generalize s.next loads repr e = s' at heffect ⊢
  cases heffect with
  | same => exact h
  | conn e' hquiet he =>
    refine ⟨reached_next h.reached e', ?_, fun i => ?_⟩
    · rw [Conn.replies_of_quiet hquiet]
      exact h.finished
    · rcases h.parts i with hnone | hpart
      · exact .inl hnone
      · exact .inr (hpart.next (hquiet i))
  | piece i t frame piece he ht hframe hpiece hmore =>
    refine ⟨h.reached, h.finished, fun j => ?_⟩
    dsimp only
    by_cases hj : j = i
    · rw [hj, put_part_self]
      exact .inr (h.hasPart_put ht hframe hpiece hmore)
    · rw [put_part_ne s.out hj]
      exact h.parts j
  | last i t frame piece he ht hframe hall =>
    refine ⟨reached_next h.reached (.send i true), ?_, fun j => ?_⟩
    · dsimp only
      rw [next_send ht hframe, List.map_append, ← h.finished, Shared.finish, put_part_self, hall]
      rfl
    · by_cases hj : j = i
      · exact .inl (by rw [hj]; exact finish_part_self _ i)
      · dsimp only
        rw [finish_part_ne _ hj, put_part_ne s.out hj]
        rcases h.parts j with hnone | hpart
        · exact .inl hnone
        · refine .inr (hpart.next ?_)
          rintro ⟨⟩
          exact hj rfl

theorem Socket.ok_init : Socket.init.Ok loads repr := ⟨⟨[], rfl⟩, rfl, fun _ => .inl rfl⟩

/-- What a thread writes alone goes behind whole frames. -/
theorem whole_next {s : Socket} (h : s.out.Whole) {e : SocketEvent} (halone : WritesAlone s e) :
    (s.next loads repr e).out.Whole := by
  have heffect := s.effect_of loads repr e
  generalize s.next loads repr e = s' at heffect ⊢
  cases heffect with
  | same => exact h
  | conn => exact h
  | piece i t frame piece he => exact h.put (halone i he) piece
  | last i t frame piece he => exact (h.put (halone i he) piece).finish ((halone i he).put piece)

/-- Only a write puts bytes on the socket. -/
theorem writesAlone_event (s : Socket) (e : Event) : WritesAlone s (.event e) := by
  rintro i ⟨n, t, frame, he, -⟩
  cases he

variable (loads repr) in
/-- The writes of one thread, begun when no other is within its frame, are all
alone, and leave the thread alone. -/
theorem writes_alone (ns : List Nat) {s : Socket} {i : Nat} (h : s.out.Alone i) :
    Holds (Socket.step loads repr) WritesAlone s (ns.map (.write i)) ∧
      (run (Socket.step loads repr) s (ns.map (.write i))).1.out.Alone i := by
  induction ns generalizing s with
  | nil => exact ⟨trivial, h⟩
  | cons n ns ih =>
    have halone : WritesAlone s (.write i n) := by
      rintro j ⟨m, t, frame, he, -⟩
      cases he
      exact h
    have hnext : (s.next loads repr (.write i n)).out.Alone i := by
      have heffect := s.effect_of loads repr (.write i n)
      generalize s.next loads repr (.write i n) = s' at heffect ⊢
      cases heffect with
      | same => exact h
      | conn => exact h
      | piece k t frame piece he =>
        obtain ⟨m, t, frame, he, -⟩ := he
        cases he
        exact h.put piece
      | last k t frame piece he =>
        obtain ⟨m, t, frame, he, -⟩ := he
        cases he
        exact (h.put piece).finish
    exact ⟨⟨halone, (ih hnext).1⟩, (ih hnext).2⟩

/-- A thread that begins when another's frame is finished. -/
theorem writes_in_turn {ns ms : List Nat} {s : Socket} {i j : Nat} (h : s.out.Alone i)
    (hdone : (run (Socket.step loads repr) s (ns.map (.write i))).1.out.part i = []) :
    Holds (Socket.step loads repr) WritesAlone s (ns.map (.write i) ++ ms.map (.write j)) := by
  obtain ⟨hfirst, halone⟩ := writes_alone loads repr ns h
  exact holds_append.2 ⟨hfirst, (writes_alone loads repr ms fun k _ => halone.part_eq_nil hdone k).1⟩

/-! ## One prompt at a time -/

/-- A prompt is read only when the reply to every earlier one is sent. -/
def Socket.Sequential (s : Socket) (e : SocketEvent) : Prop := ∀ e', e = .event e' → Relay.Sequential s.conn e'

theorem sequential_of_no_prompt {c : Conn} {e : Event} (h : prompts [e] = []) : Relay.Sequential c e :=
  fun hprompt => absurd h hprompt

variable (loads repr) in
theorem oneAtATime_next {s : Socket} {pre : List Thread} {last : Option Thread} (h : s.conn.OneAtATime pre last)
    {e : SocketEvent} (hseq : s.Sequential e) : ∃ pre' last', (s.next loads repr e).conn.OneAtATime pre' last' := by
  have heffect := s.effect_of loads repr e
  generalize s.next loads repr e = s' at heffect ⊢
  cases heffect with
  | same => exact ⟨pre, last, h⟩
  | conn e' hquiet he =>
    apply h.next
    rcases he with he | he
    · exact hseq e' he
    · exact sequential_of_no_prompt he
  | piece => exact ⟨pre, last, h⟩
  | last i =>
    dsimp only
    apply h.next
    exact sequential_of_no_prompt rfl

/-- Only the last thread can be within its frame. -/
theorem writesAlone_of_oneAtATime {s : Socket} (hok : s.Ok loads repr) {pre : List Thread} {last : Option Thread}
    (h : s.conn.OneAtATime pre last) (e : SocketEvent) : WritesAlone s e := by
  rintro i ⟨-, t, frame, -, ht, hframe⟩ j hj
  have hi : i = pre.length := (h.pending ht (by rw [hframe]; nofun)).1
  rcases hok.parts j with hnone | ⟨u, frame', http, hu, hstage, -⟩
  · exact hnone
  · have hdone : u.stage ≠ .done true := by
      rcases hstage with hstage | hstage
      · rw [hstage]
        nofun
      · rw [hstage]
        nofun
    exact absurd ((h.pending hu hdone).1.trans hi.symm) hj

theorem writesAlone_from (es : List SocketEvent) {s : Socket} (hok : s.Ok loads repr) {pre : List Thread}
    {last : Option Thread} (h : s.conn.OneAtATime pre last) (hseq : Holds (Socket.step loads repr) Socket.Sequential s es) :
    Holds (Socket.step loads repr) WritesAlone s es := by
  induction es generalizing s pre last with
  | nil => trivial
  | cons e es ih =>
    obtain ⟨pre', last', h'⟩ := oneAtATime_next loads repr h hseq.1
    exact ⟨writesAlone_of_oneAtATime hok h e, ih (hok.next e) h' hseq.2⟩

theorem writesAlone_of_sequential {es : List SocketEvent} (h : Holds (Socket.step loads repr) Socket.Sequential .init es) :
    Holds (Socket.step loads repr) WritesAlone .init es := by
  have hstart : Conn.init.OneAtATime [] none := ⟨rfl, nofun, nofun, rfl⟩
  exact writesAlone_from es Socket.ok_init hstart h

/-! ## The reply frames -/

theorem length_intercalate_le {n : Nat} (sep : Bytes) (parts : List Bytes) (h : ∀ p ∈ parts, p.length ≤ n) :
    (List.intercalate sep parts).length ≤ (n + sep.length) * parts.length := by
  match parts with
  | [] => simp
  | [p] =>
    have hp := h p (by simp)
    rw [List.intercalate_singleton, List.length_singleton]
    omega
  | p :: q :: parts =>
    have hp := h p (by simp)
    have ih := length_intercalate_le sep (q :: parts) fun r hr => h r (by simp [hr])
    rw [List.intercalate_cons_cons, List.length_append, List.length_append, List.length_cons (a := p), Nat.mul_succ]
    omega

/-- Eight pages are far from the limit of the length prefix. -/
theorem PagesFrame.fits {body : Bytes} (h : PagesFrame body) : Framing.Fits body := by
  obtain ⟨pages, hpos, hcount, hpages, rfl⟩ := h
  have hdigits : ∀ n < 9, (decimal n).length ≤ 1 := by decide
  have hheader := hdigits pages.length (by omega)
  have hjoined := length_intercalate_le (n := 112) [0x00] (pages.map (·.map UInt8.ofNat)) fun p hp => by
    obtain ⟨q, hq, rfl⟩ := List.mem_map.1 hp
    rw [List.length_map, (hpages q hq).1]
  have hprefix : (str "pages:").length = 6 := rfl
  have hend : (str "\n").length = 1 := rfl
  simp only [List.length_map, List.length_singleton] at hjoined
  simp only [Framing.Fits, List.length_append, List.length_map, hprefix, hend]
  omega

/-- A worker's frame is its length and a frame of pages. -/
theorem worker_frame {http : Str → Str → Http} {text : Str} {frame : Bytes} (h : frame ∈ worker loads repr http text) :
    ∃ body, PagesFrame body ∧ frame = Framing.frame body := by
  by_cases hcaught : Caught (modelEntries loads repr (http (parsePair text).1 (parsePair text).2))
  · have hreply : ∃ body, promptReply loads repr http text = .ok body ∧ PagesFrame body := llmReplyPages_pages hcaught
    obtain ⟨body, hbody, hpages⟩ := hreply
    rw [worker, hbody] at h
    exact ⟨body, hpages, List.mem_singleton.1 h⟩
  · have hraise : promptReply loads repr http text = .error .call := llmReplyPages_raises hcaught
    rw [worker, hraise] at h
    cases h

theorem Socket.Ok.replies {s : Socket} (h : s.Ok loads repr) :
    ∀ r ∈ s.conn.replies, ∃ body, PagesFrame body ∧ r.2 = Framing.frame body := by
  intro r hr
  obtain ⟨es, hok⟩ := h.conn_ok
  obtain ⟨t, http, -, -, hanswer⟩ := hok.replies r hr
  exact worker_frame hanswer

/-- Once every reply is sent no frame is under way. -/
theorem Socket.Ok.parts_of_sent {s : Socket} (h : s.Ok loads repr) (hsent : ∀ t ∈ s.conn.threads, t.stage = .done true) :
    ∀ i, s.out.part i = [] := by
  intro i
  rcases h.parts i with hnone | ⟨t, frame, http, ht, hstage, -⟩
  · exact hnone
  · rw [hsent t (List.mem_of_getElem? ht)] at hstage
    rcases hstage with hstage | hstage
    · cases hstage
    · cases hstage

theorem ok_whole_run {es : List SocketEvent} (h : Holds (Socket.step loads repr) WritesAlone .init es) :
    (run (Socket.step loads repr) .init es).1.Ok loads repr ∧ (run (Socket.step loads repr) .init es).1.out.Whole := by
  refine run_inv (fun (_ : List (SocketEvent × Unit)) (s : Socket) => s.Ok loads repr ∧ s.out.Whole)
    ⟨Socket.ok_init, whole_empty⟩ ?_ es h
  rintro - s e halone ⟨hok, hwhole⟩
  exact ⟨hok.next e, whole_next hwhole halone⟩

end Cases

/-! ## Frames are not mixed -/

/-- When every thread writes alone, the bytes on a connection are its reply
frames, whole and one after the other, and behind them at most the beginning of
one that a thread is sending or could not send to its end. -/
theorem frames_unmixed (loads : Str → Option Json) (repr : Json → Str) (es : List SocketEvent)
    (h : Holds (Socket.step loads repr) WritesAlone .init es) :
    let s := (run (Socket.step loads repr) .init es).1
    (∀ r ∈ s.conn.replies, ∃ body, PagesFrame body ∧ Framing.Fits body ∧ r.2 = Framing.frame body) ∧
    (∃ i, s.out.wire = (s.conn.replies.map Prod.snd).flatten ++ s.out.part i ∧ (∀ j, j ≠ i → s.out.part j = []) ∧
      (s.out.part i = [] ∨ s.conn.HasPart loads repr i (s.out.part i))) ∧
    ((∀ i, s.out.part i = []) → s.out.wire = (s.conn.replies.map Prod.snd).flatten) := by
  intro s
  obtain ⟨hok, hwhole⟩ : s.Ok loads repr ∧ s.out.Whole := ok_whole_run h
  refine ⟨?_, ?_, ?_⟩
  · intro r hr
    obtain ⟨body, hpages, hbody⟩ := hok.replies r hr
    exact ⟨body, hpages, hpages.fits, hbody⟩
  · rw [← hok.finished]
    obtain ⟨i, halone, hwire⟩ := hwhole
    exact ⟨i, hwire, halone, hok.parts i⟩
  · intro hall
    rw [← hok.finished]
    exact hwhole.items hall

/-- A prompt frame the bridge ships. -/
def promptFrame (s : String) : SocketEvent := .event (.frame ((str s).map UInt8.ofNat))

/-- Two prompts are read, and each is given its reply. -/
def twoAnswered : List SocketEvent :=
  [promptFrame "prompt:A\nmath:\n", promptFrame "prompt:B\nmath:\n", .event (.acquire 0), .event (.acquire 1),
    .event (.answer 0 (.failed (str "a"))), .event (.answer 1 (.failed (str "b")))]

/-- Two worker threads: the second writes its frame in two pieces, and behind
it the first writes its own in two. -/
theorem two_workers_unmixed :
    let es := twoAnswered ++ ([0, 200].map (.write 1) ++ [0, 200].map (.write 0))
    let s := (run (Socket.step (fun _ => none) fun _ => []) .init es).1
    s.conn.replies.map Prod.fst = [1, 0] ∧ s.out.wire = (s.conn.replies.map Prod.snd).flatten := by
  intro es
  have hevents : Holds (Socket.step (fun _ => none) fun _ => []) WritesAlone .init twoAnswered :=
    ⟨writesAlone_event _ _, writesAlone_event _ _, writesAlone_event _ _, writesAlone_event _ _, writesAlone_event _ _,
      writesAlone_event _ _, trivial⟩
  have halone : Holds (Socket.step (fun _ => none) fun _ => []) WritesAlone .init es :=
    holds_append.2 ⟨hevents, writes_in_turn (fun _ _ => rfl) (by decide +kernel)⟩
  have hsent : ∀ t ∈ (run (Socket.step (fun _ => none) fun _ => []) .init es).1.conn.threads, t.stage = .done true := by
    decide +kernel
  have hparts := (ok_whole_run halone).1.parts_of_sent hsent
  exact ⟨by decide +kernel, (frames_unmixed (fun _ => none) (fun _ => []) es halone).2.2 hparts⟩

/-- An empty frame and less than a frame behind it is no list of frames. -/
theorem not_frames {wire : Bytes} (hhead : wire = Framing.frame [] ++ wire.drop 4) (hrest : Framing.Incomplete (wire.drop 4))
    (hmore : wire.drop 4 ≠ []) :
    ¬ ∃ bodies : List Bytes, (∀ body ∈ bodies, Framing.Fits body) ∧ wire = bodies.flatMap Framing.frame := by
  rintro ⟨bodies, hfits, hwire⟩
  have hempty : ∀ body ∈ [[]], Framing.Fits body := by simp [Framing.Fits]
  have hnil : Framing.Incomplete [] := by decide
  have hbodies : bodies.flatMap Framing.frame ++ [] = [[]].flatMap Framing.frame ++ wire.drop 4 := by
    rw [List.append_nil, ← hwire, List.flatMap_singleton, ← hhead]
  exact hmore (Framing.frames_unique hfits hempty hnil hrest hbodies).2.symm

/-- Two worker threads: the second writes its frame after two bytes of the first's. -/
theorem frames_mixed :
    let es := [promptFrame "prompt:A\nmath:\n", promptFrame "prompt:B\nmath:\n", .event (.acquire 0), .event (.acquire 1),
      .event (.answer 0 (.failed (str "a"))), .event (.answer 1 (.failed (str "b"))), .write 0 1, .write 1 200, .write 0 200]
    let s := (run (Socket.step (fun _ => none) fun _ => []) .init es).1
    s.conn.threads.map (·.stage) = [.done true, .done true] ∧
      ¬ ∃ bodies : List Bytes, (∀ body ∈ bodies, Framing.Fits body) ∧ s.out.wire = bodies.flatMap Framing.frame := by
  exact ⟨by decide +kernel, not_frames (by decide +kernel) (by decide +kernel) (by decide +kernel)⟩

end CalcBridge.Relay
