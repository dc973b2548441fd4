import CalcBridge.LinkLib.Runs
import Mathlib.Data.List.Nodup
import Mathlib.Data.List.Perm.Subperm
/-!
# The console page (`tools/console.py`)

A page loads in two requests: a snapshot of the stored events, then the stream
of new ones. Inserts come at any time. A handler runs to its next suspension
point alone, so a step is one `Store.insert`, one request or one streamed event.
-/
open LinkLib LinkLib.Runs

namespace CalcBridge.Console

variable {ε : Type}

/-- A stored event. -/
structure Row (ε : Type) where
  id : Nat
  ev : ε
  deriving DecidableEq, Repr

/-- The table `events`, in the order of the ids that the database counts up from 1. -/
structure Store (ε : Type) where
  rows : List (Row ε)
  sorted : rows.Pairwise (·.id < ·.id)
  positive : ∀ r ∈ rows, 0 < r.id

/-- The id of the next row. -/
def Store.nextId (s : Store ε) : Nat := (s.rows.getLast?.map Row.id).getD 0 + 1

theorem Store.lt_nextId (s : Store ε) : ∀ r ∈ s.rows, r.id < s.nextId := by
  intro r hr
  have hne := List.ne_nil_of_mem hr
  have hrows := List.dropLast_append_getLast hne
  have hid : s.nextId = (s.rows.getLast hne).id + 1 := by
    rw [Store.nextId, List.getLast?_eq_getLast_of_ne_nil hne]
    rfl
  have hsorted := s.sorted
  rw [← hrows, List.pairwise_append] at hsorted
  rw [hid, Nat.lt_succ_iff]
  rw [← hrows, List.mem_append, List.mem_singleton] at hr
  rcases hr with hr | rfl
  · exact Nat.le_of_lt (hsorted.2.2 r hr _ (List.mem_singleton_self _))
  · exact Nat.le_refl _

/-- `Store.insert`, in the table. -/
def Store.insert (s : Store ε) (ev : ε) : Store ε where
  rows := s.rows ++ [⟨s.nextId, ev⟩]
  sorted := by
    rw [List.pairwise_append]
    refine ⟨s.sorted, List.pairwise_singleton .., ?_⟩
    intro r hr r' hr'
    rw [List.mem_singleton.1 hr']
    exact s.lt_nextId r hr
  positive := by
    rw [List.forall_mem_append]
    refine ⟨s.positive, ?_⟩
    intro r hr
    rw [List.mem_singleton.1 hr]
    exact Nat.succ_pos _

/-- `Store.recent`. -/
def Store.recent (s : Store ε) (since limit : Nat) : List (Row ε) := (s.rows.filter fun r => since < r.id).take limit

/-- Where the page is in `connect`. -/
inductive Stage where
  | opened
  | loaded
  | streaming
  deriving DecidableEq, Repr

/-- The store, and one page: what it has appended and its subscriber queue. -/
structure State (ε : Type) where
  store : Store ε
  stage : Stage
  appended : List (Row ε)
  queue : List (Row ε)

inductive Event (ε : Type) where
  | insert (ev : ε)
  /-- `GET /api/events?limit=200`. -/
  | events
  /-- `GET /api/stream`. -/
  | stream
  /-- The stream sends what is next in the queue. -/
  | deliver

/-- `asyncio.Queue(maxsize=1024)`. -/
def queueMax : Nat := 1024

/-- One step. A request that the page does not make at this stage changes nothing. -/
def State.next (s : State ε) : Event ε → State ε
  | .insert ev =>
    let row : Row ε := ⟨s.store.nextId, ev⟩
    -- The QueueFull of `put_nowait` is ignored.
    { s with
      store := s.store.insert ev
      queue := if s.stage = .streaming ∧ s.queue.length < queueMax then s.queue ++ [row] else s.queue }
  | .events => if s.stage = .opened then { s with stage := .loaded, appended := s.store.recent 0 200 } else s
  | .stream => if s.stage = .loaded then { s with stage := .streaming, queue := [] } else s
  | .deliver =>
    match s.queue with
    | [] => s
    | row :: rows => { s with appended := s.appended ++ [row], queue := rows }

def State.step (s : State ε) (e : Event ε) : State ε × Unit := (s.next e, ())

/-- A page is opened on a stored history. -/
def State.init (history : Store ε) : State ε := ⟨history, .opened, [], []⟩

/-- The snapshot, followed by what the stream has sent and will send. -/
def State.seen (s : State ε) : List (Row ε) := s.appended ++ s.queue

/-- Every stored event is seen once, in increasing id order. -/
def State.EachOnce (s : State ε) : Prop :=
  (s.seen.Pairwise fun r r' => r.id < r'.id) ∧ ∀ r ∈ s.store.rows, r ∈ s.seen ∧ (s.seen.map Row.id).count r.id = 1

instance [DecidableEq ε] (s : State ε) : Decidable s.EachOnce := inferInstanceAs (Decidable (_ ∧ _))

/-- The queue does not overflow. -/
def State.Room (s : State ε) : Event ε → Prop
  | .insert _ => s.stage = .streaming → s.queue.length < queueMax
  | _ => True

/-- The snapshot holds the whole table, and nothing is inserted before the subscription. -/
def State.NoGap (s : State ε) : Event ε → Prop
  | .insert _ => s.stage ≠ .loaded
  | .events => s.stage = .opened → s.store.rows.length ≤ 200
  | _ => True

/-- What a page may be at any time. -/
structure State.Inv (s : State ε) : Prop where
  appended : s.stage = .opened → s.appended = []
  queue : s.stage ≠ .streaming → s.queue = []
  seen : s.seen.Sublist s.store.rows

/-- Nothing that the page should have is missing. -/
def State.Complete (s : State ε) : Prop := s.stage ≠ .opened → s.seen = s.store.rows

theorem Store.recent_zero (s : Store ε) (limit : Nat) : s.recent 0 limit = s.rows.take limit := by
  have hall : s.rows.filter (fun r => 0 < r.id) = s.rows := by
    apply List.filter_eq_self.2
    intro r hr
    exact decide_eq_true (s.positive r hr)
  rw [Store.recent, hall]

theorem State.inv_init (history : Store ε) : (State.init history).Inv :=
  ⟨fun _ => rfl, fun _ => rfl, List.nil_sublist _⟩

theorem State.Inv.queue_of {s : State ε} (h : s.Inv) {stage : Stage} (hstage : s.stage = stage) (hne : stage ≠ .streaming) :
    s.queue = [] :=
  h.queue (hstage ▸ hne)

theorem next_events {s : State ε} (hstage : s.stage = .opened) :
    s.next .events = { s with stage := .loaded, appended := s.store.recent 0 200 } := if_pos hstage

theorem next_stream {s : State ε} (hstage : s.stage = .loaded) : s.next .stream = { s with stage := .streaming, queue := [] } :=
  if_pos hstage

/-- The snapshot is the beginning of the table. -/
theorem seen_events {s : State ε} (h : s.Inv) (hstage : s.stage = .opened) :
    (s.next .events).seen = s.store.rows.take 200 := by
  rw [next_events hstage, State.seen, h.queue_of hstage nofun, List.append_nil, Store.recent_zero]

/-- The subscription starts with an empty queue. -/
theorem seen_stream {s : State ε} (h : s.Inv) (hstage : s.stage = .loaded) : (s.next .stream).seen = s.seen := by
  rw [next_stream hstage, State.seen, State.seen, h.queue_of hstage nofun]

theorem rows_insert (s : State ε) (ev : ε) :
    (s.next (.insert ev)).store.rows = s.store.rows ++ [⟨s.store.nextId, ev⟩] := rfl

theorem seen_insert_of_room {s : State ε} (ev : ε) (hstage : s.stage = .streaming) (hroom : s.queue.length < queueMax) :
    (s.next (.insert ev)).seen = s.seen ++ [⟨s.store.nextId, ev⟩] := by
  have hqueue : (s.next (.insert ev)).queue = s.queue ++ [⟨s.store.nextId, ev⟩] := if_pos ⟨hstage, hroom⟩
  rw [State.seen, hqueue, ← List.append_assoc]
  rfl

theorem seen_insert_of_not_room {s : State ε} (ev : ε) (hroom : ¬(s.stage = .streaming ∧ s.queue.length < queueMax)) :
    (s.next (.insert ev)).seen = s.seen := by
  have hqueue : (s.next (.insert ev)).queue = s.queue := if_neg hroom
  rw [State.seen, hqueue]
  rfl

/-- A delivery moves a row from the queue to the page. -/
theorem deliver_keeps (s : State ε) :
    (s.next .deliver).store = s.store ∧ (s.next .deliver).stage = s.stage ∧ (s.next .deliver).seen = s.seen := by
  rw [State.next]
  cases hqueue : s.queue with
  | nil => exact ⟨rfl, rfl, rfl⟩
  | cons row rows => exact ⟨rfl, rfl, by rw [State.seen, State.seen, hqueue, List.append_assoc]; rfl⟩

theorem State.Inv.next {s : State ε} (h : s.Inv) (e : Event ε) : (s.next e).Inv := by
  cases e with
  | insert ev =>
    refine ⟨h.appended, ?_, ?_⟩
    · intro hne
      exact (if_neg fun hs => hne hs.1).trans (h.queue hne)
    · rw [rows_insert]
      by_cases hroom : s.stage = .streaming ∧ s.queue.length < queueMax
      · rw [seen_insert_of_room ev hroom.1 hroom.2]
        exact h.seen.append (List.Sublist.refl _)
      · rw [seen_insert_of_not_room ev hroom]
        exact h.seen.trans (List.sublist_append_left _ _)
  | events =>
    by_cases hstage : s.stage = .opened
    · have hseen := seen_events h hstage
      rw [next_events hstage] at hseen ⊢
      refine ⟨nofun, fun _ => h.queue_of hstage nofun, ?_⟩
      rw [hseen]
      exact List.take_sublist _ _
    · rwa [State.next, if_neg hstage]
  | stream =>
    by_cases hstage : s.stage = .loaded
    · have hseen := seen_stream h hstage
      rw [next_stream hstage] at hseen ⊢
      refine ⟨nofun, fun _ => rfl, ?_⟩
      rw [hseen]
      exact h.seen
    · rwa [State.next, if_neg hstage]
  | deliver =>
    obtain ⟨hstore, hstage, hseen⟩ := deliver_keeps s
    refine ⟨?_, ?_, ?_⟩
    · intro hopened
      rw [hstage] at hopened
      have hqueue := h.queue_of hopened nofun
      rw [State.next, hqueue]
      exact h.appended hopened
    · intro hne
      rw [hstage] at hne
      have hqueue := h.queue hne
      rw [State.next, hqueue]
      exact hqueue
    · rw [hstore, hseen]
      exact h.seen

/-- An insert is missed between the two requests. -/
theorem complete_insert {s : State ε} (h : s.Inv) (ev : ε) (hroom : s.Room (.insert ev)) :
    (s.next (.insert ev)).Complete ↔ s.Complete ∧ s.NoGap (.insert ev) := by
  cases hstage : s.stage with
  | opened =>
    have hopened : (s.next (.insert ev)).stage = .opened := hstage
    exact iff_of_true (absurd hopened) ⟨absurd hstage, by rw [State.NoGap, hstage]; exact nofun⟩
  | loaded =>
    have hne : s.stage ≠ .streaming := by rw [hstage]; exact nofun
    have hne' : s.stage ≠ .opened := by rw [hstage]; exact nofun
    apply iff_of_false
    · -- The row is in the table and nowhere else.
      intro hcomplete
      have hlength := congrArg List.length (hcomplete hne')
      have hle := h.seen.length_le
      rw [seen_insert_of_not_room ev fun hs => hne hs.1, rows_insert, List.length_append, List.length_singleton] at hlength
      omega
    · exact fun hs => hs.2 hstage
  | streaming =>
    have hne : s.stage ≠ .opened := by rw [hstage]; exact nofun
    have hseen := seen_insert_of_room ev hstage (hroom hstage)
    constructor
    · intro hcomplete
      have hboth := hcomplete hne
      rw [hseen, rows_insert] at hboth
      exact ⟨fun _ => List.append_cancel_right hboth, by rw [State.NoGap, hstage]; exact nofun⟩
    · rintro ⟨hcomplete, -⟩ -
      rw [hseen, rows_insert, hcomplete hne]

/-- A step without overflow keeps a page complete exactly when it opens no gap. -/
theorem complete_next {s : State ε} (h : s.Inv) (e : Event ε) (hroom : s.Room e) :
    (s.next e).Complete ↔ s.Complete ∧ s.NoGap e := by
  cases e with
  | insert ev => exact complete_insert h ev hroom
  | events =>
    by_cases hstage : s.stage = .opened
    · have hrows : (s.next .events).store.rows = s.store.rows := by rw [next_events hstage]
      rw [State.Complete, seen_events h hstage, hrows]
      constructor
      · intro hcomplete
        have hlength := congrArg List.length (hcomplete (by rw [next_events hstage]; exact nofun))
        rw [List.length_take] at hlength
        exact ⟨absurd hstage, fun _ => by omega⟩
      · rintro ⟨-, hlength⟩ -
        exact List.take_of_length_le (hlength hstage)
    · rw [State.next, if_neg hstage]
      exact (and_iff_left fun hopened => absurd hopened hstage).symm
  | stream =>
    by_cases hstage : s.stage = .loaded
    · have hrows : (s.next .stream).store.rows = s.store.rows := by rw [next_stream hstage]
      rw [State.Complete, State.Complete, seen_stream h hstage, hrows, hstage]
      exact ⟨fun hcomplete => ⟨fun _ => hcomplete (by rw [next_stream hstage]; exact nofun), trivial⟩,
        fun hcomplete _ => hcomplete.1 nofun⟩
    · rw [State.next, if_neg hstage]
      exact (and_iff_left trivial).symm
  | deliver =>
    obtain ⟨hstore, hstage, hseen⟩ := deliver_keeps s
    rw [State.Complete, State.Complete, hstore, hstage, hseen]
    exact (and_iff_left trivial).symm

/-- A run without overflow leaves a page complete exactly when it opened no gap. -/
theorem complete_run {s : State ε} (h : s.Inv) (es : List (Event ε)) (hroom : Holds State.step State.Room s es) :
    (run State.step s es).1.Inv ∧
      ((run State.step s es).1.Complete ↔ s.Complete ∧ Holds State.step State.NoGap s es) := by
  induction es generalizing s with
  | nil => exact ⟨h, (and_iff_left trivial).symm⟩
  | cons e es ih =>
    obtain ⟨hinv, hcomplete⟩ := ih (h.next e) hroom.2
    refine ⟨hinv, hcomplete.trans ?_⟩
    rw [Holds, ← and_assoc]
    exact and_congr_left' (complete_next h e hroom.1)

/-- To see each stored event once is to see the table. -/
theorem eachOnce_iff {s : State ε} (h : s.Inv) : s.EachOnce ↔ s.seen = s.store.rows := by
  have hsorted := s.store.sorted
  constructor
  · rintro ⟨-, hall⟩
    have hnodup : s.store.rows.Nodup := hsorted.imp fun hlt => by rintro rfl; exact Nat.lt_irrefl _ hlt
    apply h.seen.eq_of_length_le
    exact (hnodup.subperm fun r hr => (hall r hr).1).length_le
  · intro hrows
    rw [State.EachOnce, hrows]
    refine ⟨hsorted, ?_⟩
    intro r hr
    have hids : (s.store.rows.map Row.id).Nodup := by
      apply (List.pairwise_map.2 hsorted).imp
      exact Nat.ne_of_lt
    exact ⟨hr, List.count_eq_one_of_mem hids (List.mem_map_of_mem hr)⟩

/-- A page that subscribed, with no overflow on the way, shows each event once
exactly when the snapshot held the whole table and nothing was inserted between
the two requests. -/
theorem each_once_iff (history : Store ε) (es : List (Event ε))
    (hroom : Holds State.step State.Room (State.init history) es)
    (hstream : (run State.step (State.init history) es).1.stage = .streaming) :
    (run State.step (State.init history) es).1.EachOnce ↔ Holds State.step State.NoGap (State.init history) es := by
  obtain ⟨hinv, hcomplete⟩ := complete_run (State.inv_init history) es hroom
  have hne : (run State.step (State.init history) es).1.stage ≠ .opened := by rw [hstream]; exact nofun
  have hinit : (State.init history).Complete := absurd rfl
  rw [eachOnce_iff hinv, ← and_iff_right (b := Holds State.step State.NoGap _ es) hinit, ← hcomplete]
  exact ⟨fun hrows _ => hrows, fun hrows => hrows hne⟩

def Store.empty : Store ε := ⟨[], List.Pairwise.nil, nofun⟩

/-- An event before the snapshot, and one from the stream. -/
theorem each_once_iff_two :
    (run State.step (State.init Store.empty) [.insert true, .events, .stream, .insert false, .deliver]).1.EachOnce :=
  (each_once_iff Store.empty [.insert true, .events, .stream, .insert false, .deliver]
    (by simp [Holds, State.Room, State.step, State.next, State.init, queueMax]) rfl).2
    (by simp [Holds, State.NoGap, State.step, State.next, State.init, Store.insert, Store.empty])

/-- The event that comes between the snapshot and the subscription is never shown. -/
theorem between_not_each_once :
    let s := (run State.step (State.init Store.empty) [.events, .insert true, .stream]).1
    Holds State.step State.Room (State.init Store.empty) [.events, Event.insert true, .stream] ∧
      s.stage = .streaming ∧ s.store.rows = [⟨1, true⟩] ∧ s.seen = [] ∧ ¬s.EachOnce := by
  refine ⟨?_, rfl, rfl, rfl, by decide⟩
  simp [Holds, State.Room, State.step, State.next, State.init]

end CalcBridge.Console
