import CalcBridge.LinkLib.Bytes
import CalcBridge.LinkLib.Runs
/-!
# The active client (`tools/relay_server.py`)

Every handler thread writes the one slot `_active_client` when its client
connects and clears it when it ends, each under the lock. `_send_to_active`
reads it under the lock and writes to what it read afterwards. A run interleaves
the threads of any number of clients with the one that reads typed lines.
-/
open LinkLib LinkLib.Runs

namespace CalcBridge.Relay

/-- Where a client's handler thread is. -/
inductive Phase where
  /-- Not yet at `_set_active`. -/
  | accepted
  | serving
  /-- Past its `finally`. -/
  | finished
  deriving DecidableEq, Repr

/-- The slot, the handler threads, the clients in the order they connected, the
latest first, and the socket and the frame that `_send_to_active` has yet to write. -/
structure Slot (α : Type) where
  active : Option α
  phase : α → Phase
  order : List α
  picked : Option (α × Bytes)

/-- A thread's next locked section, or the `sendall` behind the one of `_send_to_active`. -/
inductive Turn (α : Type) where
  | handler (client : α)
  | picks (payload : Bytes)
  | writes
  deriving DecidableEq

variable {α : Type} [DecidableEq α]

def Slot.init : Slot α := ⟨none, fun _ => .accepted, [], none⟩

/-- `_set_active(self.request)`, or the end of `FramedHandler.handle`. -/
def Slot.move (s : Slot α) (c : α) : Slot α :=
  match s.phase c with
  | .accepted => { s with active := some c, phase := Function.update s.phase c .serving, order := c :: s.order }
  | .serving => { s with active := if s.active = some c then none else s.active, phase := Function.update s.phase c .finished }
  | .finished => s

/-- `_send_to_active`: the socket it writes to, and the frame. -/
def Slot.sendToActive (s : Slot α) (payload : Bytes) : Option (α × Bytes) :=
  s.active.map fun sock => (sock, Bytes.toBe 4 payload.length ++ payload)

/-- A turn, and what is written in it. The next line is read when the last one is written. -/
def Slot.step (s : Slot α) : Turn α → Slot α × Option (α × Bytes)
  | .handler c => (s.move c, none)
  | .picks payload => (if s.picked = none then { s with picked := s.sendToActive payload } else s, none)
  | .writes => ({ s with picked := none }, s.picked)

/-- The slot holds the latest client, as long as it is connected. -/
def Slot.Latest (s : Slot α) : Prop := ∀ c, s.active = some c ↔ s.order.head? = some c ∧ s.phase c = .serving

theorem Slot.Latest.move {s : Slot α} (h : s.Latest) (c : α) : (s.move c).Latest := by
  intro c'
  unfold Slot.move
  cases hphase : s.phase c with
  | accepted =>
    dsimp only
    rw [List.head?_cons, Option.some.injEq]
    constructor
    · rintro rfl
      exact ⟨rfl, Function.update_self ..⟩
    · exact And.left
  | serving =>
    dsimp only
    by_cases hc : c' = c
    · subst hc
      rw [Function.update_self]
      apply iff_of_false
      · split
        · exact nofun
        · assumption
      · exact nofun
    · rw [Function.update_of_ne hc, ← h c']
      split
      · rename_i hactive
        rw [hactive, Option.some.injEq]
        exact iff_of_false nofun (Ne.symm hc)
      · rfl
  | finished => exact h c'

/-- The line was typed when its socket was that of the latest client, still connected. -/
def Slot.PickedIn (es : List (Turn α)) (s : Slot α) : Prop :=
  ∀ c frame, s.picked = some (c, frame) → ∃ front payload rest, es = front ++ .picks payload :: rest ∧
    frame = Bytes.toBe 4 payload.length ++ payload ∧
    let t := (run Slot.step Slot.init front).1
    t.order.head? = some c ∧ t.phase c = .serving

theorem Slot.move_picked (s : Slot α) (c : α) : (s.move c).picked = s.picked := by
  unfold Slot.move
  split <;> rfl

/-- What was picked stays picked in earlier turns. -/
theorem Slot.PickedIn.later {es : List (Turn α)} {s s' : Slot α} (h : s.PickedIn es) (hsame : s'.picked = s.picked)
    (e : Turn α) : s'.PickedIn (es ++ [e]) := by
  intro c frame hpicked
  obtain ⟨front, payload, rest, hes, hframe, hlatest⟩ := h c frame (hsame ▸ hpicked)
  exact ⟨front, payload, rest ++ [e], by rw [hes, List.append_assoc, List.cons_append], hframe, hlatest⟩

theorem latest_run (es : List (Turn α)) :
    (run Slot.step Slot.init es).1.Latest ∧ (run Slot.step Slot.init es).1.PickedIn es := by
  let I (h : List (Turn α × Option (α × Bytes))) (s : Slot α) : Prop :=
    s = (run Slot.step Slot.init (h.map Prod.fst)).1 ∧ s.Latest ∧ s.PickedIn (h.map Prod.fst)
  have hinit : I [] Slot.init := ⟨rfl, fun c => iff_of_false nofun nofun, nofun⟩
  have hstep (h : List (Turn α × Option (α × Bytes))) (s : Slot α) (e : Turn α) (hI : I h s) :
      I (h ++ [(e, (s.step e).2)]) (s.step e).1 := by
    obtain ⟨hs, hlatest, hpicked⟩ := hI
    have hrun : (s.step e).1 = (run Slot.step Slot.init (h.map Prod.fst ++ [e])).1 := by rw [run_append, ← hs]; rfl
    simp only [I, List.map_append, List.map_cons, List.map_nil]
    refine ⟨hrun, ?_⟩
    cases e with
    | handler c => exact ⟨hlatest.move c, hpicked.later (s.move_picked c) _⟩
    | writes => exact ⟨hlatest, nofun⟩
    | picks payload =>
      rw [Slot.step]
      split
      · refine ⟨hlatest, ?_⟩
        intro c frame hpick
        obtain ⟨sock, hactive, hframe⟩ := Option.map_eq_some_iff.1 hpick
        cases hframe
        refine ⟨h.map Prod.fst, payload, [], rfl, rfl, ?_⟩
        rw [← hs]
        exact (hlatest c).1 hactive
      · exact ⟨hlatest, hpicked.later rfl _⟩
  have hall := (run_keeps I hinit hstep es).2
  rwa [run_events] at hall

/-- In every interleaving the slot holds the most recent connection while that
client is connected and nothing otherwise, and a typed line that is yet to be
written goes to the client that was the latest, and connected, when it was read. -/
theorem active_is_latest (es : List (Turn α)) :
    let s := (run Slot.step Slot.init es).1
    (∀ c, s.active = some c ↔ s.order.head? = some c ∧ s.phase c = .serving) ∧ s.PickedIn es := latest_run es

/-- The client leaves between the two: the line is written to a socket whose handler has finished. -/
example : (run Slot.step (Slot.init : Slot Bool) [.handler true, .picks [0x41], .handler true, .writes]).2.getLast? =
    some (.writes, some (true, [0, 0, 0, 1, 0x41])) := by
  decide

/-- The most recent of the clients still connected. -/
def Slot.latestLive (s : Slot α) : Option α := s.order.find? fun c => s.phase c = .serving

/-- Two clients connect and the second one leaves: the first, still connected, gets nothing more. -/
theorem active_not_latestLive :
    let s := (run Slot.step (Slot.init : Slot Bool) [.handler false, .handler true, .handler true]).1
    s.latestLive = some false ∧ s.active = none := by
  decide

end CalcBridge.Relay
