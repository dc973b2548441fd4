import CalcBridge.Console
/-!
# Lost connections of the page (`tools/console.py`, `connect`)

The fetch may fail and the stream may end. The page then opens the stream, by
itself or after `retry`, and goes on: it asks for nothing that it has missed.
-/
open LinkLib LinkLib.Runs

namespace CalcBridge.Console

variable {ε : Type}

inductive Line (ε : Type) where
  | server (e : Event ε)
  /-- The `catch` of `connect`. -/
  | fails
  /-- The stream ends, and its queue with it. -/
  | drops

def State.nextLine (s : State ε) : Line ε → State ε
  | .server e => s.next e
  | .fails => if s.stage = .opened then { s with stage := .loaded } else s
  | .drops => if s.stage = .streaming then { s with stage := .loaded, queue := [] } else s

def State.stepLine (s : State ε) (a : Line ε) : State ε × Unit := (s.nextLine a, ())

/-- Nothing gets past the page in this step. -/
def State.Lossless (s : State ε) : Line ε → Prop
  | .server e => s.NoGap e ∧ s.Room e
  | .fails => s.stage = .opened → s.store.rows = []
  | .drops => s.stage = .streaming → s.queue = []

/-! ## One step -/

theorem next_fails {s : State ε} (hstage : s.stage = .opened) : s.nextLine .fails = { s with stage := .loaded } := if_pos hstage

theorem next_drops {s : State ε} (hstage : s.stage = .streaming) :
    s.nextLine .drops = { s with stage := .loaded, queue := [] } :=
  if_pos hstage

theorem State.Inv.nextLine {s : State ε} (h : s.Inv) (a : Line ε) : (s.nextLine a).Inv := by
  cases a with
  | server e => exact h.next e
  | fails =>
    by_cases hstage : s.stage = .opened
    · rw [next_fails hstage]
      exact ⟨nofun, fun _ => h.queue_of hstage nofun, h.seen⟩
    · rwa [State.nextLine, if_neg hstage]
  | drops =>
    by_cases hstage : s.stage = .streaming
    · rw [next_drops hstage]
      refine ⟨nofun, fun _ => rfl, ?_⟩
      rw [State.seen, List.append_nil]
      exact (List.sublist_append_left _ _).trans h.seen
    · rwa [State.nextLine, if_neg hstage]

/-- A row that is stored and not seen is never seen. -/
theorem not_complete_of_longer {s : State ε} (h : s.Inv) {ev : ε} (hopened : s.stage ≠ .opened)
    (hseen : (s.next (.insert ev)).seen = s.seen) : ¬(s.next (.insert ev)).Complete := by
  intro hcomplete
  have hlength := congrArg List.length (hcomplete hopened)
  have hle := h.seen.length_le
  rw [hseen, rows_insert, List.length_append, List.length_singleton] at hlength
  omega

theorem complete_server {s : State ε} (h : s.Inv) (e : Event ε) :
    (s.next e).Complete ↔ s.Complete ∧ s.Lossless (.server e) := by
  by_cases hroom : s.Room e
  · rw [complete_next h e hroom]
    exact and_congr_right' (and_iff_left hroom).symm
  · apply iff_of_false
    · -- Only an insert can find the queue full.
      cases e with
      | insert ev =>
        obtain ⟨hstage, hfull⟩ := Classical.not_imp.1 hroom
        have hne : s.stage ≠ .opened := hstage ▸ (by decide)
        exact not_complete_of_longer h hne (seen_insert_of_not_room ev fun hs => hfull hs.2)
      | events | stream | deliver => exact absurd trivial hroom
    · exact fun hs => hroom hs.2.2

theorem complete_fails {s : State ε} (h : s.Inv) :
    (s.nextLine .fails).Complete ↔ s.Complete ∧ s.Lossless .fails := by
  by_cases hstage : s.stage = .opened
  · have hqueue : s.queue = [] := h.queue_of hstage (by decide)
    have hseen : s.seen = [] := by rw [State.seen, h.appended hstage, hqueue, List.append_nil]
    have hloaded : Stage.loaded ≠ .opened := by decide
    rw [next_fails hstage]
    constructor
    · intro hcomplete
      have hrows : s.seen = s.store.rows := hcomplete hloaded
      exact ⟨absurd hstage, fun _ => hrows.symm.trans hseen⟩
    · rintro ⟨-, hempty⟩ -
      exact hseen.trans (hempty hstage).symm
  · rw [State.nextLine, if_neg hstage]
    exact (and_iff_left fun hopened => absurd hopened hstage).symm

/-- What is in the queue when the stream ends is gone. -/
theorem complete_drops {s : State ε} (h : s.Inv) :
    (s.nextLine .drops).Complete ↔ s.Complete ∧ s.Lossless .drops := by
  by_cases hstage : s.stage = .streaming
  · have hne : s.stage ≠ .opened := hstage ▸ (by decide)
    have hloaded : Stage.loaded ≠ .opened := by decide
    rw [next_drops hstage]
    constructor
    · intro hcomplete
      have hrows : s.appended ++ [] = s.store.rows := hcomplete hloaded
      rw [List.append_nil] at hrows
      have hlength := h.seen.length_le
      rw [State.seen, List.length_append, ← hrows] at hlength
      have hqueue : s.queue = [] := List.length_eq_zero_iff.1 (by omega)
      exact ⟨fun _ => by rw [State.seen, hqueue, List.append_nil, hrows], fun _ => hqueue⟩
    · rintro ⟨hcomplete, hempty⟩ -
      have hrows := hcomplete hne
      rw [State.seen, hempty hstage] at hrows
      exact hrows
  · rw [State.nextLine, if_neg hstage]
    exact (and_iff_left fun hstreaming => absurd hstreaming hstage).symm

theorem complete_line {s : State ε} (h : s.Inv) (a : Line ε) : (s.nextLine a).Complete ↔ s.Complete ∧ s.Lossless a := by
  cases a with
  | server e => exact complete_server h e
  | fails => exact complete_fails h
  | drops => exact complete_drops h

/-! ## Whole runs -/

theorem lines_run {s : State ε} (h : s.Inv) (as : List (Line ε)) :
    (run State.stepLine s as).1.Inv ∧
      ((run State.stepLine s as).1.Complete ↔ s.Complete ∧ Holds State.stepLine State.Lossless s as) := by
  induction as generalizing s with
  | nil => exact ⟨h, (and_iff_left trivial).symm⟩
  | cons a as ih =>
    obtain ⟨hinv, hcomplete⟩ := ih (h.nextLine a)
    refine ⟨hinv, hcomplete.trans ?_⟩
    rw [Holds, ← and_assoc]
    exact and_congr_left' (complete_line h a)

/-- However often the fetch fails, the stream ends and the queue overflows, the
page has each row at most once and in the stored order. It has each once
exactly when no step has let anything past. -/
theorem once_over_lines (history : Store ε) (as : List (Line ε)) :
    let s := (run State.stepLine (.init history) as).1
    (s.seen.Sublist s.store.rows ∧ s.seen.Pairwise fun r r' => r.id < r'.id) ∧
      (s.stage ≠ .opened → (s.EachOnce ↔ Holds State.stepLine State.Lossless (.init history) as)) := by
  intro s
  obtain ⟨hinv, hcomplete⟩ := lines_run (State.inv_init history) as
  have hinit : (State.init history).Complete := absurd rfl
  refine ⟨⟨hinv.seen, s.store.sorted.sublist hinv.seen⟩, fun hne => ?_⟩
  rw [eachOnce_iff hinv, ← and_iff_right (b := Holds State.stepLine State.Lossless _ as) hinit, ← hcomplete]
  exact ⟨fun hrows _ => hrows, fun hrows => hrows hne⟩

/-- The fetch fails on an empty table, and the stream ends once while nothing comes. -/
theorem once_over_lines_two :
    (run State.stepLine (.init Store.empty) [.fails, .server .stream, .server (.insert true), .server .deliver, .drops,
      .server .stream, .server (.insert false)]).1.EachOnce :=
  ((once_over_lines Store.empty [.fails, .server .stream, .server (.insert true), .server .deliver, .drops,
      .server .stream, .server (.insert false)]).2 nofun).2
    (by simp [Holds, State.Lossless, State.NoGap, State.Room, State.stepLine, State.nextLine, State.next, State.init,
      Store.empty, queueMax])

end CalcBridge.Console
