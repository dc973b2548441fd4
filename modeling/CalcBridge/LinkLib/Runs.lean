import Mathlib.Data.List.Basic
/-!
# Runs of a machine that shows something at each step

`step s e` is the state after event `e` and what the outside sees of it. A
history is the list of events with what each one showed. `run_inv` carries an
invariant over the history and the state through a run whose steps all meet a
condition, so properties of whole runs come from one lemma about one step.
-/

namespace LinkLib.Runs

variable {σ ε ω : Type}

/-- The state after the events, and the history. -/
def run (step : σ → ε → σ × ω) : σ → List ε → σ × List (ε × ω)
  | s, [] => (s, [])
  | s, e :: es =>
    let r := step s e
    let t := run step r.1 es
    (t.1, (e, r.2) :: t.2)

/-- Every step of the run is taken from a state and an event that meet `Ok`. -/
def Holds (step : σ → ε → σ × ω) (Ok : σ → ε → Prop) : σ → List ε → Prop
  | _, [] => True
  | s, e :: es => Ok s e ∧ Holds step Ok (step s e).1 es

instance decidableHolds (step : σ → ε → σ × ω) (Ok : σ → ε → Prop) [∀ s e, Decidable (Ok s e)] :
    ∀ s es, Decidable (Holds step Ok s es)
  | _, [] => isTrue trivial
  | s, e :: es =>
    have := decidableHolds step Ok (step s e).1 es
    inferInstanceAs (Decidable (Ok s e ∧ Holds step Ok (step s e).1 es))

variable {step : σ → ε → σ × ω}

@[simp] theorem run_nil (s : σ) : run step s [] = (s, []) := rfl

@[simp] theorem run_cons (s : σ) (e : ε) (es : List ε) :
    run step s (e :: es) = ((run step (step s e).1 es).1, (e, (step s e).2) :: (run step (step s e).1 es).2) := rfl

theorem run_append (s : σ) (es es' : List ε) :
    run step s (es ++ es') =
      ((run step (run step s es).1 es').1, (run step s es).2 ++ (run step (run step s es).1 es').2) := by
  induction es generalizing s with
  | nil => rfl
  | cons e es ih => simp [ih]

/-- The history lists the events of the run, in order. -/
theorem run_events (s : σ) (es : List ε) : (run step s es).2.map Prod.fst = es := by
  induction es generalizing s with
  | nil => rfl
  | cons e es ih => simp [ih]

@[simp] theorem length_run (s : σ) (es : List ε) : (run step s es).2.length = es.length := by
  rw [← List.length_map Prod.fst, run_events]

/-- Entry `k` is event `k` taken from the state the first `k` events led to,
and the entries before it are the history of those. -/
theorem run_entry {s : σ} {es : List ε} {k : Nat} {e : ε} {o : ω} (h : (run step s es).2[k]? = some (e, o)) :
    es[k]? = some e ∧ o = (step (run step s (es.take k)).1 e).2 ∧
      (run step s es).2.take k = (run step s (es.take k)).2 ∧
      (run step s (es.take (k + 1))).1 = (step (run step s (es.take k)).1 e).1 := by
  induction es generalizing s k with
  | nil => simp at h
  | cons e' es ih =>
    cases k with
    | zero =>
      simp only [run_cons, List.getElem?_cons_zero, Option.some.injEq, Prod.mk.injEq] at h
      obtain ⟨rfl, rfl⟩ := h
      simp
    | succ k =>
      rw [run_cons, List.getElem?_cons_succ] at h
      obtain ⟨h1, h2, h3, h4⟩ := ih h
      refine ⟨h1, h2, ?_, h4⟩
      rw [run_cons, List.take_succ_cons, List.take_succ_cons, run_cons, h3]

theorem holds_of_forall {Q : ε → Prop} (s : σ) (es : List ε) (h : ∀ e ∈ es, Q e) :
    Holds step (fun _ e => Q e) s es := by
  induction es generalizing s with
  | nil => trivial
  | cons e es ih => exact ⟨h e (by simp), ih _ (fun e' he => h e' (by simp [he]))⟩

theorem holds_append {Ok : σ → ε → Prop} {s : σ} {es es' : List ε} :
    Holds step Ok s (es ++ es') ↔ Holds step Ok s es ∧ Holds step Ok (run step s es).1 es' := by
  induction es generalizing s with
  | nil => simp [Holds]
  | cons e es ih => rw [List.cons_append, Holds, Holds, ih, run_cons, and_assoc]

theorem holds_take {Ok : σ → ε → Prop} {s : σ} {es : List ε} (h : Holds step Ok s es) (k : Nat) :
    Holds step Ok s (es.take k) := by
  rw [← List.take_append_drop k es, holds_append] at h
  exact h.1

/-- A property of every entry is a condition on every step. -/
theorem forall_entries_iff {P : ε → ω → Prop} (s : σ) (es : List ε) :
    (∀ e ∈ (run step s es).2, P e.1 e.2) ↔ Holds step (fun s e => P e (step s e).2) s es := by
  induction es generalizing s with
  | nil => simp [Holds]
  | cons e es ih => rw [run_cons, List.forall_mem_cons, ih, Holds]

/-- A kept invariant that allows every step. -/
theorem holds_of_inv {I : σ → Prop} {Ok : σ → ε → Prop} (hI : ∀ s e, I s → Ok s e → I (step s e).1)
    (hOk : ∀ s e, I s → Ok s e) {s : σ} (hs : I s) (es : List ε) : Holds step Ok s es := by
  induction es generalizing s with
  | nil => trivial
  | cons e es ih => exact ⟨hOk s e hs, ih (hI s e hs (hOk s e hs))⟩

/-- Conditions that agree wherever a kept invariant holds. -/
theorem holds_congr {I : σ → Prop} {A B : σ → ε → Prop} (hI : ∀ s e, I s → I (step s e).1)
    (hAB : ∀ s e, I s → (A s e ↔ B s e)) {s : σ} (hs : I s) (es : List ε) : Holds step A s es ↔ Holds step B s es := by
  induction es generalizing s with
  | nil => exact Iff.rfl
  | cons e es ih => rw [Holds, Holds, hAB s e hs, ih (hI s e hs)]

/-- The condition holds where entry `k` is taken. -/
theorem holds_entry {Ok : σ → ε → Prop} {s : σ} {es : List ε} (h : Holds step Ok s es) {k : Nat} {e : ε}
    (he : es[k]? = some e) : Ok (run step s (es.take k)).1 e := by
  induction es generalizing s k with
  | nil => simp at he
  | cons e' es ih =>
    cases k with
    | zero =>
      rw [List.getElem?_cons_zero] at he
      cases he
      exact h.1
    | succ k => exact ih h.2 (by rwa [List.getElem?_cons_succ] at he)

/-- An invariant of a run that starts after the history `h`. -/
theorem run_inv_from {Ok : σ → ε → Prop} (I : List (ε × ω) → σ → Prop)
    (hstep : ∀ h s e, Ok s e → I h s → I (h ++ [(e, (step s e).2)]) (step s e).1)
    (es : List ε) {h : List (ε × ω)} {s : σ} (hI : I h s) (hok : Holds step Ok s es) :
    I (h ++ (run step s es).2) (run step s es).1 := by
  induction es generalizing h s with
  | nil => simpa using hI
  | cons e es ih =>
    have := ih (hstep h s e hok.1 hI) hok.2
    simpa using this

/-- What holds at the start and is kept by every step that meets `Ok` holds
after every run whose steps all meet it. -/
theorem run_inv {Ok : σ → ε → Prop} (I : List (ε × ω) → σ → Prop) {s : σ} (h0 : I [] s)
    (hstep : ∀ h s e, Ok s e → I h s → I (h ++ [(e, (step s e).2)]) (step s e).1)
    (es : List ε) (hok : Holds step Ok s es) : I (run step s es).2 (run step s es).1 := by
  simpa using run_inv_from I hstep es h0 hok

/-- What every step keeps holds after every run. -/
theorem run_keeps (I : List (ε × ω) → σ → Prop) {s : σ} (h0 : I [] s)
    (hstep : ∀ h s e, I h s → I (h ++ [(e, (step s e).2)]) (step s e).1) (es : List ε) :
    I (run step s es).2 (run step s es).1 :=
  run_inv I h0 (fun h s e (_ : True) hi => hstep h s e hi) es (holds_of_forall s es fun _ _ => trivial)

end LinkLib.Runs
