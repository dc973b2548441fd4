import Mathlib.Data.List.Basic
/-!
# A plan tried in order

The attempts of a plan are made one after the other, and the first that fails
is the last. `ok i` is how attempt `i` ends, counted over the whole log, so it
may be anything the outside decides.
-/

namespace LinkLib.Attempts

variable {α : Type} {ok : Nat → Bool}

/-- The plan is tried after the attempts in `log`: whether all of it went
through, and the log then. -/
def tryAll (ok : Nat → Bool) : List α → List α → Bool × List α
  | [], log => (true, log)
  | a :: plan, log => if ok log.length then tryAll ok plan (log ++ [a]) else (false, log ++ [a])

theorem tryAll_cons_ok {log : List α} (h : ok log.length = true) (a : α) (plan : List α) :
    tryAll ok (a :: plan) log = tryAll ok plan (log ++ [a]) := if_pos h

theorem tryAll_cons_failed {log : List α} (h : ¬ ok log.length = true) (a : α) (plan : List α) :
    tryAll ok (a :: plan) log = (false, log ++ [a]) := if_neg h

theorem tryAll_append (plan plan' log : List α) :
    tryAll ok (plan ++ plan') log =
      if (tryAll ok plan log).1 then tryAll ok plan' (tryAll ok plan log).2 else tryAll ok plan log := by
  induction plan generalizing log with
  | nil => rfl
  | cons a plan ih =>
    rw [List.cons_append]
    by_cases h : ok log.length = true
    · rw [tryAll_cons_ok h, tryAll_cons_ok h, ih]
    · rw [tryAll_cons_failed h, tryAll_cons_failed h]
      rfl

/-- What was tried is the start of the plan, and all of it but the last went
through. Either it is the whole plan, which went through, or the last failed. -/
structure Tried (ok : Nat → Bool) (plan : List α) (start : Nat) (done : List α) (all : Bool) : Prop where
  prefix_plan : done <+: plan
  before_last : ∀ i, i + 1 < done.length → ok (start + i) = true
  went_through : all = true → done = plan ∧ ∀ i < plan.length, ok (start + i) = true
  failed : all = false → ∃ i, done.length = i + 1 ∧ ok (start + i) = false

theorem tryAll_tried (ok : Nat → Bool) (plan log : List α) :
    ∃ done, (tryAll ok plan log).2 = log ++ done ∧ Tried ok plan log.length done (tryAll ok plan log).1 := by
  induction plan generalizing log with
  | nil => exact ⟨[], (List.append_nil log).symm, List.prefix_rfl, nofun, fun _ => ⟨rfl, nofun⟩, nofun⟩
  | cons a plan ih =>
    by_cases h : ok log.length = true
    · obtain ⟨done, hlog, htried⟩ := ih (log ++ [a])
      rw [tryAll_cons_ok h, hlog]
      rw [List.length_append, List.length_singleton] at htried
      -- Attempt `i + 1` of this plan is attempt `i` of the rest.
      have hshift (i : Nat) : log.length + (i + 1) = log.length + 1 + i := by omega
      refine ⟨a :: done, List.append_assoc .., ?_, ?_, ?_, ?_⟩
      · exact List.cons_prefix_cons.2 ⟨rfl, htried.prefix_plan⟩
      · intro i hi
        cases i with
        | zero => exact h
        | succ i =>
          rw [hshift]
          exact htried.before_last i (by simpa using hi)
      · intro hall
        obtain ⟨rfl, hok⟩ := htried.went_through hall
        refine ⟨rfl, fun i hi => ?_⟩
        cases i with
        | zero => exact h
        | succ i =>
          rw [hshift]
          exact hok i (by simpa using hi)
      · intro hall
        obtain ⟨i, hlen, hfail⟩ := htried.failed hall
        exact ⟨i + 1, by rw [List.length_cons, hlen], by rw [hshift]; exact hfail⟩
    · rw [tryAll_cons_failed h]
      refine ⟨[a], rfl, List.cons_prefix_cons.2 ⟨rfl, List.nil_prefix⟩, ?_, nofun, fun _ => ⟨0, rfl, ?_⟩⟩
      · intro i hi
        simp at hi
      · exact Bool.not_eq_true _ ▸ h

/-- All of the plan went through exactly when it was tried to its end and every attempt went through. -/
theorem Tried.all_iff {plan done : List α} {start : Nat} {all : Bool} (h : Tried ok plan start done all) :
    all = true ↔ done = plan ∧ ∀ i < plan.length, ok (start + i) = true := by
  constructor
  · exact h.went_through
  · rintro ⟨hdone, hok⟩
    by_contra hall
    obtain ⟨i, hi, hfail⟩ := h.failed (Bool.not_eq_true _ ▸ hall)
    have hlt : i < plan.length := by
      rw [← hdone, hi]
      exact Nat.lt_succ_self i
    exact Bool.false_ne_true (hfail.symm.trans (hok i hlt))

/-- The last of a plan is tried only after all before it went through. -/
theorem Tried.last_after {plan done : List α} {a : α} {start : Nat} {all : Bool} (h : Tried ok (plan ++ [a]) start done all)
    (hlast : ¬ done <+: plan) : done = plan ++ [a] ∧ ∀ i < plan.length, ok (start + i) = true := by
  have hdone : done = plan ++ [a] := (List.prefix_concat_iff.1 h.prefix_plan).resolve_right hlast
  refine ⟨hdone, fun i hi => h.before_last i ?_⟩
  rw [hdone, List.length_append, List.length_singleton]
  omega

/-- Something is tried of a plan that is not empty. -/
theorem Tried.pos {plan done : List α} {start : Nat} {all : Bool} (h : Tried ok plan start done all) (hplan : plan ≠ []) :
    0 < done.length := by
  cases all with
  | true =>
    rw [(h.went_through rfl).1]
    exact List.length_pos_iff.2 hplan
  | false =>
    obtain ⟨i, hi, -⟩ := h.failed rfl
    rw [hi]
    exact Nat.succ_pos i

/-- Attempt `k` is of step `k` of the plan, and the plan goes on exactly when it went through. -/
theorem Tried.next {plan done : List α} {start : Nat} {all : Bool} (h : Tried ok plan start done all) {k : Nat}
    (hk : k < done.length) :
    plan.drop k = done[k] :: plan.drop (k + 1) ∧
      (if ok (start + k) then plan.drop (k + 1) else []) = if k + 1 < done.length then plan.drop (k + 1) else [] := by
  have hlt : k < plan.length := Nat.lt_of_lt_of_le hk h.prefix_plan.length_le
  refine ⟨?_, ?_⟩
  · obtain ⟨more, hmore⟩ := h.prefix_plan
    rw [List.drop_eq_getElem_cons hlt]
    simp only [← hmore, List.getElem_append_left hk]
  · by_cases hnext : k + 1 < done.length
    · rw [if_pos (h.before_last k hnext), if_pos hnext]
    · rw [if_neg hnext]
      cases all with
      | true =>
        -- It was the last of the plan.
        have hend : plan.drop (k + 1) = [] := List.drop_of_length_le (by rw [← (h.went_through rfl).1]; omega)
        rw [hend, ite_self]
      | false =>
        obtain ⟨i, hi, hfail⟩ := h.failed rfl
        obtain rfl : i = k := by omega
        rw [hfail]
        rfl

/-- The same with an empty log. -/
theorem tried_from_start (plan : List α) : Tried ok plan 0 (tryAll ok plan []).2 (tryAll ok plan []).1 := by
  obtain ⟨done, hlog, htried⟩ := tryAll_tried ok plan []
  rw [hlog]
  exact htried

end LinkLib.Attempts
