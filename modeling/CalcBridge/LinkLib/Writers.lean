import Mathlib.Logic.Function.Basic
/-!
# Writers that share a stream

Every writer puts an item on the stream, in one piece or in several. While no
writer puts a piece between two pieces of another's item, the stream is whole
items and at most one unfinished item at its end.
-/

namespace LinkLib.Writers

variable {α : Type}

/-- What is on the stream, the items that are finished, in order, and what each
writer has put there of the item it has not finished. -/
structure Shared (α : Type) where
  wire : List α
  finished : List (List α)
  part : Nat → List α

def Shared.empty : Shared α := ⟨[], [], fun _ => []⟩

/-- Writer `i` puts a piece of its item. -/
def Shared.put (s : Shared α) (i : Nat) (piece : List α) : Shared α :=
  { s with wire := s.wire ++ piece, part := Function.update s.part i (s.part i ++ piece) }

/-- What writer `i` has put is its whole item. -/
def Shared.finish (s : Shared α) (i : Nat) : Shared α :=
  { s with finished := s.finished ++ [s.part i], part := Function.update s.part i [] }

/-- No other writer is within an item. -/
def Shared.Alone (s : Shared α) (i : Nat) : Prop := ∀ j, j ≠ i → s.part j = []

/-- Finished items, and the part of at most one more. -/
def Shared.Whole (s : Shared α) : Prop := ∃ i, s.Alone i ∧ s.wire = s.finished.flatten ++ s.part i

@[simp] theorem put_part_self (s : Shared α) (i : Nat) (piece : List α) : (s.put i piece).part i = s.part i ++ piece :=
  Function.update_self ..

theorem put_part_ne (s : Shared α) {i j : Nat} (h : j ≠ i) (piece : List α) : (s.put i piece).part j = s.part j :=
  Function.update_of_ne h _ _

@[simp] theorem finish_part_self (s : Shared α) (i : Nat) : (s.finish i).part i = [] := Function.update_self ..

theorem finish_part_ne (s : Shared α) {i j : Nat} (h : j ≠ i) : (s.finish i).part j = s.part j :=
  Function.update_of_ne h _ _

theorem whole_empty : (Shared.empty : Shared α).Whole := ⟨0, fun _ _ => rfl, rfl⟩

/-- The unfinished item at the end is that of any writer that is alone. -/
theorem Shared.Whole.wire_eq {s : Shared α} (h : s.Whole) {i : Nat} (hi : s.Alone i) :
    s.wire = s.finished.flatten ++ s.part i := by
  obtain ⟨k, hk, hwire⟩ := h
  by_cases hik : i = k
  · rw [hik, hwire]
  · rw [hwire, hk i hik, hi k (Ne.symm hik)]

/-- When a writer that is alone has finished its item no writer is within one. -/
theorem Shared.Alone.part_eq_nil {s : Shared α} {i : Nat} (hi : s.Alone i) (hnone : s.part i = []) (j : Nat) :
    s.part j = [] := by
  by_cases hj : j = i
  · rw [hj, hnone]
  · exact hi j hj

theorem Shared.Alone.put {s : Shared α} {i : Nat} (hi : s.Alone i) (piece : List α) : (s.put i piece).Alone i := by
  intro j hj
  rw [put_part_ne s hj]
  exact hi j hj

theorem Shared.Alone.finish {s : Shared α} {i : Nat} (hi : s.Alone i) : (s.finish i).Alone i := by
  intro j hj
  rw [finish_part_ne s hj]
  exact hi j hj

/-- A writer that is alone puts its piece behind its others. -/
theorem Shared.Whole.put {s : Shared α} (h : s.Whole) {i : Nat} (hi : s.Alone i) (piece : List α) :
    (s.put i piece).Whole := by
  refine ⟨i, hi.put piece, ?_⟩
  rw [put_part_self, ← List.append_assoc]
  exact congrArg (· ++ piece) (h.wire_eq hi)

theorem Shared.Whole.finish {s : Shared α} (h : s.Whole) {i : Nat} (hi : s.Alone i) : (s.finish i).Whole := by
  refine ⟨i, hi.finish, ?_⟩
  have hitems : (s.finish i).finished.flatten = s.finished.flatten ++ s.part i := by
    rw [Shared.finish, List.flatten_append, List.flatten_singleton]
  rw [hitems, finish_part_self, List.append_nil]
  exact h.wire_eq hi

/-- With every item finished the stream is the items. -/
theorem Shared.Whole.items {s : Shared α} (h : s.Whole) (hall : ∀ i, s.part i = []) : s.wire = s.finished.flatten := by
  obtain ⟨i, -, hwire⟩ := h
  rw [hwire, hall i, List.append_nil]

end LinkLib.Writers
