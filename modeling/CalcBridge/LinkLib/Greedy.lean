import Mathlib.Data.List.Infix
/-!
# Greedy division of a list

`greedy fits l` cuts `l` into groups from left to right: an element joins the
pending group when that still fits, and starts a group of its own when not. If
every part of a group that fits does, no division into groups that fit has fewer.
-/

namespace LinkLib.Greedy

variable {α : Type}

/-- `gs` cuts `l` into groups that fit. -/
structure Divides (fits : List α → Prop) (l : List α) (gs : List (List α)) : Prop where
  whole : gs.flatten = l
  fit : ∀ g ∈ gs, fits g

section Defs
variable (fits : List α → Prop) [DecidablePred fits]

/-- The groups from a pending one on. -/
def greedyFrom : List α → List α → List (List α)
  | cur, [] => if cur = [] then [] else [cur]
  | cur, a :: l => if fits (cur ++ [a]) then greedyFrom (cur ++ [a]) l else cur :: greedyFrom [a] l

def greedy (l : List α) : List (List α) := greedyFrom fits [] l

end Defs

variable {fits : List α → Prop} [DecidablePred fits]

theorem greedyFrom_joins {cur : List α} {a : α} (h : fits (cur ++ [a])) (l : List α) :
    greedyFrom fits cur (a :: l) = greedyFrom fits (cur ++ [a]) l := if_pos h

theorem greedyFrom_starts {cur : List α} {a : α} (h : ¬fits (cur ++ [a])) (l : List α) :
    greedyFrom fits cur (a :: l) = cur :: greedyFrom fits [a] l := if_neg h

theorem flatten_greedyFrom (cur l : List α) : (greedyFrom fits cur l).flatten = cur ++ l := by
  induction l generalizing cur with
  | nil =>
    unfold greedyFrom
    split
    · rename_i h
      rw [h]
      rfl
    · simp
  | cons a l ih =>
    unfold greedyFrom
    split
    · rw [ih, List.append_assoc]
      rfl
    · rw [List.flatten_cons, ih]
      rfl

theorem fits_greedyFrom {cur l : List α} (hcur : fits cur) (hone : ∀ a ∈ l, fits [a]) :
    ∀ g ∈ greedyFrom fits cur l, fits g := by
  induction l generalizing cur with
  | nil =>
    intro g hg
    unfold greedyFrom at hg
    split at hg
    · cases hg
    · rw [List.mem_singleton.1 hg]
      exact hcur
  | cons a l ih =>
    obtain ⟨ha, hl⟩ := List.forall_mem_cons.1 hone
    unfold greedyFrom
    split
    · exact ih ‹_› hl
    · exact List.forall_mem_cons.2 ⟨hcur, ih ha hl⟩

/-- A group that fits is read without a cut. -/
theorem greedyFrom_group (hleft : ∀ a b, fits (a ++ b) → fits a) {cur g : List α} (h : fits (cur ++ g)) (l : List α) :
    greedyFrom fits cur (g ++ l) = greedyFrom fits (cur ++ g) l := by
  induction g generalizing cur with
  | nil => rw [List.nil_append, List.append_nil]
  | cons a g ih =>
    have hsplit : cur ++ a :: g = cur ++ [a] ++ g := (List.append_cons ..)
    rw [hsplit] at h ⊢
    rw [List.cons_append, greedyFrom_joins (hleft _ _ h), ih h]

section Optimal
variable (hright : ∀ a b, fits (a ++ b) → fits b)
include hright

/-- More pending costs at most one group more, and never saves one. -/
theorem length_greedyFrom_suffix {cur cur' l : List α} (hsuf : cur' <:+ cur) :
    (greedyFrom fits cur' l).length ≤ (greedyFrom fits cur l).length ∧
      (greedyFrom fits cur l).length ≤ (greedyFrom fits cur' l).length + 1 := by
  induction l generalizing cur cur' with
  | nil =>
    by_cases hcur : cur = []
    · subst hcur
      rw [List.suffix_nil.1 hsuf]
      exact ⟨Nat.le_refl _, Nat.le_succ _⟩
    · have hone : greedyFrom fits cur [] = [cur] := if_neg hcur
      rw [hone]
      unfold greedyFrom
      split
      · exact ⟨Nat.zero_le _, Nat.le_refl _⟩
      · exact ⟨Nat.le_refl _, Nat.le_succ _⟩
  | cons a l ih =>
    obtain ⟨p, rfl⟩ := hsuf
    by_cases h : fits (p ++ cur' ++ [a])
    · have h' : fits (cur' ++ [a]) := hright p _ (List.append_assoc p cur' [a] ▸ h)
      rw [greedyFrom_joins h, greedyFrom_joins h']
      exact ih ⟨p, (List.append_assoc ..).symm⟩
    · rw [greedyFrom_starts h, List.length_cons]
      by_cases h' : fits (cur' ++ [a])
      · -- The longer group is closed, and what it leaves pending is the end of the shorter one.
        obtain ⟨hle, hge⟩ := ih (List.suffix_append cur' [a])
        rw [greedyFrom_joins h']
        exact ⟨hge, Nat.succ_le_succ hle⟩
      · rw [greedyFrom_starts h', List.length_cons]
        exact ⟨Nat.le_refl _, Nat.le_succ _⟩

/-- No division into groups that fit has fewer groups. -/
theorem length_greedy_le (hleft : ∀ a b, fits (a ++ b) → fits a) {l : List α} {gs : List (List α)} (h : Divides fits l gs) :
    (greedy fits l).length ≤ gs.length := by
  obtain ⟨rfl, hfit⟩ := h
  induction gs with
  | nil => exact Nat.le_refl 0
  | cons g gs ih =>
    obtain ⟨hg, hgs⟩ := List.forall_mem_cons.1 hfit
    have hread : greedyFrom fits [] (g ++ gs.flatten) = greedyFrom fits g gs.flatten :=
      greedyFrom_group hleft (show fits ([] ++ g) from hg) _
    calc
      (greedy fits (g :: gs).flatten).length = (greedyFrom fits g gs.flatten).length := congrArg List.length hread
      _ ≤ (greedy fits gs.flatten).length + 1 := (length_greedyFrom_suffix hright List.nil_suffix).2
      _ ≤ (g :: gs).length := Nat.succ_le_succ (ih hgs)

end Optimal

/-- The greedy division is one, when every element fits on its own. -/
theorem divides_greedy (hnil : fits []) {l : List α} (hone : ∀ a ∈ l, fits [a]) : Divides fits l (greedy fits l) :=
  ⟨flatten_greedyFrom [] l, fits_greedyFrom hnil hone⟩

end LinkLib.Greedy
