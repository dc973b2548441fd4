import Mathlib.Logic.Relation
/-!
# Steps that meet again

When two different steps from one state always meet after one more step each,
the order of the steps does not matter: one run that comes to an end bounds
all runs and is where they all end.
-/
open Relation

namespace LinkLib.Confluence

variable {α : Type} {r : α → α → Prop}

def Diamond (r : α → α → Prop) : Prop := ∀ ⦃a b c⦄, r a b → r a c → b = c ∨ ∃ d, r b d ∧ r c d

/-- No step is left. -/
def Ended (r : α → α → Prop) (a : α) : Prop := ∀ b, ¬ r a b

/-- A run of `n` steps. -/
inductive Run (r : α → α → Prop) : Nat → α → α → Prop where
  | nil (a : α) : Run r 0 a a
  | cons {n : Nat} {a b c : α} (h : r a b) (hrun : Run r n b c) : Run r (n + 1) a c

theorem Run.reaches {n : Nat} {a b : α} (h : Run r n a b) : ReflTransGen r a b := by
  induction h with
  | nil => exact .refl
  | cons h _ ih => exact .head h ih

theorem exists_run {a b : α} (h : ReflTransGen r a b) : ∃ n, Run r n a b := by
  induction h using ReflTransGen.head_induction_on with
  | refl => exact ⟨0, .nil b⟩
  | head h _ ih =>
    obtain ⟨n, hrun⟩ := ih
    exact ⟨n + 1, .cons h hrun⟩

/-- Two different steps from one state meet again, by a `q` step each. -/
def MeetsBy (r q : α → α → Prop) : Prop := ∀ ⦃a b c⦄, r a b → r a c → b = c ∨ ∃ d, q b d ∧ q c d

/-- A first step away from a run to a state that no `q` step leaves costs that run one step. -/
theorem MeetsBy.after_step {q : α → α → Prop} (hd : MeetsBy r q) (hq : ∀ a b, q a b → r a b) {n : Nat} {a b c : α}
    (hc : Run r (n + 1) a c) (hend : Ended q c) (hb : r a b) : Run r n b c := by
  induction n generalizing a b with
  | zero =>
    obtain _ | ⟨ha, hrun⟩ := hc
    obtain ⟨⟩ := hrun
    rcases hd hb ha with rfl | ⟨d, -, hd'⟩
    · exact .nil _
    · exact absurd hd' (hend d)
  | succ n ih =>
    obtain _ | ⟨ha, hrun⟩ := hc
    -- The two first steps meet at `d`, and the rest of the run goes on from there.
    rcases hd hb ha with rfl | ⟨d, hbd, hd'⟩
    · exact hrun
    · exact .cons (hq _ _ hbd) (ih hrun (hq _ _ hd'))

/-- All runs pass through a state that no `q` step leaves. -/
theorem MeetsBy.passes {q : α → α → Prop} (hd : MeetsBy r q) (hq : ∀ a b, q a b → r a b) {n k : Nat} {a b c : α}
    (hc : Run r n a c) (hend : Ended q c) (hb : Run r k a b) :
    (∃ m, n = k + m ∧ Run r m b c) ∨ ∃ m, k = n + m ∧ Run r m c b := by
  induction hb generalizing n with
  | nil => exact .inl ⟨n, (Nat.zero_add n).symm, hc⟩
  | @cons k a a' b ha hrun ih =>
    cases n with
    | zero =>
      obtain ⟨⟩ := hc
      exact .inr ⟨k + 1, (Nat.zero_add _).symm, .cons ha hrun⟩
    | succ n =>
      rcases ih (hd.after_step hq hc hend ha) with ⟨m, rfl, hm⟩ | ⟨m, rfl, hm⟩
      · exact .inl ⟨m, by omega, hm⟩
      · exact .inr ⟨m, by omega, hm⟩

/-- No run is longer than one that ends, and all of them can go on to its end. -/
theorem Diamond.to_end (hd : Diamond r) {n k : Nat} {a b c : α} (hc : Run r n a c) (hend : Ended r c) (hb : Run r k a b) :
    ∃ m, n = k + m ∧ Run r m b c := by
  rcases MeetsBy.passes hd (fun _ _ h => h) hc hend hb with h | ⟨m, rfl, hm⟩
  · exact h
  · cases hm with
    | nil => exact ⟨0, rfl, .nil b⟩
    | cons h => exact absurd h (hend _)

/-- Where a run comes to an end is determined. -/
theorem Diamond.end_unique (hd : Diamond r) {a b c : α} (hc : ReflTransGen r a c) (hend : Ended r c)
    (hb : ReflTransGen r a b) (hend' : Ended r b) : b = c := by
  obtain ⟨n, hn⟩ := exists_run hc
  obtain ⟨k, hk⟩ := exists_run hb
  obtain ⟨m, -, hm⟩ := hd.to_end hn hend hk
  cases hm with
  | nil => rfl
  | cons h => exact absurd h (hend' _)

end LinkLib.Confluence
