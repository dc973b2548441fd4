import Mathlib.Data.List.Basic
/-!
# Scanners

A scanner takes turns at the front of its input. A turn emits something and
leaves less input, or fails, and then the scan does.
-/

namespace LinkLib

variable {ε α β : Type}

structure Scanner (ε α β : Type) where
  turn : List α → Except ε (List β × List α)
  /-- A turn uses some of its input. -/
  progress : ∀ {s o rest}, s ≠ [] → turn s = .ok (o, rest) → rest.length < s.length

namespace Scanner

variable (sc : Scanner ε α β)

/-- Turns until the input is used up. -/
def scan (s : List α) : Except ε (List β) :=
  if hs : s = [] then .ok []
  else
    match h : sc.turn s with
    | .error e => .error e
    | .ok (o, rest) =>
      have : rest.length < s.length := sc.progress hs h
      (scan rest).map (o ++ ·)
termination_by s.length

@[simp] theorem scan_nil : sc.scan [] = .ok [] := by
  rw [scan]
  rfl

variable {sc}

theorem scan_turn {s o rest : List _} (hs : s ≠ []) (h : sc.turn s = .ok (o, rest)) :
    sc.scan s = (sc.scan rest).map (o ++ ·) := by
  rw [scan, dif_neg hs]
  split
  · rename_i e he
    rw [h] at he
    cases he
  · rename_i o' rest' hturn
    rw [h] at hturn
    cases hturn
    rfl

theorem scan_stuck {s : List α} {e : ε} (hs : s ≠ []) (h : sc.turn s = .error e) : sc.scan s = .error e := by
  rw [scan, dif_neg hs]
  split
  · rename_i e' he
    rw [h] at he
    cases he
    rfl
  · rename_i hturn
    rw [h] at hturn
    cases hturn

/-- A scan succeeds when its first turn does and the scan of the rest. -/
theorem scan_eq_ok {s : List α} {out : List β} (hs : s ≠ []) :
    sc.scan s = .ok out ↔ ∃ o rest os, sc.turn s = .ok (o, rest) ∧ sc.scan rest = .ok os ∧ out = o ++ os := by
  cases h : sc.turn s with
  | error e =>
    rw [scan_stuck hs h]
    exact iff_of_false nofun nofun
  | ok r =>
    obtain ⟨o, rest⟩ := r
    rw [scan_turn hs h]
    constructor
    · intro hscan
      cases hrest : sc.scan rest with
      | error e =>
        rw [hrest] at hscan
        cases hscan
      | ok os =>
        rw [hrest] at hscan
        cases hscan
        exact ⟨o, rest, os, rfl, hrest, rfl⟩
    · rintro ⟨o', rest', os, hr, hrest, rfl⟩
      cases hr
      rw [hrest]
      rfl

/-- What holds of an input when it holds of what a turn leaves holds of all. -/
theorem scan_induction {P : List α → Prop} (nil : P [])
    (turn : ∀ s, s ≠ [] → (∀ o rest, sc.turn s = .ok (o, rest) → P rest) → P s) (s : List α) : P s := by
  induction hn : s.length using Nat.strongRecOn generalizing s with
  | ind n ih =>
    by_cases hs : s = []
    · rw [hs]
      exact nil
    · apply turn s hs
      intro o rest h
      exact ih rest.length (hn ▸ sc.progress hs h) rest rfl

/-- `t` ends every turn in front of it: none looks into it. -/
def Bounds (sc : Scanner ε α β) (t : List α) : Prop :=
  ∀ s, s ≠ [] → ∀ o rest, sc.turn (s ++ t) = .ok (o, rest) ↔ ∃ r, sc.turn s = .ok (o, r) ∧ rest = r ++ t

/-- The scan up to such a `t` and the scan of `t` do not depend on each other. -/
theorem scan_append {t : List α} (ht : sc.Bounds t) (s : List α) {out : List β} :
    sc.scan (s ++ t) = .ok out ↔ ∃ os ot, sc.scan s = .ok os ∧ sc.scan t = .ok ot ∧ out = os ++ ot := by
  induction s using sc.scan_induction generalizing out with
  | nil =>
    rw [List.nil_append, scan_nil]
    constructor
    · intro h
      exact ⟨[], out, rfl, h, rfl⟩
    · rintro ⟨os, ot, hs, hscan, rfl⟩
      cases hs
      exact hscan
  | turn s hs ih =>
    rw [scan_eq_ok (List.append_ne_nil_of_left_ne_nil hs t)]
    constructor
    · rintro ⟨o, rest, os, hturn, hscan, rfl⟩
      obtain ⟨r, hr, rfl⟩ := (ht s hs o rest).1 hturn
      obtain ⟨or, ot, hor, hot, rfl⟩ := (ih o r hr).1 hscan
      exact ⟨o ++ or, ot, (scan_eq_ok hs).2 ⟨o, r, or, hr, hor, rfl⟩, hot, (List.append_assoc ..).symm⟩
    · rintro ⟨os, ot, hscan, hot, rfl⟩
      obtain ⟨o, r, or, hr, hor, rfl⟩ := (scan_eq_ok hs).1 hscan
      exact ⟨o, r ++ t, or ++ ot, (ht s hs o _).2 ⟨r, hr, rfl⟩, (ih o r hr).2 ⟨or, ot, hor, hot, rfl⟩, List.append_assoc ..⟩

end Scanner

end LinkLib
