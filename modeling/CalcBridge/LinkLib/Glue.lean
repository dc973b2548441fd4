import Mathlib.Data.List.Basic
/-!
# Pieces joined with a separator in some of the gaps

`glue sep gap ps` puts the pieces after one another, with `sep` between two
neighbours that `gap` holds of. A joined text is decided pair by pair, so two
ways to fill the gaps compare pair by pair too.
-/

namespace LinkLib.Glue

variable {α : Type}

/-- What goes between `p` and `q`. -/
def between (sep : List α) (gap : List α → List α → Bool) (p q : List α) : List α := if gap p q then sep else []

/-- The pieces, with `sep` in the gaps that `gap` names. -/
def glue (sep : List α) (gap : List α → List α → Bool) : List (List α) → List α
  | [] => []
  | [p] => p
  | p :: q :: ps => p ++ between sep gap p q ++ glue sep gap (q :: ps)

/-- A list with `sep` inserted between the neighbours that `gap` holds of. -/
def insertBetween (sep : List α) (gap : α → α → Bool) : List α → List α
  | [] => []
  | [c] => [c]
  | c :: d :: s => [c] ++ (if gap c d then sep else []) ++ insertBetween sep gap (d :: s)

section Join
variable {sep : List α} {gap : List α → List α → Bool}

@[simp] theorem glue_singleton (p : List α) : glue sep gap [p] = p := rfl

theorem glue_cons_cons (p q : List α) (ps : List (List α)) :
    glue sep gap (p :: q :: ps) = p ++ between sep gap p q ++ glue sep gap (q :: ps) := rfl

/-- Two joined texts join at the gap between the last piece and the first. -/
theorem glue_append (ps : List (List α)) (p q : List α) (qs : List (List α)) :
    glue sep gap (ps ++ p :: q :: qs) = glue sep gap (ps ++ [p]) ++ between sep gap p q ++ glue sep gap (q :: qs) := by
  induction ps with
  | nil => rfl
  | cons r ps ih =>
    cases ps with
    | nil =>
      simp only [List.cons_append, List.nil_append, glue_cons_cons, glue_singleton, List.append_assoc]
    | cons r' ps =>
      simp only [List.cons_append, glue_cons_cons] at ih ⊢
      rw [ih]
      simp only [List.append_assoc]

variable (sep gap) in
/-- The first piece stands in front. -/
theorem glue_cons_prefix (p : List α) (ps : List (List α)) : ∃ rest, glue sep gap (p :: ps) = p ++ rest := by
  cases ps with
  | nil => exact ⟨[], by simp⟩
  | cons q ps => exact ⟨between sep gap p q ++ glue sep gap (q :: ps), by rw [glue_cons_cons, List.append_assoc]⟩

variable (sep gap) in
/-- The last piece stands at the end. -/
theorem glue_snoc_suffix (ps : List (List α)) (p : List α) : ∃ front, glue sep gap (ps ++ [p]) = front ++ p := by
  induction ps with
  | nil => exact ⟨[], rfl⟩
  | cons q ps ih =>
    obtain ⟨front, hfront⟩ := ih
    cases ps with
    | nil => exact ⟨q ++ between sep gap q p, rfl⟩
    | cons r ps =>
      refine ⟨q ++ between sep gap q r ++ front, ?_⟩
      simp only [List.cons_append, glue_cons_cons] at hfront ⊢
      rw [hfront]
      simp only [List.append_assoc]

theorem head?_glue {p : List α} (hp : p ≠ []) (ps : List (List α)) : (glue sep gap (p :: ps)).head? = p.head? := by
  obtain ⟨rest, h⟩ := glue_cons_prefix sep gap p ps
  rw [h, List.head?_append_of_ne_nil _ hp]

theorem getLast?_glue {p : List α} (hp : p ≠ []) (ps : List (List α)) :
    (glue sep gap (ps ++ [p])).getLast? = p.getLast? := by
  obtain ⟨front, h⟩ := glue_snoc_suffix sep gap ps p
  rw [h, List.getLast?_append_of_ne_nil _ hp]

/-- More gaps filled, and nothing else changed: the fewer is a subsequence. -/
theorem glue_sublist {gap' : List α → List α → Bool} (h : ∀ p q, gap p q → gap' p q) (ps : List (List α)) :
    (glue sep gap ps).Sublist (glue sep gap' ps) := by
  induction ps with
  | nil => exact List.Sublist.refl _
  | cons p ps ih =>
    cases ps with
    | nil => exact List.Sublist.refl _
    | cons q ps =>
      have hgap : (between sep gap p q).Sublist (between sep gap' p q) := by
        unfold between
        split
        · rw [if_pos (h p q ‹_›)]
        · exact List.nil_sublist _
      exact ((List.Sublist.refl p).append hgap).append ih

/-- Pieces of one element each: only what `gap` says of the elements that occur counts. -/
theorem glue_singletons {gap' : α → α → Bool} {P : α → Prop} (h : ∀ c d, P c → P d → gap [c] [d] = gap' c d) {s : List α}
    (hs : ∀ c ∈ s, P c) : glue sep gap (s.map ([·])) = insertBetween sep gap' s := by
  induction s with
  | nil => rfl
  | cons c s ih =>
    cases s with
    | nil => rfl
    | cons d s =>
      have htail := ih fun e he => hs e (List.mem_cons_of_mem _ he)
      have hcd := h c d (hs c (by simp)) (hs d (by simp))
      simp only [List.map_cons, glue_cons_cons, between, insertBetween, hcd] at htail ⊢
      rw [htail]

end Join

end LinkLib.Glue
