import CalcBridge.Relay.Layout
/-!
# What `_rewrap_line` makes of a line (`tools/relay_server.py`)

The loop keeps finished rows and a pending one. A turn only looks at the
pending row, so rows in front of it can be set aside; what the rows say is the
line without its spaces; and a line that fits is one row.
-/
open LinkLib LinkLib.Text

namespace CalcBridge.Relay

/-! ## Finished lists in front -/

section Shift
variable {α β : Type}

/-- `pre` is in front of everything that is finished. -/
def shift (pre : List (List α)) (st : List (List α) × List α) : List (List α) × List α := (pre ++ st.1, st.2)

/-- A step that does not look at what is finished. -/
def Local (step : List (List α) × List α → β → List (List α) × List α) : Prop :=
  ∀ pre st b, step (shift pre st) b = shift pre (step st b)

theorem flush_shift (pre : List (List α)) (st : List (List α) × List α) :
    flushPending (shift pre st) = pre ++ flushPending st := by
  unfold flushPending shift
  dsimp only
  split
  · rfl
  · exact List.append_assoc ..

theorem Local.foldl {step : List (List α) × List α → β → List (List α) × List α} (h : Local step) (pre : List (List α))
    (bs : List β) (st : List (List α) × List α) : bs.foldl step (shift pre st) = shift pre (bs.foldl step st) := by
  induction bs generalizing st with
  | nil => rfl
  | cons b bs ih => rw [List.foldl_cons, h pre st b, ih, List.foldl_cons]

theorem eq_shift (out : List (List α)) (cur : List α) : (out, cur) = shift out ([], cur) := by
  rw [shift, List.append_nil]

/-- The finished lists and the pending one, run together. -/
theorem flatten_flush (st : List (List α) × List α) : (flushPending st).flatten = st.1.flatten ++ st.2 := by
  obtain ⟨done, pending⟩ := st
  cases pending with
  | nil => exact (List.append_nil _).symm
  | cons a pending => exact List.flatten_append.trans (congrArg _ List.flatten_singleton)

end Shift

/-! ## One word -/

section Word
variable {cols : Nat} {out : List Str} {cur w : Str}

theorem rewrapWord_long (hw : cols < w.length) :
    rewrapWord cols (out, cur) w = (slices cols w).foldl (rewrapSlice cols) (flushPending (out, cur), []) := if_pos hw

theorem rewrapWord_first (hw : w.length ≤ cols) : rewrapWord cols (out, []) w = (out, w) := by
  unfold rewrapWord
  exact (if_neg (Nat.not_lt.2 hw)).trans (if_pos rfl)

/-- A word that fits is put behind a space. -/
theorem rewrapWord_joins (hcur : cur ≠ []) (h : cur.length + 1 + w.length ≤ cols) :
    rewrapWord cols (out, cur) w = (out, cur ++ [space] ++ w) := by
  unfold rewrapWord
  exact (if_neg (by omega)).trans ((if_neg hcur).trans (if_pos h))

theorem rewrapWord_pushes (hcur : cur ≠ []) (hw : w.length ≤ cols) (h : cols < cur.length + 1 + w.length) :
    rewrapWord cols (out, cur) w = (out ++ [cur], w) := by
  unfold rewrapWord
  exact (if_neg (Nat.not_lt.2 hw)).trans ((if_neg hcur).trans (if_neg (by omega)))

/-- How a word goes on, by its branch of the loop. -/
theorem rewrapWord_cases (cols : Nat) (out : List Str) (cur w : Str) :
    (cols < w.length ∧
      rewrapWord cols (out, cur) w = (slices cols w).foldl (rewrapSlice cols) (flushPending (out, cur), [])) ∨
    (cur = [] ∧ w.length ≤ cols ∧ rewrapWord cols (out, cur) w = (out, w)) ∨
    (cur ≠ [] ∧ cur.length + 1 + w.length ≤ cols ∧ rewrapWord cols (out, cur) w = (out, cur ++ [space] ++ w)) ∨
    (cur ≠ [] ∧ w.length ≤ cols ∧ cols < cur.length + 1 + w.length ∧ rewrapWord cols (out, cur) w = (out ++ [cur], w)) := by
  rcases Nat.lt_or_ge cols w.length with hw | hw
  · exact .inl ⟨hw, rewrapWord_long hw⟩
  · by_cases hcur : cur = []
    · subst hcur
      exact .inr (.inl ⟨rfl, hw, rewrapWord_first hw⟩)
    · rcases Nat.lt_or_ge cols (cur.length + 1 + w.length) with h | h
      · exact .inr (.inr (.inr ⟨hcur, hw, h, rewrapWord_pushes hcur hw h⟩))
      · exact .inr (.inr (.inl ⟨hcur, h, rewrapWord_joins hcur h⟩))

end Word

theorem rewrapSlice_local (cols : Nat) : Local (rewrapSlice cols) := by
  intro pre st chunk
  unfold rewrapSlice shift
  dsimp only
  split
  · exact congrArg (·, st.2) (List.append_assoc ..)
  · rfl

theorem rewrapWord_local (cols : Nat) : Local (rewrapWord cols) := by
  rintro pre ⟨out, cur⟩ w
  change rewrapWord cols (pre ++ out, cur) w = _
  rcases rewrapWord_cases cols out cur w with ⟨hw, h⟩ | ⟨rfl, hw, h⟩ | ⟨hcur, hfit, h⟩ | ⟨hcur, hw, hfull, h⟩
  · rw [h, rewrapWord_long hw, ← (rewrapSlice_local cols).foldl]
    exact congrArg (fun done => (slices cols w).foldl (rewrapSlice cols) (done, [])) (flush_shift pre (out, cur))
  · rw [h, rewrapWord_first hw]
    rfl
  · rw [h, rewrapWord_joins hcur hfit]
    rfl
  · rw [h, rewrapWord_pushes hcur hw hfull]
    exact congrArg (·, w) (List.append_assoc ..)

/-- A word that starts a row or does not fit on the pending one goes on as if
the rows so far were flushed. -/
theorem rewrapWord_breaks {cols : Nat} {out : List Str} {cur w : Str} (h : cur = [] ∨ cols < cur.length + 1 + w.length) :
    rewrapWord cols (out, cur) w = shift (flushPending (out, cur)) (rewrapWord cols ([], []) w) := by
  rcases rewrapWord_cases cols out cur w with ⟨hw, he⟩ | ⟨rfl, hw, he⟩ | ⟨hcur, hfit, -⟩ | ⟨hcur, hw, -, he⟩
  · rw [he, rewrapWord_long hw, ← (rewrapSlice_local cols).foldl]
    exact congrArg (fun st => (slices cols w).foldl (rewrapSlice cols) st) (eq_shift _ [])
  · rw [he, rewrapWord_first hw]
    exact eq_shift out w
  · rcases h with h | h
    · exact absurd h hcur
    · omega
  · obtain ⟨a, cur, rfl⟩ := List.exists_cons_of_ne_nil hcur
    rw [he, rewrapWord_first hw]
    exact eq_shift _ w

/-- The rows of some words. -/
def wrapWords (cols : Nat) (ws : List Str) : List Str := flushPending (ws.foldl (rewrapWord cols) ([], []))

/-! ## An overlong word -/

theorem slices_nil {cols : Nat} (hc : 0 < cols) : slices cols [] = [] := by
  rw [slices, List.length_nil, Nat.div_eq_of_lt (by omega)]
  rfl

theorem slices_cons {cols : Nat} (hc : 0 < cols) {w : Str} (hw : w ≠ []) :
    slices cols w = w.take cols :: slices cols (w.drop cols) := by
  have hpos := List.length_pos_iff.2 hw
  have hcount : (w.length + cols - 1) / cols = (w.length - cols + cols - 1) / cols + 1 := by
    rcases Nat.lt_or_ge w.length cols with h | h
    · rw [Nat.sub_eq_zero_of_le h.le, Nat.zero_add, Nat.div_eq_of_lt (Nat.sub_lt hc Nat.one_pos)]
      exact Nat.div_eq_of_lt_le (by omega) (by omega)
    · rw [Nat.sub_add_cancel h, ← Nat.add_div_right _ hc]
      exact congrArg (· / cols) (by omega)
  rw [slices, hcount, List.range_succ_eq_map, List.map_cons, List.map_map, slices, List.length_drop, Nat.zero_mul,
    List.drop_zero]
  refine congrArg _ (List.map_congr_left fun i _ => ?_)
  simp only [Function.comp, List.drop_drop]
  rw [Nat.succ_mul, Nat.add_comm]

/-- The full slices are rows, what is left of the word is pending. -/
theorem foldl_slices {cols : Nat} (hc : 0 < cols) (w : Str) (out : List Str) :
    ∃ full rest, (slices cols w).foldl (rewrapSlice cols) (out, []) = (out ++ full, rest) ∧ full.flatten ++ rest = w ∧
      (∀ r ∈ full, r.length = cols) ∧ rest.length < cols := by
  induction hn : w.length using Nat.strong_induction_on generalizing w out with
  | _ n ih =>
    by_cases hw : w = []
    · subst hw
      exact ⟨[], [], by rw [slices_nil hc, List.append_nil]; rfl, rfl, nofun, hc⟩
    · have hpos := List.length_pos_iff.2 hw
      rw [slices_cons hc hw, List.foldl_cons]
      rcases Nat.lt_or_ge w.length cols with h | h
      · -- The only slice is a short one.
        have hslice : rewrapSlice cols (out, []) (w.take cols) = (out, w) := by
          rw [List.take_of_length_le h.le]
          exact if_neg (by omega)
        refine ⟨[], w, ?_, rfl, nofun, h⟩
        rw [hslice, List.drop_of_length_le h.le, slices_nil hc, List.append_nil]
        rfl
      · have hlen : (w.take cols).length = cols := List.length_take_of_le h
        have hslice : rewrapSlice cols (out, []) (w.take cols) = (out ++ [w.take cols], []) := if_pos hlen
        obtain ⟨full, rest, hfold, htext, hfull, hrest⟩ :=
          ih (w.drop cols).length (by rw [List.length_drop]; omega) (w.drop cols) (out ++ [w.take cols]) rfl
        refine ⟨w.take cols :: full, rest, ?_, ?_, List.forall_mem_cons.2 ⟨hlen, hfull⟩, hrest⟩
        · rw [hslice, hfold, List.append_assoc]
          rfl
        · rw [List.flatten_cons, List.append_assoc, htext, List.take_append_drop]

/-! ## What the rows say -/

/-- The text without its spaces. -/
def ink (s : Str) : Str := s.filter (· ≠ space)

@[simp] theorem ink_nil : ink [] = [] := rfl
@[simp] theorem ink_space (s : Str) : ink (space :: s) = ink s := rfl
@[simp] theorem ink_append (s t : Str) : ink (s ++ t) = ink s ++ ink t := List.filter_append ..

/-- Texts that say the same part by part say the same. -/
theorem ink_flatMap_congr {α : Type} {l : List α} {f g : α → Str} (h : ∀ x ∈ l, ink (f x) = ink (g x)) :
    ink (l.flatMap f) = ink (l.flatMap g) := by
  simp only [ink, List.filter_flatMap] at h ⊢
  exact List.flatMap_congr h

theorem rewrapWord_ink {cols : Nat} (hc : 0 < cols) (st : List Str × Str) (w : Str) :
    ink (flushPending (rewrapWord cols st w)).flatten = ink (flushPending st).flatten ++ ink w := by
  obtain ⟨out, cur⟩ := st
  rw [flatten_flush, flatten_flush]
  rcases rewrapWord_cases cols out cur w with ⟨-, h⟩ | ⟨rfl, -, h⟩ | ⟨-, -, h⟩ | ⟨-, -, -, h⟩
  · obtain ⟨full, rest, hfold, htext, -⟩ := foldl_slices hc w (flushPending (out, cur))
    rw [h, hfold, ← ink_append, ← htext]
    simp [flatten_flush]
  all_goals simp [h]

theorem rewrapWords_ink {cols : Nat} (hc : 0 < cols) (ws : List Str) (st : List Str × Str) :
    ink (flushPending (ws.foldl (rewrapWord cols) st)).flatten = ink (flushPending st).flatten ++ ink ws.flatten := by
  induction ws generalizing st with
  | nil => simp
  | cons w ws ih => rw [List.foldl_cons, ih, rewrapWord_ink hc, List.flatten_cons, ink_append, List.append_assoc]

/-- The words are the line without its spaces. -/
theorem flatten_splitOn (l : Str) : (l.splitOn space).flatten = ink l := by
  induction l with
  | nil => rfl
  | cons c l ih =>
    rw [List.splitOn_cons_eq_if_modifyHead]
    split
    · rename_i hc
      rw [beq_iff_eq.1 hc, List.flatten_cons, ih]
      rfl
    · rename_i hc
      obtain ⟨w, ws, hw⟩ := List.exists_cons_of_ne_nil (List.splitOn_ne_nil space l)
      rw [hw] at ih ⊢
      rw [List.modifyHead_cons, List.flatten_cons, List.cons_append, ← List.flatten_cons, ih, ink, ink,
        List.filter_cons_of_pos (by simpa using hc)]

theorem space_of_isSpace {c : Nat} (hp : Printable c) (h : isSpace c = true) : c = space := by
  simp only [isSpace, Bool.or_eq_true, Bool.and_eq_true, decide_eq_true_eq, beq_iff_eq] at h
  unfold Printable at hp
  change c = 0x20
  omega

/-- A printable line is its stripped form and spaces. -/
theorem exists_rstrip {l : Str} (hl : ∀ c ∈ l, Printable c) : ∃ n, l = rstrip l ++ List.replicate n space := by
  refine ⟨(l.rtakeWhile isSpace).length, ?_⟩
  have htail : l.rtakeWhile isSpace = List.replicate (l.rtakeWhile isSpace).length space := by
    refine List.eq_replicate_of_mem fun c hc => ?_
    exact space_of_isSpace (hl c ((List.rtakeWhile_suffix isSpace l).subset hc)) (List.mem_rtakeWhile_imp hc)
  rw [← htail]
  exact (List.rdropWhile_append_rtakeWhile ..).symm

theorem rstrip_eq_self_iff {l : Str} (hl : ∀ c ∈ l, Printable c) : rstrip l = l ↔ l.getLast? ≠ some space := by
  constructor
  · intro h
    rw [← h]
    exact rstrip_last l
  · intro h
    obtain ⟨n, hn⟩ := exists_rstrip hl
    cases n with
    | zero => exact (hn.trans (List.append_nil _)).symm
    | succ n =>
      rw [hn, List.replicate_succ', ← List.append_assoc, List.getLast?_concat] at h
      exact absurd rfl h

theorem ink_replicate (n : Nat) : ink (List.replicate n space) = [] := by
  rw [ink, List.filter_replicate_of_neg (by simp)]

theorem ink_rstrip {l : Str} (hl : ∀ c ∈ l, Printable c) : ink (rstrip l) = ink l := by
  obtain ⟨n, hn⟩ := exists_rstrip hl
  conv_rhs => rw [hn, ink_append, ink_replicate, List.append_nil]

/-- A line of spaces only. -/
def Blank (l : Str) : Prop := rstrip l = []

instance (l : Str) : Decidable (Blank l) := inferInstanceAs (Decidable (_ = _))

theorem ink_eq_nil {l : Str} (hl : ∀ c ∈ l, Printable c) : ink l = [] ↔ Blank l := by
  constructor
  · intro h
    rw [Blank, rstrip, List.rdropWhile_eq_nil_iff]
    intro c hc
    by_contra hs
    have : c ∈ ink l := List.mem_filter.2 ⟨hc, by simpa using fun he : c = space => hs (by rw [he]; rfl)⟩
    rw [h] at this
    cases this
  · intro h
    rw [← ink_rstrip hl, h, ink_nil]

theorem rewrapLine_blank {l : Str} (h : Blank l) (cols : Nat) : rewrapLine l cols = [[]] := if_pos h

theorem words_ink {cols : Nat} (hc : 0 < cols) {l : Str} (hl : ∀ c ∈ l, Printable c) :
    ink (wrapWords cols ((rstrip l).splitOn space)).flatten = ink l := by
  have hstart : flushPending (([], []) : List Str × Str) = [] := rfl
  have htwice : ink (ink (rstrip l)) = ink (rstrip l) := List.filter_eq_self.2 fun c hcm => (List.mem_filter.1 hcm).2
  rw [wrapWords, rewrapWords_ink hc, hstart, flatten_splitOn, htwice, ink_rstrip hl]
  rfl

/-- The rows of a line that is not blank. -/
theorem rewrapLine_eq {cols : Nat} (hc : 0 < cols) {l : Str} (hl : ∀ c ∈ l, Printable c) (h : ¬ Blank l) :
    rewrapLine l cols = wrapWords cols ((rstrip l).splitOn space) := by
  have hne : wrapWords cols ((rstrip l).splitOn space) ≠ [] := by
    intro he
    have hink := words_ink hc hl
    rw [he] at hink
    exact h ((ink_eq_nil hl).1 hink.symm)
  exact (if_neg h).trans (if_neg hne)

/-- Wrapping keeps every character but spaces, in order. -/
theorem rewrapLine_ink {cols : Nat} (hc : 0 < cols) {l : Str} (hl : ∀ c ∈ l, Printable c) :
    ink (rewrapLine l cols).flatten = ink l := by
  by_cases h : Blank l
  · rw [rewrapLine_blank h, (ink_eq_nil hl).2 h]
    rfl
  · rw [rewrapLine_eq hc hl h, words_ink hc hl]

/-! ## The shape of the rows -/

/-- Rows are nonempty and fit; with nothing pending the last row is full. -/
structure RowsFit (cols : Nat) (st : List Str × Str) : Prop where
  rows : ∀ r ∈ st.1, r ≠ [] ∧ r.length ≤ cols
  pending : st.2.length ≤ cols
  full : st.2 = [] → ∀ r, st.1.getLast? = some r → r.length = cols

theorem RowsFit.flush {cols : Nat} {st : List Str × Str} (h : RowsFit cols st) :
    ∀ r ∈ flushPending st, r ≠ [] ∧ r.length ≤ cols := by
  unfold flushPending
  split
  · exact h.rows
  · rename_i hcur
    intro r hr
    rcases List.mem_append.1 hr with hr | hr
    · exact h.rows r hr
    · rw [List.mem_singleton.1 hr]
      exact ⟨fun he => hcur (by rw [he]; rfl), h.pending⟩

theorem RowsFit.word {cols : Nat} (hc : 0 < cols) {st : List Str × Str} (h : RowsFit cols st) (w : Str) :
    RowsFit cols (rewrapWord cols st w) := by
  obtain ⟨out, cur⟩ := st
  rcases rewrapWord_cases cols out cur w with ⟨hw, he⟩ | ⟨rfl, hw, he⟩ | ⟨hcur, hfit, he⟩ | ⟨hcur, hw, hfull, he⟩
  · obtain ⟨full, rest, hfold, htext, hlen, hrest⟩ := foldl_slices hc w (flushPending (out, cur))
    rw [he, hfold]
    refine ⟨?_, hrest.le, ?_⟩
    · intro r hr
      rcases List.mem_append.1 hr with hr | hr
      · exact h.flush r hr
      · exact ⟨List.ne_nil_of_length_pos (by rw [hlen r hr]; exact hc), (hlen r hr).le⟩
    · rintro rfl r hr
      -- A word longer than a row fills one.
      have hne : full ≠ [] := by
        rintro rfl
        rw [← htext] at hw
        simp at hw
      rw [List.getLast?_append_of_ne_nil _ hne] at hr
      exact hlen r (List.mem_of_getLast? hr)
  · rw [he]
    exact ⟨h.rows, hw, fun _ => h.full rfl⟩
  · rw [he]
    refine ⟨h.rows, ?_, fun hn => absurd hn (by simp)⟩
    simp only [List.length_append, List.length_singleton]
    exact hfit
  · rw [he]
    refine ⟨?_, hw, ?_⟩
    · intro r hr
      rcases List.mem_append.1 hr with hr | hr
      · exact h.rows r hr
      · rw [List.mem_singleton.1 hr]
        exact ⟨hcur, h.pending⟩
    · rintro rfl r hr
      rw [List.getLast?_concat, Option.some.injEq] at hr
      have hp : cur.length ≤ cols := h.pending
      rw [List.length_nil] at hfull
      rw [← hr]
      omega

theorem RowsFit.words {cols : Nat} (hc : 0 < cols) (ws : List Str) {st : List Str × Str} (h : RowsFit cols st) :
    RowsFit cols (ws.foldl (rewrapWord cols) st) := by
  induction ws generalizing st with
  | nil => exact h
  | cons w ws ih => exact ih (h.word hc w)

theorem rowsFit_start (cols : Nat) : RowsFit cols ([], []) := ⟨nofun, Nat.zero_le _, nofun⟩

theorem wrapWords_rows {cols : Nat} (hc : 0 < cols) (ws : List Str) :
    ∀ r ∈ wrapWords cols ws, r ≠ [] ∧ r.length ≤ cols := ((rowsFit_start cols).words hc ws).flush

theorem rewrapLine_width {cols : Nat} (hc : 0 < cols) {l : Str} (hl : ∀ c ∈ l, Printable c) :
    ∀ r ∈ rewrapLine l cols, r.length ≤ cols := by
  by_cases h : Blank l
  · rw [rewrapLine_blank h]
    simp
  · rw [rewrapLine_eq hc hl h]
    intro r hr
    exact (wrapWords_rows hc _ r hr).2

/-- Only a blank line gives a blank row. -/
theorem rewrapLine_rows_ne_nil {cols : Nat} (hc : 0 < cols) {l : Str} (hl : ∀ c ∈ l, Printable c) (h : ¬ Blank l) :
    ∀ r ∈ rewrapLine l cols, r ≠ [] := by
  rw [rewrapLine_eq hc hl h]
  intro r hr
  exact (wrapWords_rows hc _ r hr).1

theorem rewrapLine_ne_nil (l : Str) (cols : Nat) : rewrapLine l cols ≠ [] := by
  unfold rewrapLine
  dsimp only
  split
  · exact List.cons_ne_nil _ _
  · split
    · exact List.cons_ne_nil _ _
    · assumption

/-! ## A line that fits -/

theorem splitOn_text {l w : Str} {ws : List Str} (h : l.splitOn space = w :: ws) : l = w ++ ws.flatMap (space :: ·) := by
  have hjoin : ∀ (w : Str) (ws : List Str), [space].intercalate (w :: ws) = w ++ ws.flatMap (space :: ·) := by
    intro w ws
    induction ws generalizing w with
    | nil => simp
    | cons v ws ih => rw [List.intercalate_cons_cons, ih, List.flatMap_cons, List.append_assoc]; rfl
  rw [← hjoin, ← h, List.intercalate_splitOn]

/-- Words that fit behind the pending row are put there. -/
theorem foldl_fits {cols : Nat} (ws : List Str) {cur : Str} (hcur : cur ≠ [])
    (hfit : cur.length + (ws.flatMap (space :: ·)).length ≤ cols) (out : List Str) :
    ws.foldl (rewrapWord cols) (out, cur) = (out, cur ++ ws.flatMap (space :: ·)) := by
  induction ws generalizing cur with
  | nil => simp
  | cons w ws ih =>
    simp only [List.flatMap_cons, List.length_append, List.length_cons] at hfit
    have hrest : (cur ++ [space] ++ w).length + (ws.flatMap (space :: ·)).length ≤ cols := by
      simp only [List.length_append, List.length_singleton]
      omega
    rw [List.foldl_cons, rewrapWord_joins hcur (by omega), ih (by simp) hrest]
    simp

/-- The words of a short line are one row, without the spaces in front. -/
theorem foldl_short {cols : Nat} {l : Str} (hl : l.length ≤ cols) :
    (l.splitOn space).foldl (rewrapWord cols) ([], []) = ([], l.dropWhile (· == space)) := by
  induction l with
  | nil => exact rewrapWord_first (w := []) (Nat.zero_le cols)
  | cons c l ih =>
    rw [List.length_cons] at hl
    rw [List.splitOn_cons_eq_if_modifyHead, List.dropWhile_cons]
    split
    · rw [List.foldl_cons, rewrapWord_first (w := []) (Nat.zero_le cols), ih (by omega)]
    · obtain ⟨w, ws, hw⟩ := List.exists_cons_of_ne_nil (List.splitOn_ne_nil space l)
      have htext := splitOn_text hw
      have hlen := congrArg List.length htext
      rw [List.length_append] at hlen
      rw [hw, List.modifyHead_cons, List.foldl_cons, rewrapWord_first (by rw [List.length_cons]; omega),
        foldl_fits ws (List.cons_ne_nil _ _) (by rw [List.length_cons]; omega), List.cons_append, ← htext]

theorem length_rstrip_le (l : Str) : (rstrip l).length ≤ l.length := (List.rdropWhile_prefix isSpace l).length_le

/-- A line that fits is one row, without its leading and trailing spaces. -/
theorem rewrapLine_short {cols : Nat} (hc : 0 < cols) {l : Str} (hl : ∀ c ∈ l, Printable c) (hlen : l.length ≤ cols) :
    rewrapLine l cols = [(rstrip l).dropWhile (· == space)] := by
  by_cases h : Blank l
  · rw [rewrapLine_blank h, h]
    rfl
  · have hrows := rewrapLine_eq hc hl h
    rw [wrapWords, foldl_short (Nat.le_trans (length_rstrip_le l) hlen)] at hrows
    cases hrow : (rstrip l).dropWhile (· == space) with
    | nil =>
      rw [hrow] at hrows
      exact absurd hrows (rewrapLine_ne_nil l cols)
    | cons c row =>
      rw [hrow] at hrows
      exact hrows

theorem ljust_replicate {cols n : Nat} {l : Str} (hl : l.length + n ≤ cols) :
    ljust (l ++ List.replicate n space) cols = ljust l cols := by
  rw [ljust, ljust, List.append_assoc, List.replicate_append_replicate, List.length_append, List.length_replicate]
  congr 2
  omega

theorem ljust_rstrip {cols : Nat} {l : Str} (hl : ∀ c ∈ l, Printable c) (hlen : l.length ≤ cols) :
    ljust (rstrip l) cols = ljust l cols := by
  obtain ⟨n, hn⟩ := exists_rstrip hl
  have hlen' := congrArg List.length hn
  rw [List.length_append, List.length_replicate] at hlen'
  conv_rhs => rw [hn]
  exact (ljust_replicate (by omega)).symm

theorem blank_of_spaces {l : Str} (h : ∀ c ∈ rstrip l, c = space) : Blank l := by
  refine (List.rdropWhile_idempotent isSpace l).symm.trans (List.rdropWhile_eq_nil_iff.2 fun c hc => ?_)
  rw [h c hc]
  rfl

/-- Such a row, padded, shows the line unless the line is indented. -/
theorem ljust_row_iff {cols : Nat} {l : Str} (hl : ∀ c ∈ l, Printable c) (hlen : l.length ≤ cols) :
    ljust ((rstrip l).dropWhile (· == space)) cols = ljust l cols ↔ (l.head? = some space → Blank l) := by
  obtain ⟨n, hn⟩ := exists_rstrip hl
  rw [← ljust_rstrip hl hlen]
  cases hstrip : rstrip l with
  | nil => exact iff_of_true rfl fun _ => hstrip
  | cons c row =>
    have hhead : l.head? = some c := by
      rw [hn, hstrip]
      rfl
    by_cases hc : c = space
    · subst hc
      have hblank : ¬ Blank l := by
        rw [Blank, hstrip]
        exact List.cons_ne_nil _ _
      refine iff_of_false (fun he => ?_) fun h => hblank (h hhead)
      -- The row starts with a character that is no space, the line with a space.
      cases hrow : (space :: row).dropWhile (· == space) with
      | nil =>
        refine hblank (blank_of_spaces fun d hd => ?_)
        rw [hstrip] at hd
        exact beq_iff_eq.1 (List.dropWhile_eq_nil_iff.1 hrow d hd)
      | cons d row' =>
        have hd := List.head?_dropWhile_not (· == space) (space :: row)
        rw [hrow] at hd he
        have hds := (List.cons.inj he).1
        subst hds
        exact absurd (show (space == space) = false from hd) (by decide)
    · refine iff_of_true ?_ fun h => absurd (Option.some.inj (hhead.symm.trans h)) hc
      rw [List.dropWhile_cons_of_neg (by simpa using hc)]

/-! ## A space where a line could end -/

/-- What is pending starts the next row. -/
theorem pending_starts (cols : Nat) (ws out : List Str) {cur : Str} (hcur : cur ≠ []) :
    ∃ r rows, flushPending (ws.foldl (rewrapWord cols) (out, cur)) = out ++ r :: rows ∧ cur <+: r := by
  induction ws generalizing cur with
  | nil =>
    obtain ⟨c, cur, rfl⟩ := List.exists_cons_of_ne_nil hcur
    exact ⟨c :: cur, [], rfl, List.prefix_rfl⟩
  | cons w ws ih =>
    rw [List.foldl_cons]
    rcases Nat.lt_or_ge cols (cur.length + 1 + w.length) with h | h
    · obtain ⟨c, cur, rfl⟩ := List.exists_cons_of_ne_nil hcur
      rw [rewrapWord_breaks (.inr h), (rewrapWord_local cols).foldl, flush_shift]
      exact ⟨c :: cur, _, List.append_assoc .., List.prefix_rfl⟩
    · rw [rewrapWord_joins hcur h]
      have hjoined : cur ++ [space] ++ w ≠ [] := by simp
      obtain ⟨r, rows, hrows, hr⟩ := ih hjoined
      refine ⟨r, rows, hrows, List.IsPrefix.trans ?_ hr⟩
      rw [List.append_assoc]
      exact List.prefix_append cur _

/-- Where the next word does not fit on the last row, the rest is wrapped on its own. -/
theorem wrapWords_breaks {cols : Nat} (hc : 0 < cols) {ws : List Str} {last w : Str}
    (hlast : (wrapWords cols ws).getLast? = some last) (h : cols < last.length + 1 + w.length) (rest : List Str) :
    wrapWords cols (ws ++ w :: rest) = wrapWords cols ws ++ wrapWords cols (w :: rest) := by
  have hfit := (rowsFit_start cols).words hc ws
  unfold wrapWords at hlast ⊢
  rw [List.foldl_append, List.foldl_cons, List.foldl_cons]
  generalize ws.foldl (rewrapWord cols) ([], []) = st at hfit hlast ⊢
  obtain ⟨out, cur⟩ := st
  have hbreak : cur = [] ∨ cols < cur.length + 1 + w.length := by
    by_cases hcur : cur = []
    · exact .inl hcur
    · obtain ⟨c, cur, rfl⟩ := List.exists_cons_of_ne_nil hcur
      change (out ++ [c :: cur]).getLast? = some last at hlast
      rw [List.getLast?_concat, Option.some.injEq] at hlast
      rw [hlast]
      exact .inr h
  rw [rewrapWord_breaks hbreak, (rewrapWord_local cols).foldl, flush_shift]

/-- Where it does fit, the last row gets longer. -/
theorem wrapWords_joins {cols : Nat} (hc : 0 < cols) {ws : List Str} {last w : Str}
    (hlast : (wrapWords cols ws).getLast? = some last) (h : last.length + 1 + w.length ≤ cols) (rest : List Str) :
    ∃ front r rows, wrapWords cols ws = front ++ [last] ∧ wrapWords cols (ws ++ w :: rest) = front ++ r :: rows ∧
      last.length < r.length := by
  have hfit := (rowsFit_start cols).words hc ws
  unfold wrapWords at hlast ⊢
  rw [List.foldl_append, List.foldl_cons]
  generalize ws.foldl (rewrapWord cols) ([], []) = st at hfit hlast ⊢
  obtain ⟨out, cur⟩ := st
  by_cases hcur : cur = []
  · -- With nothing pending the last row is full, and nothing fits on it.
    subst hcur
    have := hfit.full rfl last hlast
    omega
  · obtain ⟨c, cur, rfl⟩ := List.exists_cons_of_ne_nil hcur
    have hl : c :: cur = last := by
      change (out ++ [c :: cur]).getLast? = some last at hlast
      rwa [List.getLast?_concat, Option.some.injEq] at hlast
    subst hl
    rw [rewrapWord_joins hcur h]
    have hjoined : c :: cur ++ [space] ++ w ≠ [] := by simp
    obtain ⟨r, rows, hrows, hr⟩ := pending_starts cols rest out hjoined
    refine ⟨out, r, rows, rfl, hrows, Nat.lt_of_lt_of_le ?_ hr.length_le⟩
    simp only [List.length_append, List.length_singleton]
    omega

theorem wrapWords_replicate (cols n : Nat) (ws : List Str) :
    wrapWords cols (List.replicate n [] ++ ws) = wrapWords cols ws := by
  induction n with
  | zero => rfl
  | succ n ih =>
    rw [← ih, List.replicate_succ, wrapWords, List.cons_append, List.foldl_cons,
      rewrapWord_first (w := []) (Nat.zero_le cols)]
    rfl

/-! ## Words of a text in two parts -/

theorem splitOn_replicate (l : Str) (n : Nat) :
    (l ++ List.replicate n space).splitOn space = l.splitOn space ++ List.replicate n [] := by
  induction n generalizing l with
  | zero => simp
  | succ n ih =>
    have hone : List.splitOn space [] = [([] : Str)] := rfl
    rw [List.replicate_succ, List.splitOn_append_cons_self, ← List.nil_append (List.replicate n space), ih, hone]
    rfl

/-- The first word. -/
def firstWord (l : Str) : Str := l.takeWhile (· ≠ space)

theorem splitOn_head (l : Str) : ∃ ws, l.splitOn space = firstWord l :: ws := by
  induction l with
  | nil => exact ⟨[], rfl⟩
  | cons c l ih =>
    obtain ⟨ws, hws⟩ := ih
    rw [List.splitOn_cons_eq_if_modifyHead, firstWord, List.takeWhile_cons]
    split
    · rename_i hc
      rw [if_neg (by simpa using hc)]
      exact ⟨_, rfl⟩
    · rename_i hc
      rw [if_pos (by simpa using hc), hws]
      exact ⟨ws, rfl⟩

theorem firstWord_append (l : Str) {t : Str} (ht : ∀ c, t.head? = some c → c = space) :
    firstWord (l ++ t) = firstWord l := by
  induction l with
  | nil =>
    cases t with
    | nil => rfl
    | cons c t =>
      rw [ht c rfl]
      rfl
  | cons c l ih =>
    unfold firstWord at ih ⊢
    rw [List.cons_append, List.takeWhile_cons, List.takeWhile_cons, ih]

end CalcBridge.Relay
