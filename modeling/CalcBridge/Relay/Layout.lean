import CalcBridge.LinkLib.Text
/-!
# Fixed-grid page layout (`tools/relay_server.py`)

The relay turns whatever the model returned into pages of `rows` rows of
`cols` columns: clamp to printable ASCII, wrap each line greedily, pack the
rows into pages, pad every page to the full grid.
-/
open LinkLib LinkLib.Text

namespace CalcBridge.Relay

def pageCols : Nat := 16
def pageRows : Nat := 7
def pageChars : Nat := pageCols * pageRows
def maxPages : Nat := 8

/-- One entry of the model's page list: a dict with its `lines` (absent or
null is `none`), or a plain string. -/
inductive Entry where
  | dict (lines : Option (List Str))
  | text (s : Str)
  deriving DecidableEq, Repr

/-- `_ascii_clamp`. -/
def asciiClamp (s : Str) (n : Nat) : Str := (s.map fun c => if Printable c then c else space).take n

/-- `if pending: done.append(pending)`. -/
def flushPending {α : Type} (st : List (List α) × List α) : List (List α) :=
  if st.2.isEmpty then st.1 else st.1 ++ [st.2]

/-! ## Wrapping -/

/-- `w[k:k + cols] for k in range(0, len(w), cols)`. -/
def slices (cols : Nat) (w : Str) : List Str :=
  (List.range ((w.length + cols - 1) / cols)).map fun i => (w.drop (i * cols)).take cols

/-- One slice of an overlong word: a full one is a row, the last short one is pending. -/
def rewrapSlice (cols : Nat) (st : List Str × Str) (chunk : Str) : List Str × Str :=
  if chunk.length = cols then (st.1 ++ [chunk], st.2) else (st.1, chunk)

/-- One word of `_rewrap_line`'s loop. The state is `out` and `cur`. -/
def rewrapWord (cols : Nat) (st : List Str × Str) (w : Str) : List Str × Str :=
  let (out, cur) := st
  if w.length > cols then
    (slices cols w).foldl (rewrapSlice cols) (flushPending (out, cur), [])
  else if cur = [] then (out, w)
  else if cur.length + 1 + w.length ≤ cols then (out, cur ++ [space] ++ w)
  else (out ++ [cur], w)

/-- `_rewrap_line`. -/
def rewrapLine (line : Str) (cols : Nat) : List Str :=
  let line := rstrip line
  if line = [] then [[]]
  else
    let out := flushPending ((line.splitOn space).foldl (rewrapWord cols) ([], []))
    if out = [] then [[]] else out

/-! ## Packing -/

/-- An item of `logical`: a line, or the `PAGE_BREAK` sentinel. -/
inductive Item where
  | pageBreak
  | line (s : Str)
  deriving DecidableEq, Repr

def entryLines (cols rows maxPages : Nat) : Entry → List Str
  | .dict lines => (lines.getD []).map fun ln => asciiClamp ln (cols * rows)
  | .text s => (asciiClamp s (cols * rows * maxPages)).splitOn newline

/-- The `logical` list: every entry's lines, a break before an entry when
something precedes it. -/
def logicalItems (cols rows maxPages : Nat) (entries : List Entry) : List Item :=
  entries.foldl (fun logical e =>
    (if logical = [] then logical else logical ++ [.pageBreak]) ++
      (entryLines cols rows maxPages e).map .line) []

/-- One wrapped row. The state is `pages` and `cur_rows`. -/
def packRow (rows : Nat) (st : List (List Str) × List Str) (wrapped : Str) : List (List Str) × List Str :=
  if st.2.length ≥ rows then (st.1 ++ [st.2], [wrapped]) else (st.1, st.2 ++ [wrapped])

def packItem (cols rows : Nat) (st : List (List Str) × List Str) : Item → List (List Str) × List Str
  | .pageBreak => (flushPending st, [])
  | .line s => (rewrapLine s cols).foldl (packRow rows) st

/-- The pages of rows before the cap. -/
def packPages (cols rows : Nat) (items : List Item) : List (List Str) :=
  let pages := flushPending (items.foldl (packItem cols rows) ([], []))
  if pages = [] then [[[]]] else pages

/-- A page padded to `rows` rows of `cols` characters. -/
def padPage (cols rows : Nat) (pageRows : List Str) : List Str :=
  let padded := pageRows.take rows
  (padded ++ List.replicate (rows - padded.length) []).map fun ln : Str => ljust (ln.take cols) cols

/-- The padded rows of every page `_layout_pages` returns. -/
def layoutRows (entries : List Entry) (cols rows maxPages : Nat) : List (List Str) :=
  ((packPages cols rows (logicalItems cols rows maxPages entries)).take maxPages).map (padPage cols rows)

/-- `_layout_pages`: each page is its rows, joined with nothing between. -/
def layoutPages (entries : List Entry) (cols : Nat := pageCols) (rows : Nat := pageRows)
    (maxPages : Nat := maxPages) : List Str :=
  (layoutRows entries cols rows maxPages).map List.flatten

/-! ## Every row is printable -/

theorem clamp_printable (s : Str) (n : Nat) : ∀ c ∈ asciiClamp s n, Printable c := by
  intro c hc
  obtain ⟨d, -, rfl⟩ := List.mem_map.1 (List.mem_of_mem_take hc)
  split
  · assumption
  · decide

theorem slices_subset {cols : Nat} {w s : Str} (hs : s ∈ slices cols w) : ∀ c ∈ s, c ∈ w := by
  obtain ⟨i, -, rfl⟩ := List.mem_map.1 hs
  exact fun c hc => List.mem_of_mem_drop (List.mem_of_mem_take hc)

section Pending
variable {α : Type} {P : α → Prop}

/-- Everything in the finished lists and in the pending one meets `P`. -/
def Meet (P : α → Prop) (st : List (List α) × List α) : Prop := (∀ r ∈ st.1, ∀ c ∈ r, P c) ∧ ∀ c ∈ st.2, P c

theorem Meet.push {out : List (List α)} {cur next : List α} (h : Meet P (out, cur)) (hn : ∀ c ∈ next, P c) :
    Meet P (out ++ [cur], next) := by
  refine ⟨?_, hn⟩
  intro r hr
  rcases List.mem_append.1 hr with hr | hr
  · exact h.1 r hr
  · rw [List.mem_singleton.1 hr]; exact h.2

theorem Meet.flush {st : List (List α) × List α} (h : Meet P st) : Meet P (flushPending st, []) := by
  unfold flushPending
  split
  · exact ⟨h.1, by simp⟩
  · exact h.push (by simp)

end Pending

section Rows
variable {P : Nat → Prop}

theorem slices_meet (cols : Nat) (chunks : List Str) (hc : ∀ s ∈ chunks, ∀ c ∈ s, P c) (st : List Str × Str)
    (h : Meet P st) : Meet P (chunks.foldl (rewrapSlice cols) st) := by
  induction chunks generalizing st with
  | nil => exact h
  | cons s chunks ih =>
    refine ih (fun s' hs' => hc s' (by simp [hs'])) _ ?_
    unfold rewrapSlice
    split
    · refine ⟨?_, h.2⟩
      intro r hr
      rcases List.mem_append.1 hr with hr | hr
      · exact h.1 r hr
      · rw [List.mem_singleton.1 hr]; exact hc s (by simp)
    · exact ⟨h.1, hc s (by simp)⟩

theorem rewrapWord_meet (cols : Nat) (hsp : P space) (st : List Str × Str) (h : Meet P st) (w : Str)
    (hw : ∀ c ∈ w, P c) : Meet P (rewrapWord cols st w) := by
  obtain ⟨out, cur⟩ := st
  unfold rewrapWord
  dsimp only
  split
  · exact slices_meet cols _ (fun s hs c hc => hw c (slices_subset hs c hc)) _ h.flush
  · split
    · exact ⟨h.1, hw⟩
    · split
      · refine ⟨h.1, ?_⟩
        intro c hc
        simp only [List.mem_append, List.mem_singleton] at hc
        rcases hc with (hc | rfl) | hc
        · exact h.2 c hc
        · exact hsp
        · exact hw c hc
      · exact h.push hw

theorem rewrapWords_meet (cols : Nat) (hsp : P space) (ws : List Str) (hw : ∀ w ∈ ws, ∀ c ∈ w, P c)
    (st : List Str × Str) (h : Meet P st) : Meet P (ws.foldl (rewrapWord cols) st) := by
  induction ws generalizing st with
  | nil => exact h
  | cons w ws ih =>
    exact ih (fun w' hw' => hw w' (by simp [hw'])) _ (rewrapWord_meet cols hsp st h w (hw w (by simp)))

theorem rewrapLine_meet (cols : Nat) (hsp : P space) (line : Str) (hl : ∀ c ∈ line, P c) :
    ∀ r ∈ rewrapLine line cols, ∀ c ∈ r, P c := by
  have hwords : ∀ w ∈ (rstrip line).splitOn space, ∀ c ∈ w, P c :=
    fun w hw c hc => hl c (mem_of_mem_rstrip (mem_of_mem_splitOn hw hc))
  have h := (rewrapWords_meet cols hsp _ hwords ([], []) ⟨by simp, by simp⟩).flush
  unfold rewrapLine
  dsimp only
  split
  · simp
  · split
    · simp
    · exact h.1

end Rows

section Pages
variable {P : Str → Prop}

theorem packRows_meet (rows : Nat) (ws : List Str) (hw : ∀ w ∈ ws, P w) (st : List (List Str) × List Str)
    (h : Meet P st) : Meet P (ws.foldl (packRow rows) st) := by
  induction ws generalizing st with
  | nil => exact h
  | cons w ws ih =>
    refine ih (fun w' hw' => hw w' (by simp [hw'])) _ ?_
    unfold packRow
    split
    · exact h.push (by simpa using hw w (by simp))
    · refine ⟨h.1, ?_⟩
      intro r hr
      rcases List.mem_append.1 hr with hr | hr
      · exact h.2 r hr
      · rw [List.mem_singleton.1 hr]; exact hw w (by simp)

theorem packItems_meet (cols rows : Nat) (items : List Item)
    (hi : ∀ s, .line s ∈ items → ∀ w ∈ rewrapLine s cols, P w) (st : List (List Str) × List Str)
    (h : Meet P st) : Meet P (items.foldl (packItem cols rows) st) := by
  induction items generalizing st with
  | nil => exact h
  | cons it items ih =>
    refine ih (fun s hs => hi s (by simp [hs])) _ ?_
    cases it with
    | pageBreak => exact h.flush
    | line s => exact packRows_meet rows _ (hi s (by simp)) st h

theorem packPages_meet (cols rows : Nat) (items : List Item)
    (hi : ∀ s, .line s ∈ items → ∀ w ∈ rewrapLine s cols, P w) (hnil : P []) :
    ∀ p ∈ packPages cols rows items, ∀ r ∈ p, P r := by
  have h := (packItems_meet cols rows items hi ([], []) ⟨by simp, by simp⟩).flush
  unfold packPages
  dsimp only
  split
  · simpa using hnil
  · exact h.1

end Pages

theorem logical_lines {cols rows maxPages : Nat} {entries : List Entry} {s : Str}
    (h : .line s ∈ logicalItems cols rows maxPages entries) : ∀ c ∈ s, Printable c := by
  have hentry : ∀ e, ∀ s ∈ entryLines cols rows maxPages e, ∀ c ∈ s, Printable c := by
    intro e s hs
    cases e with
    | dict lines =>
      obtain ⟨ln, -, rfl⟩ := List.mem_map.1 hs
      exact clamp_printable _ _
    | text t => exact fun c hc => clamp_printable _ _ c (mem_of_mem_splitOn hs hc)
  have hfold : ∀ (es : List Entry) (acc : List Item), (∀ s, .line s ∈ acc → ∀ c ∈ s, Printable c) →
      ∀ s, .line s ∈ es.foldl (fun logical e => (if logical = [] then logical else logical ++ [.pageBreak]) ++
        (entryLines cols rows maxPages e).map .line) acc → ∀ c ∈ s, Printable c := by
    intro es
    induction es with
    | nil => exact fun acc h => h
    | cons e es ih =>
      intro acc hacc
      apply ih
      intro s hs
      rcases List.mem_append.1 hs with hs | hs
      · split at hs
        · exact hacc s hs
        · exact hacc s (by simpa using hs)
      · obtain ⟨t, ht, he⟩ := List.mem_map.1 hs
        cases he
        exact hentry e _ ht
  exact hfold entries [] (by simp) s h

/-! ## The grid -/

/-- Every padded page is `rows` rows of exactly `cols` printable characters. -/
theorem layoutRows_grid (entries : List Entry) (cols rows maxPages : Nat) :
    ∀ p ∈ layoutRows entries cols rows maxPages, p.length = rows ∧
      ∀ r ∈ p, r.length = cols ∧ ∀ c ∈ r, Printable c := by
  intro p hp
  obtain ⟨q, hq, rfl⟩ := List.mem_map.1 hp
  have hpr := packPages_meet (P := fun r => ∀ c ∈ r, Printable c) cols rows _
    (fun s hs => rewrapLine_meet cols (by decide) s (logical_lines hs)) (by simp) q (List.mem_of_mem_take hq)
  refine ⟨by simp [padPage], ?_⟩
  intro r hr
  obtain ⟨ln, hln, rfl⟩ := List.mem_map.1 hr
  refine ⟨by simp, ?_⟩
  intro c hc
  rcases mem_ljust hc with hc | rfl
  · have hc := List.mem_of_mem_take hc
    rcases List.mem_append.1 hln with hln | hln
    · exact hpr ln (List.mem_of_mem_take hln) c hc
    · rw [List.eq_of_mem_replicate hln] at hc; cases hc
  · decide

theorem packPages_ne_nil (cols rows : Nat) (items : List Item) : packPages cols rows items ≠ [] := by
  unfold packPages
  dsimp only
  split <;> simp_all

/-- Between one page and the cap. -/
theorem layoutRows_count (entries : List Entry) (cols rows : Nat) {maxPages : Nat} (hm : 0 < maxPages) :
    0 < (layoutRows entries cols rows maxPages).length ∧ (layoutRows entries cols rows maxPages).length ≤ maxPages := by
  have := List.length_pos_iff.2 (packPages_ne_nil cols rows (logicalItems cols rows maxPages entries))
  simp only [layoutRows, List.length_map, List.length_take]
  omega

end CalcBridge.Relay
