import Mathlib.Data.List.Forall2
import Mathlib.Data.List.GetD
import CalcBridge.Relay.Newlines
import CalcBridge.Relay.Reply
/-!
# The pages of an entry (`tools/relay_server.py`, `_layout_pages`)

Every entry is packed into pages of its own, so the pages laid out are the
entries' pages in order, cut at the cap. From that: nothing is lost before the
cap, a reply that follows the schema keeps its pages, and the rows of a plain
string are those of the one line its newlines are clamped to.
-/
open LinkLib LinkLib.Text

namespace CalcBridge.Relay

/-! ## Packing rows -/

section Pack
variable {cols rows maxPages : Nat}

theorem packRow_local (rows : Nat) : Local (packRow rows) := by
  rintro pre ⟨pages, cur⟩ w
  unfold packRow shift
  dsimp only
  split
  · exact congrArg (·, [w]) (List.append_assoc ..)
  · rfl

/-- Packing keeps every row, in order. -/
theorem packRows_flatten (ws : List Str) (st : List (List Str) × List Str) :
    (flushPending (ws.foldl (packRow rows) st)).flatten = (flushPending st).flatten ++ ws := by
  induction ws generalizing st with
  | nil => simp
  | cons w ws ih =>
    have hstep : (flushPending (packRow rows st w)).flatten = (flushPending st).flatten ++ [w] := by
      unfold packRow
      split
      · simp [flatten_flush]
      · simp [flatten_flush]
    rw [List.foldl_cons, ih, hstep, List.append_assoc]
    rfl

theorem packRows_size (hr : 0 < rows) (ws : List Str) (st : List (List Str) × List Str)
    (h : (∀ p ∈ st.1, p.length ≤ rows) ∧ st.2.length ≤ rows) :
    ∀ p ∈ flushPending (ws.foldl (packRow rows) st), p.length ≤ rows := by
  induction ws generalizing st with
  | nil =>
    intro p hp
    rw [List.foldl_nil] at hp
    unfold flushPending at hp
    split at hp
    · exact h.1 p hp
    · rcases List.mem_append.1 hp with hp | hp
      · exact h.1 p hp
      · rw [List.mem_singleton.1 hp]
        exact h.2
  | cons w ws ih =>
    apply ih
    unfold packRow
    split
    · refine ⟨fun p hp => ?_, hr⟩
      rcases List.mem_append.1 hp with hp | hp
      · exact h.1 p hp
      · rw [List.mem_singleton.1 hp]
        exact h.2
    · refine ⟨h.1, ?_⟩
      rw [List.length_append, List.length_singleton]
      omega

/-- Rows that fit on the pending page are put there. -/
theorem packRows_fit (ws : List Str) (cur : List Str) (h : cur.length + ws.length ≤ rows) (pages : List (List Str)) :
    ws.foldl (packRow rows) (pages, cur) = (pages, cur ++ ws) := by
  induction ws generalizing cur with
  | nil => simp
  | cons w ws ih =>
    rw [List.length_cons] at h
    have hstep : packRow rows (pages, cur) w = (pages, cur ++ [w]) := if_neg (show ¬ cur.length ≥ rows by omega)
    rw [List.foldl_cons, hstep, ih _ (by rw [List.length_append, List.length_singleton]; omega), List.append_assoc]
    rfl

/-! ## Entry by entry -/

/-- The rows an entry is wrapped to. -/
def entryRows (cols rows maxPages : Nat) (e : Entry) : List Str :=
  (entryLines cols rows maxPages e).flatMap (rewrapLine · cols)

/-- Those rows, packed on their own. -/
def entryPages (cols rows maxPages : Nat) (e : Entry) : List (List Str) :=
  flushPending ((entryRows cols rows maxPages e).foldl (packRow rows) ([], []))

theorem packLines (lines : List Str) (st : List (List Str) × List Str) :
    (lines.map Item.line).foldl (packItem cols rows) st = (lines.flatMap (rewrapLine · cols)).foldl (packRow rows) st := by
  rw [List.foldl_map, List.foldl_flatMap]
  rfl

/-- No page holds rows of two entries: the pages are the entries' own, in order. -/
theorem packItems_eq (entries : List Entry) :
    flushPending ((logicalItems cols rows maxPages entries).foldl (packItem cols rows) ([], [])) =
      entries.flatMap (entryPages cols rows maxPages) := by
  induction entries using List.reverseRecOn with
  | nil => rfl
  | append_singleton entries e ih =>
    have hlogical : logicalItems cols rows maxPages (entries ++ [e]) =
        (if logicalItems cols rows maxPages entries = [] then logicalItems cols rows maxPages entries
          else logicalItems cols rows maxPages entries ++ [.pageBreak]) ++
          (entryLines cols rows maxPages e).map .line := by
      rw [logicalItems, List.foldl_append]
      rfl
    rw [hlogical, List.foldl_append, packLines, List.flatMap_append, ← ih, List.flatMap_singleton]
    split
    · rename_i hnone
      rw [hnone]
      rfl
    · -- The break flushes what is pending, and the entry starts on a new page.
      rw [List.foldl_append, List.foldl_cons, List.foldl_nil, packItem, eq_shift (flushPending _) [],
        (packRow_local rows).foldl, flush_shift]
      rfl

theorem packPages_eq (entries : List Entry) :
    packPages cols rows (logicalItems cols rows maxPages entries) =
      if entries.flatMap (entryPages cols rows maxPages) = [] then [[[]]]
      else entries.flatMap (entryPages cols rows maxPages) := by
  rw [packPages, packItems_eq]

/-! ## What the pages say -/

/-- The text of an entry after `_ascii_clamp`. -/
def entryText (cols rows maxPages : Nat) : Entry → Str
  | .dict lines => ((lines.getD []).map fun ln => asciiClamp ln (cols * rows)).flatten
  | .text s => asciiClamp s (cols * rows * maxPages)

/-- No newline is left in a clamped string. -/
theorem entryLines_text (s : Str) : entryLines cols rows maxPages (.text s) = [asciiClamp s (cols * rows * maxPages)] :=
  List.splitOn_eq_singleton fun h => absurd (clamp_printable _ _ _ h) (by decide)

theorem entryLines_flatten (e : Entry) : (entryLines cols rows maxPages e).flatten = entryText cols rows maxPages e := by
  cases e with
  | dict lines => rfl
  | text s => rw [entryLines_text, List.flatten_singleton]; rfl

theorem entryLines_printable (e : Entry) : ∀ l ∈ entryLines cols rows maxPages e, ∀ c ∈ l, Printable c := by
  cases e with
  | dict lines =>
    intro l hl
    obtain ⟨ln, -, rfl⟩ := List.mem_map.1 hl
    exact clamp_printable _ _
  | text s =>
    rw [entryLines_text]
    simpa using clamp_printable s (cols * rows * maxPages)

theorem entryPages_flatten (e : Entry) : (entryPages cols rows maxPages e).flatten = entryRows cols rows maxPages e :=
  packRows_flatten _ _

theorem entryRows_ink (hc : 0 < cols) (e : Entry) :
    ink (entryRows cols rows maxPages e).flatten = ink (entryText cols rows maxPages e) := by
  rw [← entryLines_flatten, entryRows, List.flatten_eq_flatMap, List.flatMap_assoc, List.flatten_eq_flatMap]
  apply ink_flatMap_congr
  intro l hl
  rw [List.flatMap_id]
  exact rewrapLine_ink hc (entryLines_printable e l hl)

theorem entryRows_width (hc : 0 < cols) (e : Entry) : ∀ r ∈ entryRows cols rows maxPages e, r.length ≤ cols := by
  intro r hr
  obtain ⟨l, hl, hr⟩ := List.mem_flatMap.1 hr
  exact rewrapLine_width hc (entryLines_printable e l hl) r hr

/-- A page as the string it is sent as. -/
def grid (cols rows : Nat) (page : List Str) : Str := (padPage cols rows page).flatten

theorem grid_ink {page : List Str} (hp : page.length ≤ rows) (hw : ∀ r ∈ page, r.length ≤ cols) :
    ink (grid cols rows page) = ink page.flatten := by
  have hrows : ∀ page : List Str, (∀ r ∈ page, r.length ≤ cols) →
      ink (page.map fun ln : Str => ljust (ln.take cols) cols).flatten = ink page.flatten := by
    intro page hw
    rw [← List.flatMap_def, List.flatten_eq_flatMap]
    apply ink_flatMap_congr
    intro r hr
    rw [List.take_of_length_le (hw r hr), ljust, ink_append, ink_replicate, List.append_nil]
    rfl
  have hempty : ink ((List.replicate (rows - page.length) ([] : Str)).map fun ln : Str =>
      ljust (ln.take cols) cols).flatten = [] := by
    rw [hrows _ fun r hr => by rw [List.eq_of_mem_replicate hr]; exact Nat.zero_le _, List.flatten_replicate_nil, ink_nil]
  rw [grid, padPage, List.take_of_length_le hp, List.map_append, List.flatten_append, ink_append, hrows page hw, hempty,
    List.append_nil]

theorem entryPages_ink (hc : 0 < cols) (hr : 0 < rows) (e : Entry) :
    ink ((entryPages cols rows maxPages e).map (grid cols rows)).flatten = ink (entryText cols rows maxPages e) := by
  have hgrid : ∀ p ∈ entryPages cols rows maxPages e, ink (grid cols rows p) = ink p.flatten := by
    intro p hp
    apply grid_ink
    · exact packRows_size hr _ _ ⟨by simp, Nat.zero_le _⟩ p hp
    · intro r hrow
      have hmem : r ∈ entryRows cols rows maxPages e := by
        rw [← entryPages_flatten]
        exact List.mem_flatten.2 ⟨p, hp, hrow⟩
      exact entryRows_width hc e r hmem
  rw [← List.flatMap_def, ink_flatMap_congr hgrid, List.flatMap_def, ← List.flatten_flatten, entryPages_flatten,
    entryRows_ink hc]

end Pack

/-! ## Nothing is lost before the cap -/

/-- What `_layout_pages` would return without the cap on the pages. -/
def uncappedPages (entries : List Entry) : List Str :=
  (packPages pageCols pageRows (logicalItems pageCols pageRows maxPages entries)).map (grid pageCols pageRows)

/-- The pages of one entry as strings. -/
def entryGrids (e : Entry) : List Str := (entryPages pageCols pageRows maxPages e).map (grid pageCols pageRows)

theorem uncappedPages_eq (entries : List Entry) :
    uncappedPages entries = if (entries.map entryGrids).flatten = [] then [List.replicate pageChars space]
      else (entries.map entryGrids).flatten := by
  have hmap : (entries.map entryGrids).flatten =
      (entries.flatMap (entryPages pageCols pageRows maxPages)).map (grid pageCols pageRows) := by
    rw [List.map_flatMap]
    rfl
  rw [uncappedPages, packPages_eq, hmap]
  simp only [List.map_eq_nil_iff]
  split
  · rfl
  · rfl

theorem layoutPages_eq_take (entries : List Entry) : layoutPages entries = (uncappedPages entries).take maxPages := by
  rw [layoutPages, layoutRows, uncappedPages, List.map_map, List.map_take]
  rfl

/-- The layout is cut from the pages of the single entries, in order, each of
which holds the characters of its entry and no others. -/
theorem layout_keeps_text (entries : List Entry) :
    layoutPages entries = (uncappedPages entries).take maxPages ∧
    (∃ blocks : List (List Str),
      List.Forall₂ (fun e block => ink block.flatten = ink (entryText pageCols pageRows maxPages e)) entries blocks ∧
      uncappedPages entries = if blocks.flatten = [] then [List.replicate pageChars space] else blocks.flatten) ∧
    ink (layoutPages entries).flatten <+: ink (entries.flatMap (entryText pageCols pageRows maxPages)) ∧
    ((uncappedPages entries).length ≤ maxPages →
      ink (layoutPages entries).flatten = ink (entries.flatMap (entryText pageCols pageRows maxPages))) := by
  have hblock (e : Entry) : ink (entryGrids e).flatten = ink (entryText pageCols pageRows maxPages e) :=
    entryPages_ink (by decide) (by decide) e
  have hink : ink (entries.map entryGrids).flatten.flatten =
      ink (entries.flatMap (entryText pageCols pageRows maxPages)) := by
    rw [List.flatten_flatten, List.map_map, ← List.flatMap_def]
    exact ink_flatMap_congr fun e _ => hblock e
  have hall : ink (uncappedPages entries).flatten = ink (entries.flatMap (entryText pageCols pageRows maxPages)) := by
    rw [uncappedPages_eq, ← hink]
    split
    · rename_i hnone
      rw [hnone]
      rfl
    · rfl
  refine ⟨layoutPages_eq_take entries, ⟨entries.map entryGrids, ?_, uncappedPages_eq entries⟩, ?_, ?_⟩
  · exact List.forall₂_map_right_iff.2 (List.forall₂_same.2 fun e _ => hblock e)
  · rw [← hall, layoutPages_eq_take]
    conv_rhs => rw [← List.take_append_drop maxPages (uncappedPages entries), List.flatten_append, ink_append]
    exact List.prefix_append _ _
  · intro hfit
    rw [layoutPages_eq_take, List.take_of_length_le hfit, hall]

/-! ## A reply that follows the schema -/

/-- One to eight pages of one to seven lines, each at most a row of printable characters. -/
structure CompliantReply where
  pages : List (List Str)
  count : 1 ≤ pages.length ∧ pages.length ≤ maxPages
  rows : ∀ p ∈ pages, 1 ≤ p.length ∧ p.length ≤ pageRows
  width : ∀ p ∈ pages, ∀ ln ∈ p, ln.length ≤ pageCols ∧ ∀ c ∈ ln, Printable c

def CompliantReply.entries (r : CompliantReply) : List Entry := r.pages.map fun p => .dict (some p)

/-- Row `R` of a page, counted from 0, as the pager cuts it out. -/
def rowOf (page : Str) (R : Nat) : Str := (page.drop (pageCols * R)).take pageCols

/-- As many pages as the model wrote, and each row is the model's line, padded. -/
def ShownAsWritten (r : CompliantReply) : Prop :=
  (layoutPages r.entries).length = r.pages.length ∧
  ∀ (P : Nat) (page : Str) (lines : List Str), (layoutPages r.entries)[P]? = some page → r.pages[P]? = some lines →
    ∀ R < pageRows, rowOf page R = ljust (lines.getD R []) pageCols

/-- The one row a line of at most `pageCols` characters is wrapped to. -/
def soleRow (ln : Str) : Str := (rstrip ln).dropWhile (· == space)

theorem clamp_of_printable {s : Str} {n : Nat} (hs : ∀ c ∈ s, Printable c) (hn : s.length ≤ n) : asciiClamp s n = s := by
  rw [asciiClamp, List.map_congr_left fun c hc => if_pos (hs c hc), List.map_id', List.take_of_length_le hn]

/-- A page of such lines is one page of their rows. -/
theorem entryPages_short {p : List Str} (hp : 1 ≤ p.length ∧ p.length ≤ pageRows)
    (hw : ∀ ln ∈ p, ln.length ≤ pageCols ∧ ∀ c ∈ ln, Printable c) :
    entryPages pageCols pageRows maxPages (.dict (some p)) = [p.map soleRow] := by
  have hlines : entryLines pageCols pageRows maxPages (.dict (some p)) = p := by
    have hid : ∀ ln ∈ p, asciiClamp ln (pageCols * pageRows) = ln := fun ln hln =>
      clamp_of_printable (hw ln hln).2 (Nat.le_trans (hw ln hln).1 (by decide))
    exact (List.map_congr_left hid).trans (List.map_id' p)
  have hrows : entryRows pageCols pageRows maxPages (.dict (some p)) = p.map soleRow := by
    have hone : ∀ ln ∈ p, rewrapLine ln pageCols = [soleRow ln] := fun ln hln =>
      rewrapLine_short (by decide) (hw ln hln).2 (hw ln hln).1
    rw [entryRows, hlines, List.flatMap_congr hone, ← List.map_eq_flatMap]
  have hne : p.map soleRow ≠ [] := fun h => by rw [List.map_eq_nil_iff.1 h] at hp; exact absurd hp.1 (by decide)
  rw [entryPages, hrows, packRows_fit _ _ (by simpa using hp.2)]
  obtain ⟨r, rs, hr⟩ := List.exists_cons_of_ne_nil hne
  rw [hr]
  rfl

/-- The layout of a compliant reply is its pages, line by line. -/
theorem layoutPages_compliant (r : CompliantReply) :
    layoutPages r.entries = r.pages.map fun p => grid pageCols pageRows (p.map soleRow) := by
  have hblock : ∀ p ∈ r.pages, entryGrids (.dict (some p)) = [grid pageCols pageRows (p.map soleRow)] := by
    intro p hp
    rw [entryGrids, entryPages_short (r.rows p hp) (r.width p hp)]
    rfl
  have hgrids : (r.entries.map entryGrids).flatten = r.pages.map fun p => grid pageCols pageRows (p.map soleRow) := by
    rw [CompliantReply.entries, List.map_map, ← List.flatMap_def, List.map_eq_flatMap]
    exact List.flatMap_congr hblock
  have hne : (r.entries.map entryGrids).flatten ≠ [] := by
    rw [hgrids]
    exact List.ne_nil_of_length_pos (by rw [List.length_map]; exact r.count.1)
  rw [layoutPages_eq_take, uncappedPages_eq, if_neg hne, hgrids, List.take_of_length_le]
  rw [List.length_map]
  exact r.count.2

/-- Row `R` of a page's grid. -/
theorem rowOf_grid {p : List Str} (hp : p.length ≤ pageRows) (hw : ∀ ln ∈ p, ln.length ≤ pageCols) {R : Nat}
    (hR : R < pageRows) : rowOf (grid pageCols pageRows p) R = ljust (p.getD R []) pageCols := by
  have hlen : (padPage pageCols pageRows p).length = pageRows := by simp [padPage]
  have hwidth : ∀ r ∈ padPage pageCols pageRows p, r.length = pageCols := by
    intro r hr
    obtain ⟨ln, -, rfl⟩ := List.mem_map.1 hr
    simp
  rw [rowOf, grid, take_drop_flatten _ hwidth R (by rw [hlen]; exact hR)]
  simp only [padPage, List.take_of_length_le hp, List.getElem_map]
  rcases Nat.lt_or_ge R p.length with h | h
  · rw [List.getElem_append_left h, List.take_of_length_le (hw _ (List.getElem_mem h)), List.getD_eq_getElem _ _ h]
  · rw [List.getElem_append_right h, List.getElem_replicate, List.getD_eq_default _ _ h, List.take_nil]

theorem length_soleRow_le (ln : Str) : (soleRow ln).length ≤ ln.length :=
  Nat.le_trans (List.length_dropWhile_le ..) (length_rstrip_le ln)

/-- A compliant reply is shown as written exactly when no line with text in it is indented. -/
theorem shown_as_written_iff (r : CompliantReply) :
    ShownAsWritten r ↔ ∀ p ∈ r.pages, ∀ ln ∈ p, ln.head? = some space → Blank ln := by
  have hrow : ∀ p ∈ r.pages, ∀ R < pageRows,
      rowOf (grid pageCols pageRows (p.map soleRow)) R = ljust (soleRow (p.getD R [])) pageCols := by
    intro p hp R hR
    rw [rowOf_grid (by rw [List.length_map]; exact (r.rows p hp).2) ?_ hR]
    · exact congrArg (ljust · pageCols) (List.getD_map p [] soleRow)
    · intro ln hln
      obtain ⟨l, hl, rfl⟩ := List.mem_map.1 hln
      exact Nat.le_trans (length_soleRow_le l) (r.width p hp l hl).1
  have hline : ∀ p ∈ r.pages, ∀ ln ∈ p,
      (ljust (soleRow ln) pageCols = ljust ln pageCols ↔ (ln.head? = some space → Blank ln)) := fun p hp ln hln =>
    ljust_row_iff (r.width p hp ln hln).2 (r.width p hp ln hln).1
  rw [ShownAsWritten, layoutPages_compliant]
  constructor
  · rintro ⟨-, hshown⟩ p hp ln hln
    obtain ⟨P, hP, rfl⟩ := List.mem_iff_getElem.1 hp
    obtain ⟨R, hR, rfl⟩ := List.mem_iff_getElem.1 hln
    have hR7 := Nat.lt_of_lt_of_le hR (r.rows _ hp).2
    have hpage : (r.pages.map fun p => grid pageCols pageRows (p.map soleRow))[P]? =
        some (grid pageCols pageRows ((r.pages[P]).map soleRow)) := by
      rw [List.getElem?_map, List.getElem?_eq_getElem hP]
      rfl
    have hsame := hshown P _ _ hpage (List.getElem?_eq_getElem hP) R hR7
    rw [hrow _ hp R hR7, List.getD_eq_getElem _ _ hR] at hsame
    exact (hline _ hp _ hln).1 hsame
  · intro hflush
    refine ⟨List.length_map _, fun P page lines hpage hlines R hR => ?_⟩
    rw [List.getElem?_map, hlines, Option.map_some, Option.some.injEq] at hpage
    have hp := List.mem_of_getElem? hlines
    rw [← hpage, hrow lines hp R hR]
    rcases Nat.lt_or_ge R lines.length with h | h
    · rw [List.getD_eq_getElem _ _ h]
      have hmem := List.getElem_mem h
      exact (hline lines hp _ hmem).2 (hflush lines hp _ hmem)
    · rw [List.getD_eq_default _ _ h]
      rfl

def indentedReply : CompliantReply where
  pages := [[str "if x:", str "  y"]]
  count := by decide
  rows := by decide
  width := by decide

/-- The two spaces in front of `y` are gone. -/
theorem indent_is_lost : ¬ ShownAsWritten indentedReply ∧
    (layoutPages indentedReply.entries).map (rowOf · 1) = [ljust (str "y") pageCols] := by
  refine ⟨fun h => ?_, by decide⟩
  have hsecond := h.2 0 _ [str "if x:", str "  y"] rfl rfl 1 (by decide)
  revert hsecond
  decide

/-! ## The newlines of a plain string -/

theorem clamp_append {a b : Str} {n : Nat} (h : (a ++ b).length ≤ n) :
    asciiClamp (a ++ b) n = asciiClamp a n ++ asciiClamp b n := by
  rw [List.length_append] at h
  simp only [asciiClamp, List.map_append]
  rw [List.take_of_length_le (by simpa using h), List.take_of_length_le (by simp; omega),
    List.take_of_length_le (by simp; omega)]

/-- The clamp turns the newlines between lines into spaces. -/
theorem clamp_joined {lines : List Str} {n : Nat} (h : ([newline].intercalate lines).length ≤ n) :
    asciiClamp ([newline].intercalate lines) n = [space].intercalate (lines.map (asciiClamp · n)) := by
  induction lines with
  | nil => exact List.take_nil
  | cons l lines ih =>
    cases lines with
    | nil => simp
    | cons l' ls =>
      rw [List.intercalate_cons_cons] at h ⊢
      have hlen := h
      rw [List.length_append, List.length_append, List.length_singleton] at hlen
      have hone : asciiClamp [newline] n = [space] := List.take_of_length_le (by simp; omega)
      rw [clamp_append h, clamp_append (by rw [List.length_append, List.length_singleton]; omega), hone,
        ih (by omega)]
      exact List.intercalate_cons_cons.symm

theorem entryRows_text {cols rows maxPages : Nat} (s : Str) :
    entryRows cols rows maxPages (.text s) = rewrapLine (asciiClamp s (cols * rows * maxPages)) cols := by
  rw [entryRows, entryLines_text, List.flatMap_singleton]

theorem entryPages_text_ne_nil {cols rows maxPages : Nat} (s : Str) : entryPages cols rows maxPages (.text s) ≠ [] := by
  intro h
  have hrows : (entryPages cols rows maxPages (.text s)).flatten = _ := entryPages_flatten (.text s)
  rw [h, entryRows_text] at hrows
  exact rewrapLine_ne_nil _ _ hrows.symm

/-- The rows of a plain string are those of its clamped lines exactly when the
wrapping breaks at every newline anyway. With other entries around it they are
the rows of its own pages. -/
theorem newlines_survive_iff (s : Str) (hs : s.length ≤ pageChars * maxPages) (before after : List Entry) :
    packPages pageCols pageRows (logicalItems pageCols pageRows maxPages (before ++ .text s :: after)) =
      before.flatMap (entryPages pageCols pageRows maxPages) ++ entryPages pageCols pageRows maxPages (.text s) ++
        after.flatMap (entryPages pageCols pageRows maxPages) ∧
    ((entryPages pageCols pageRows maxPages (.text s)).flatten =
        (s.splitOn newline).flatMap (fun ln => rewrapLine (asciiClamp ln (pageChars * maxPages)) pageCols) ↔
      ((s.splitOn newline).map (asciiClamp · (pageChars * maxPages))).IsChain (BreaksAnyway pageCols)) := by
  constructor
  · rw [packPages_eq, List.flatMap_append, List.flatMap_cons, List.append_assoc, if_neg]
    intro h
    exact entryPages_text_ne_nil s (List.append_eq_nil_iff.1 (List.append_eq_nil_iff.1 h).2).1
  · have hlines : asciiClamp s (pageChars * maxPages) =
        [space].intercalate ((s.splitOn newline).map (asciiClamp · (pageChars * maxPages))) := by
      have hsplit : [newline].intercalate (s.splitOn newline) = s := List.intercalate_splitOn newline
      conv_lhs => rw [← hsplit]
      exact clamp_joined (by rw [hsplit]; exact hs)
    have hprintable : ∀ l ∈ (s.splitOn newline).map (asciiClamp · (pageChars * maxPages)), ∀ c ∈ l, Printable c := by
      intro l hl
      obtain ⟨ln, -, rfl⟩ := List.mem_map.1 hl
      exact clamp_printable _ _
    have hne : (s.splitOn newline).map (asciiClamp · (pageChars * maxPages)) ≠ [] := by
      rw [Ne, List.map_eq_nil_iff]
      exact List.splitOn_ne_nil newline s
    rw [entryPages_flatten, entryRows_text, ← rewrapLine_joined_iff (by decide) hne hprintable, ← hlines, List.flatMap_map]
    rfl

/-- A newline after a full row. -/
theorem newline_after_full_row :
    (entryPages pageCols pageRows maxPages (.text (str "sixteen letters!\nmore"))).flatten =
      ((str "sixteen letters!\nmore").splitOn newline).flatMap fun ln =>
        rewrapLine (asciiClamp ln (pageChars * maxPages)) pageCols := by
  have hbreaks : BreaksAnyway pageCols (str "sixteen letters!") (str "more") := ⟨by decide, by decide, by decide⟩
  have hchain : [str "sixteen letters!", str "more"].IsChain (BreaksAnyway pageCols) :=
    .cons_cons hbreaks (.singleton _)
  exact (newlines_survive_iff (str "sixteen letters!\nmore") (by decide) [] []).2.2 hchain

/-- A newline between short lines. -/
theorem newline_becomes_space :
    (entryPages pageCols pageRows maxPages (.text (str "milk\neggs"))).flatten = [str "milk eggs"] ∧
    ¬ ((entryPages pageCols pageRows maxPages (.text (str "milk\neggs"))).flatten =
      ((str "milk\neggs").splitOn newline).flatMap fun ln => rewrapLine (asciiClamp ln (pageChars * maxPages)) pageCols) := by
  decide

end CalcBridge.Relay
