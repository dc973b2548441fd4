import CalcBridge.LinkLib.Greedy
import CalcBridge.Relay.Rewrap
/-!
# What greedy wrapping promises (`tools/relay_server.py`, `_rewrap_line`)

The rows have the words of the line, in order, with the overlong ones in
slices. Where every word fits, the rows are the greedy division of the words,
so no other division has fewer.
-/
open LinkLib LinkLib.Text LinkLib.Greedy

namespace CalcBridge.Relay

/-! ## The words of the rows -/

/-- The words between the spaces. -/
def words (l : Str) : List Str := (l.splitOn space).filter (· ≠ [])

@[simp] theorem words_nil : words [] = [] := rfl

theorem words_append_space (a b : Str) : words (a ++ space :: b) = words a ++ words b := by
  rw [words, List.splitOn_append_cons_self, List.filter_append]
  rfl

theorem words_word {w : Str} (hw : space ∉ w) : words w = if w = [] then [] else [w] := by
  rw [words, List.splitOn_eq_singleton hw]
  split
  · rename_i h
    rw [h]
    rfl
  · rename_i h
    exact List.filter_cons_of_pos (decide_eq_true h)

theorem words_flush (st : List Str × Str) : (flushPending st).flatMap words = st.1.flatMap words ++ words st.2 := by
  obtain ⟨out, cur⟩ := st
  cases cur with
  | nil => exact (List.append_nil _).symm
  | cons c cur => exact List.flatMap_append.trans (congrArg _ (List.flatMap_singleton ..))

section Slices
variable {cols : Nat} (hc : 0 < cols)
include hc

theorem slices_short {w : Str} (hw : w.length ≤ cols) : slices cols w = if w = [] then [] else [w] := by
  split
  · rename_i h
    rw [h, slices_nil hc]
  · rename_i h
    rw [slices_cons hc h, List.take_of_length_le hw, List.drop_of_length_le hw, slices_nil hc]

/-- The slices of an overlong word become rows, the last one when it is flushed. -/
theorem flush_slices (w : Str) (out : List Str) :
    flushPending ((slices cols w).foldl (rewrapSlice cols) (out, [])) = out ++ slices cols w := by
  induction hn : w.length using Nat.strong_induction_on generalizing w out with
  | _ n ih =>
    by_cases hw : w = []
    · rw [hw, slices_nil hc, List.append_nil]
      rfl
    rcases Nat.lt_or_ge w.length cols with h | h
    · have hslice : rewrapSlice cols (out, []) w = (out, w) := if_neg (Nat.ne_of_lt h)
      obtain ⟨c, w, rfl⟩ := List.exists_cons_of_ne_nil hw
      rw [slices_short hc h.le, if_neg hw, List.foldl_cons, hslice]
      rfl
    · have hslice : rewrapSlice cols (out, []) (w.take cols) = (out ++ [w.take cols], []) :=
        if_pos (List.length_take_of_le h)
      have hlt : (w.drop cols).length < n := by
        have := List.length_pos_iff.2 hw
        rw [List.length_drop]
        omega
      rw [slices_cons hc hw, List.foldl_cons, hslice, ih _ hlt (w.drop cols) _ rfl, List.append_assoc]
      rfl

theorem slices_ne_nil {w s : Str} (hs : s ∈ slices cols w) : s ≠ [] := by
  induction hn : w.length using Nat.strong_induction_on generalizing w with
  | _ n ih =>
    by_cases hw : w = []
    · rw [hw, slices_nil hc] at hs
      cases hs
    · have hpos := List.length_pos_iff.2 hw
      rw [slices_cons hc hw] at hs
      rcases List.mem_cons.1 hs with rfl | hs
      · apply List.ne_nil_of_length_pos
        rw [List.length_take]
        omega
      · exact ih _ (by rw [List.length_drop]; omega) hs rfl

theorem words_slices {w : Str} (hw : space ∉ w) : (slices cols w).flatMap words = slices cols w := by
  have hone : ∀ s ∈ slices cols w, words s = [s] := by
    intro s hs
    rw [words_word fun h => hw (slices_subset hs space h), if_neg (slices_ne_nil hc hs)]
  rw [List.flatMap_congr hone]
  exact List.flatMap_singleton' ..

/-- A turn of the loop adds the word's slices. -/
theorem rewrapWord_words {w : Str} (hw : space ∉ w) (st : List Str × Str) :
    (flushPending (rewrapWord cols st w)).flatMap words = (flushPending st).flatMap words ++ slices cols w := by
  obtain ⟨out, cur⟩ := st
  have hshort : w.length ≤ cols → words w = slices cols w := fun h => by rw [words_word hw, slices_short hc h]
  rcases rewrapWord_cases cols out cur w with ⟨-, h⟩ | ⟨rfl, hlen, h⟩ | ⟨-, hlen, h⟩ | ⟨-, hlen, -, h⟩
  · rw [h, flush_slices hc, List.flatMap_append, words_slices hc hw]
  · rw [h, words_flush, words_flush, words_nil, List.append_nil, hshort hlen]
  · rw [h, words_flush, words_flush, List.append_assoc cur, List.singleton_append, words_append_space, hshort (by omega),
      List.append_assoc]
  · rw [h, words_flush, words_flush, List.flatMap_append, List.flatMap_singleton, hshort hlen]

theorem rewrapWords_words {ws : List Str} (hws : ∀ w ∈ ws, space ∉ w) (st : List Str × Str) :
    (flushPending (ws.foldl (rewrapWord cols) st)).flatMap words =
      (flushPending st).flatMap words ++ ws.flatMap (slices cols) := by
  induction ws generalizing st with
  | nil => rw [List.foldl_nil, List.flatMap_nil, List.append_nil]
  | cons w ws ih =>
    obtain ⟨hw, hws⟩ := List.forall_mem_cons.1 hws
    rw [List.foldl_cons, ih hws, rewrapWord_words hc hw, List.flatMap_cons, List.append_assoc]

end Slices

theorem words_rstrip {l : Str} (hl : ∀ c ∈ l, Printable c) : words (rstrip l) = words l := by
  obtain ⟨n, hn⟩ := exists_rstrip hl
  have hnone : (List.replicate n ([] : Str)).filter (· ≠ []) = [] := List.filter_replicate_of_neg (by decide)
  conv_rhs => rw [hn]
  rw [words, words, splitOn_replicate, List.filter_append, hnone, List.append_nil]

/-- Empty words have no slices. -/
theorem flatMap_slices {cols : Nat} (hc : 0 < cols) (ws : List Str) :
    ws.flatMap (slices cols) = (ws.filter (· ≠ [])).flatMap (slices cols) := by
  induction ws with
  | nil => rfl
  | cons w ws ih =>
    by_cases hw : w = []
    · rw [hw, List.flatMap_cons, slices_nil hc, List.nil_append, ih]
      rfl
    · rw [List.filter_cons_of_pos (by simpa using hw), List.flatMap_cons, List.flatMap_cons, ih]

/-- The rows have the words of the line, in order, with the overlong ones in slices. -/
theorem rewrapLine_words {cols : Nat} (hc : 0 < cols) {l : Str} (hl : ∀ c ∈ l, Printable c) :
    (rewrapLine l cols).flatMap words = (words l).flatMap (slices cols) := by
  by_cases h : Blank l
  · have hnone : words l = [] := by rw [← words_rstrip hl, show rstrip l = [] from h, words_nil]
    rw [rewrapLine_blank h, hnone]
    rfl
  · rw [rewrapLine_eq hc hl h, wrapWords, rewrapWords_words hc fun w hw => not_mem_of_mem_splitOn hw, flatMap_slices hc,
      ← words_rstrip hl]
    rfl

/-! ## Words that fit -/

/-- `" ".join(ws)`. -/
def joinWords (ws : List Str) : Str := [space].intercalate ws

theorem joinWords_singleton (w : Str) : joinWords [w] = w := List.intercalate_singleton

theorem joinWords_cons (w : Str) {ws : List Str} (h : ws ≠ []) : joinWords (w :: ws) = w ++ space :: joinWords ws :=
  (List.intercalate_cons_of_ne_nil h).trans (List.append_assoc ..)

theorem joinWords_append {a b : List Str} (ha : a ≠ []) (hb : b ≠ []) :
    joinWords (a ++ b) = joinWords a ++ space :: joinWords b := by
  induction a with
  | nil => exact absurd rfl ha
  | cons w a ih =>
    by_cases hnil : a = []
    · rw [hnil, List.singleton_append, joinWords_cons w hb, joinWords_singleton]
    · rw [List.cons_append, joinWords_cons w (List.append_ne_nil_of_left_ne_nil hnil b), joinWords_cons w hnil, ih hnil,
        List.append_assoc]
      rfl

theorem joinWords_left (a b : List Str) : joinWords a <+: joinWords (a ++ b) := by
  by_cases ha : a = []
  · rw [ha]
    exact List.nil_prefix
  by_cases hb : b = []
  · rw [hb, List.append_nil]
  · rw [joinWords_append ha hb]
    exact List.prefix_append _ _

theorem joinWords_right (a b : List Str) : joinWords b <:+ joinWords (a ++ b) := by
  by_cases ha : a = []
  · rw [ha, List.nil_append]
  by_cases hb : b = []
  · rw [hb]
    exact List.nil_suffix
  · rw [joinWords_append ha hb]
    exact (List.suffix_cons space _).trans (List.suffix_append _ _)

/-- A word of a text stands in it in one piece. -/
theorem infix_of_mem_words {w l : Str} (h : w ∈ words l) : w <:+: l := by
  obtain ⟨before, after, hsplit⟩ := List.append_of_mem (List.mem_filter.1 h).1
  have hl : joinWords (before ++ ([w] ++ after)) = l := by
    rw [List.singleton_append, ← hsplit]
    exact List.intercalate_splitOn space
  rw [← hl]
  have hleft := joinWords_left [w] after
  rw [joinWords_singleton] at hleft
  exact hleft.isInfix.trans (joinWords_right before _).isInfix

/-- The words fit on one row. -/
def RowHolds (cols : Nat) (ws : List Str) : Prop := (joinWords ws).length ≤ cols

instance (cols : Nat) : DecidablePred (RowHolds cols) := fun _ => inferInstanceAs (Decidable (_ ≤ _))

theorem RowHolds.left {cols : Nat} (a b : List Str) (h : RowHolds cols (a ++ b)) : RowHolds cols a :=
  Nat.le_trans (joinWords_left a b).length_le h

theorem RowHolds.right {cols : Nat} (a b : List Str) (h : RowHolds cols (a ++ b)) : RowHolds cols b :=
  Nat.le_trans (joinWords_right a b).length_le h

theorem joinWords_ne_nil {ws : List Str} (hws : ∀ w ∈ ws, w ≠ []) (h : ws ≠ []) : joinWords ws ≠ [] := by
  obtain ⟨w, rest, rfl⟩ := List.exists_cons_of_ne_nil h
  intro hnil
  have hleft := joinWords_left [w] rest
  rw [joinWords_singleton, List.singleton_append, hnil, List.prefix_nil] at hleft
  exact hws w List.mem_cons_self hleft

theorem joinWords_snoc {g : List Str} (h : g ≠ []) (w : Str) : joinWords (g ++ [w]) = joinWords g ++ [space] ++ w := by
  rw [joinWords_append h (List.cons_ne_nil _ _), joinWords_singleton, List.append_assoc]
  rfl

/-- There is room for one more word where the loop finds some. -/
theorem rowHolds_snoc {cols : Nat} {g : List Str} (h : g ≠ []) (w : Str) :
    RowHolds cols (g ++ [w]) ↔ (joinWords g).length + 1 + w.length ≤ cols := by
  rw [RowHolds, joinWords_snoc h, List.length_append, List.length_append]
  rfl

/-- The loop divides words that fit greedily. -/
theorem foldl_greedy {cols : Nat} {ws : List Str} (hws : ∀ w ∈ ws, w ≠ [] ∧ w.length ≤ cols) {g : List Str}
    (hg : ∀ w ∈ g, w ≠ []) (out : List Str) :
    flushPending (ws.foldl (rewrapWord cols) (out, joinWords g)) =
      out ++ (greedyFrom (RowHolds cols) g ws).map joinWords := by
  induction ws generalizing g out with
  | nil =>
    by_cases h : g = []
    · rw [h]
      exact (List.append_nil out).symm
    · obtain ⟨c, cur, hcur⟩ := List.exists_cons_of_ne_nil (joinWords_ne_nil hg h)
      have hone : greedyFrom (RowHolds cols) g [] = [g] := if_neg h
      rw [hone, List.map_singleton, List.foldl_nil, hcur]
      rfl
  | cons w ws ih =>
    obtain ⟨⟨hne, hlen⟩, hws⟩ := List.forall_mem_cons.1 hws
    have hw : ∀ v ∈ [w], v ≠ [] := by simpa using hne
    -- A row that starts with `w`.
    have hstart := fun out => ih hws hw out
    rw [joinWords_singleton] at hstart
    rw [List.foldl_cons]
    by_cases h : g = []
    · have hfirst : RowHolds cols ([] ++ [w]) := (congrArg List.length (joinWords_singleton w)).trans_le hlen
      have hnone : joinWords [] = [] := rfl
      rw [h, hnone, rewrapWord_first hlen, greedyFrom_joins hfirst]
      exact hstart out
    have hcur := joinWords_ne_nil hg h
    have hroom : RowHolds cols (g ++ [w]) ↔ _ := rowHolds_snoc h w
    by_cases hfit : RowHolds cols (g ++ [w])
    · rw [greedyFrom_joins hfit, rewrapWord_joins hcur (hroom.1 hfit), ← joinWords_snoc h]
      exact ih hws (List.forall_mem_append.2 ⟨hg, hw⟩) out
    · rw [greedyFrom_starts hfit, rewrapWord_pushes hcur hlen (Nat.lt_of_not_le (hfit ∘ hroom.2)), hstart,
        List.append_assoc]
      rfl

/-- Words of at most `cols` characters, separated by single spaces. -/
def SingleSpaced (cols : Nat) (l : Str) : Prop := ∀ w ∈ l.splitOn space, w ≠ [] ∧ w.length ≤ cols

instance (cols : Nat) (l : Str) : Decidable (SingleSpaced cols l) := inferInstanceAs (Decidable (∀ _ ∈ _, _))

theorem SingleSpaced.rstrip {cols : Nat} {l : Str} (h : SingleSpaced cols l) (hl : ∀ c ∈ l, Printable c) :
    Text.rstrip l = l := by
  obtain ⟨n, hn⟩ := exists_rstrip hl
  cases n with
  | zero => rw [List.replicate_zero, List.append_nil] at hn; exact hn.symm
  | succ n =>
    -- Spaces at the end would separate empty words.
    have hmem : [] ∈ l.splitOn space := by
      rw [hn, splitOn_replicate]
      exact List.mem_append_right _ List.mem_cons_self
    exact absurd rfl (h [] hmem).1

theorem SingleSpaced.not_blank {cols : Nat} {l : Str} (h : SingleSpaced cols l) (hl : ∀ c ∈ l, Printable c) : ¬Blank l := by
  intro hnil
  rw [Blank, h.rstrip hl] at hnil
  rw [hnil] at h
  exact (h [] List.mem_cons_self).1 rfl

/-- The rows of such a line are the greedy division of its words. -/
theorem SingleSpaced.rows {cols : Nat} (hc : 0 < cols) {l : Str} (h : SingleSpaced cols l) (hl : ∀ c ∈ l, Printable c) :
    rewrapLine l cols = (greedy (RowHolds cols) (l.splitOn space)).map joinWords := by
  rw [rewrapLine_eq hc hl (h.not_blank hl), h.rstrip hl]
  exact foldl_greedy h (g := []) nofun []

/-- Joining joined groups joins them all. -/
theorem joinWords_flatten {gs : List (List Str)} (h : ∀ g ∈ gs, g ≠ []) : joinWords (gs.map joinWords) = joinWords gs.flatten := by
  induction gs with
  | nil => rfl
  | cons g gs ih =>
    obtain ⟨hg, hgs⟩ := List.forall_mem_cons.1 h
    rw [List.map_cons, List.flatten_cons]
    by_cases hnil : gs = []
    · rw [hnil, List.map_nil, joinWords_singleton, List.flatten_nil, List.append_nil]
    · obtain ⟨g', gs', rfl⟩ := List.exists_cons_of_ne_nil hnil
      have hmap : (g' :: gs').map joinWords ≠ [] := List.cons_ne_nil _ _
      have hrest : (g' :: gs').flatten ≠ [] := List.append_ne_nil_of_left_ne_nil (hgs g' List.mem_cons_self) _
      rw [joinWords_cons _ hmap, ih hgs, joinWords_append hg hrest]

theorem SingleSpaced.divides {cols : Nat} {l : Str} (h : SingleSpaced cols l) :
    Divides (RowHolds cols) (l.splitOn space) (greedy (RowHolds cols) (l.splitOn space)) := by
  apply divides_greedy (Nat.zero_le cols)
  intro w hw
  exact (congrArg List.length (joinWords_singleton w)).trans_le (h w hw).2

/-- Its rows, joined, are the line. -/
theorem SingleSpaced.joins {cols : Nat} (hc : 0 < cols) {l : Str} (h : SingleSpaced cols l) (hl : ∀ c ∈ l, Printable c) :
    joinWords (rewrapLine l cols) = l := by
  have hrows := h.rows hc hl
  have hgroups : ∀ g ∈ greedy (RowHolds cols) (l.splitOn space), g ≠ [] := by
    rintro _ hg rfl
    refine rewrapLine_rows_ne_nil hc hl (h.not_blank hl) [] ?_ rfl
    rw [hrows]
    exact List.mem_map_of_mem (f := joinWords) hg
  rw [hrows, joinWords_flatten hgroups, h.divides.whole]
  exact List.intercalate_splitOn space

/-- A word that fits lies in one row. -/
theorem rewrapLine_infix {cols : Nat} (hc : 0 < cols) {l : Str} (hl : ∀ c ∈ l, Printable c) {w : Str}
    (hw : w ∈ l.splitOn space) (hlen : w.length ≤ cols) : ∃ r ∈ rewrapLine l cols, w <:+: r := by
  by_cases hnil : w = []
  · obtain ⟨r, rows, hrows⟩ := List.exists_cons_of_ne_nil (rewrapLine_ne_nil l cols)
    exact ⟨r, by rw [hrows]; exact List.mem_cons_self, by rw [hnil]; exact List.nil_infix⟩
  · have hmem : w ∈ (words l).flatMap (slices cols) := by
      refine List.mem_flatMap.2 ⟨w, List.mem_filter.2 ⟨hw, decide_eq_true hnil⟩, ?_⟩
      rw [slices_short hc hlen, if_neg hnil]
      exact List.mem_singleton_self w
    rw [← rewrapLine_words hc hl] at hmem
    obtain ⟨r, hr, hwr⟩ := List.mem_flatMap.1 hmem
    exact ⟨r, hr, infix_of_mem_words hwr⟩

/-- Wrapping is sound and optimal. There is a row, no row is too long, a word
that fits lies in one row, and the rows have the words of the line with the
overlong ones in slices. Words that fit, with single spaces between them, come
back when the rows are joined, and no division of them into rows has fewer. -/
theorem greedy_sound_and_optimal {cols : Nat} (hc : 0 < cols) {l : Str} (hl : ∀ c ∈ l, Printable c) :
    rewrapLine l cols ≠ [] ∧ (∀ r ∈ rewrapLine l cols, r.length ≤ cols) ∧
      (∀ w ∈ l.splitOn space, w.length ≤ cols → ∃ r ∈ rewrapLine l cols, w <:+: r) ∧
      (rewrapLine l cols).flatMap words = (words l).flatMap (slices cols) ∧
      (SingleSpaced cols l → joinWords (rewrapLine l cols) = l ∧
        (∃ gs, Divides (RowHolds cols) (l.splitOn space) gs ∧ rewrapLine l cols = gs.map joinWords) ∧
        ∀ gs, Divides (RowHolds cols) (l.splitOn space) gs → (rewrapLine l cols).length ≤ gs.length) := by
  refine ⟨rewrapLine_ne_nil l cols, rewrapLine_width hc hl, fun w hw hlen => rewrapLine_infix hc hl hw hlen,
    rewrapLine_words hc hl, fun h => ⟨h.joins hc hl, ⟨_, h.divides, h.rows hc hl⟩, ?_⟩⟩
  intro gs hgs
  rw [h.rows hc hl, List.length_map]
  exact length_greedy_le RowHolds.right RowHolds.left hgs

/-- Two rows, as the line needs two. -/
theorem greedy_sound_and_optimal_fox :
    let fox := str "the quick brown fox jumps"
    joinWords (rewrapLine fox 16) = fox ∧
      ∀ gs, Divides (RowHolds 16) (fox.splitOn space) gs → (rewrapLine fox 16).length ≤ gs.length := by
  intro fox
  obtain ⟨-, -, -, -, hsingle⟩ := greedy_sound_and_optimal (show 0 < 16 by decide) (show ∀ c ∈ fox, Printable c by decide)
  obtain ⟨hjoin, -, hleast⟩ := hsingle (by decide)
  exact ⟨hjoin, hleast⟩

end CalcBridge.Relay
