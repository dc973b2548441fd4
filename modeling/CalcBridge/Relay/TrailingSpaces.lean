import CalcBridge.LinkLib.Runs
import CalcBridge.Relay.Wrapping
/-!
# Rows that end with spaces (`tools/relay_server.py`, `_rewrap_line`)

The spaces of a run separate empty words, and an empty word joins a row like
any other. A row that is closed inside or after such a run ends with spaces,
so wrapping it again gives another row.
-/
open LinkLib LinkLib.Text LinkLib.Runs

namespace CalcBridge.Relay

/-! ## Words and the spaces in front of them -/

structure Spaced where
  spaces : Nat
  word : Str
  deriving DecidableEq, Repr

/-- The words that are not empty, after `k` spaces. -/
def spacedFrom : Nat → List Str → List Spaced
  | _, [] => []
  | k, w :: ws => if w = [] then spacedFrom (k + 1) ws else ⟨k, w⟩ :: spacedFrom 1 ws

/-- The words of a line with the spaces in front of each. -/
def spaced (l : Str) : List Spaced := spacedFrom 0 (l.splitOn space)

def Spaced.text (s : Spaced) : Str := List.replicate s.spaces space ++ s.word

theorem spacedFrom_empty (k : Nat) (ws : List Str) : spacedFrom k ([] :: ws) = spacedFrom (k + 1) ws := if_pos rfl

theorem spacedFrom_word {w : Str} (hw : w ≠ []) (k : Nat) (ws : List Str) :
    spacedFrom k (w :: ws) = ⟨k, w⟩ :: spacedFrom 1 ws := if_neg hw

theorem spacedFrom_text {ws : List Str} (hne : ws ≠ []) (k : Nat) :
    ∃ n, List.replicate k space ++ joinWords ws = (spacedFrom k ws).flatMap Spaced.text ++ List.replicate n space := by
  induction ws generalizing k with
  | nil => exact absurd rfl hne
  | cons w ws ih =>
    by_cases hw : w = []
    · subst hw
      rw [spacedFrom_empty]
      by_cases hws : ws = []
      · exact ⟨k, by rw [hws, joinWords_singleton, List.append_nil]; rfl⟩
      · obtain ⟨n, hn⟩ := ih hws (k + 1)
        refine ⟨n, hn ▸ ?_⟩
        rw [joinWords_cons _ hws, List.replicate_succ', List.append_assoc]
        rfl
    · rw [spacedFrom_word hw, List.flatMap_cons]
      by_cases hws : ws = []
      · exact ⟨0, by rw [hws, joinWords_singleton]; simp [spacedFrom, Spaced.text]⟩
      · obtain ⟨n, hn⟩ := ih hws 1
        refine ⟨n, ?_⟩
        rw [joinWords_cons _ hws, List.append_assoc, ← hn, Spaced.text, List.append_assoc]
        rfl

/-- They make up the line, but for spaces at its end. -/
theorem spaced_text (l : Str) : ∃ n, l = (spaced l).flatMap Spaced.text ++ List.replicate n space := by
  obtain ⟨n, hn⟩ := spacedFrom_text (List.splitOn_ne_nil space l) 0
  refine ⟨n, Eq.trans ?_ hn⟩
  exact (List.intercalate_splitOn space).symm

theorem spacedFrom_replicate (k n : Nat) (ws : List Str) : spacedFrom k (ws ++ List.replicate n []) = spacedFrom k ws := by
  induction ws generalizing k with
  | nil =>
    induction n generalizing k with
    | zero => rfl
    | succ n ih => exact (spacedFrom_empty k _).trans (ih (k + 1))
  | cons w ws ih =>
    rw [List.cons_append]
    by_cases hw : w = []
    · rw [hw, spacedFrom_empty, spacedFrom_empty, ih]
    · rw [spacedFrom_word hw, spacedFrom_word hw, ih]

theorem spaced_rstrip {l : Str} (hl : ∀ c ∈ l, Printable c) : spaced (rstrip l) = spaced l := by
  obtain ⟨n, hn⟩ := exists_rstrip hl
  conv_rhs => rw [hn, spaced, splitOn_replicate, spacedFrom_replicate]
  rfl

theorem mem_spacedFrom {k : Nat} {ws : List Str} {s : Spaced} (h : s ∈ spacedFrom k ws) : s.word ∈ ws ∧ s.word ≠ [] := by
  induction ws generalizing k with
  | nil => cases h
  | cons w ws ih =>
    by_cases hw : w = []
    · rw [hw, spacedFrom_empty] at h
      exact ⟨List.mem_cons_of_mem _ (ih h).1, (ih h).2⟩
    · rw [spacedFrom_word hw] at h
      rcases List.mem_cons.1 h with rfl | h
      · exact ⟨List.mem_cons_self, hw⟩
      · exact ⟨List.mem_cons_of_mem _ (ih h).1, (ih h).2⟩

theorem spacedFrom_spaces {k : Nat} (hk : 1 ≤ k) (ws : List Str) : ∀ s ∈ spacedFrom k ws, 1 ≤ s.spaces := by
  induction ws generalizing k with
  | nil => exact nofun
  | cons w ws ih =>
    by_cases hw : w = []
    · rw [hw, spacedFrom_empty]
      exact ih (Nat.le_succ_of_le hk)
    · rw [spacedFrom_word hw]
      exact List.forall_mem_cons.2 ⟨hk, ih (Nat.le_refl 1)⟩

/-- Only the first word can stand without a space in front. -/
theorem spacedFrom_tail (k : Nat) (ws : List Str) : ∀ s ∈ (spacedFrom k ws).tail, 1 ≤ s.spaces := by
  induction ws generalizing k with
  | nil => exact nofun
  | cons w ws ih =>
    by_cases hw : w = []
    · rw [hw, spacedFrom_empty]
      exact ih (k + 1)
    · rw [spacedFrom_word hw]
      exact spacedFrom_spaces (Nat.le_refl 1) ws

/-! ## A run of spaces and the word after it -/

section Turn
variable {cols : Nat} {out : List Str} {cur : Str}

theorem foldl_empties_none (n : Nat) (out : List Str) :
    (List.replicate n []).foldl (rewrapWord cols) (out, []) = (out, []) := by
  induction n with
  | zero => rfl
  | succ n ih => rw [List.replicate_succ, List.foldl_cons, rewrapWord_first (w := []) (Nat.zero_le cols), ih]

/-- Empty words put spaces behind the pending row as long as it has room. -/
theorem foldl_empties_fit {n : Nat} (hcur : cur ≠ []) (h : cur.length + n ≤ cols) :
    (List.replicate n []).foldl (rewrapWord cols) (out, cur) = (out, cur ++ List.replicate n space) := by
  induction n generalizing cur with
  | zero => exact congrArg (Prod.mk out) (List.append_nil cur).symm
  | succ n ih =>
    have hlen : (cur ++ [space] ++ []).length + n ≤ cols := by
      rw [List.append_nil, List.length_append, List.length_singleton]
      omega
    rw [List.replicate_succ, List.foldl_cons, rewrapWord_joins (w := []) hcur (by rw [List.length_nil]; omega),
      ih (by simp) hlen, List.append_nil, List.append_assoc]
    rfl

/-- The first one without room closes the row, and the others are lost. -/
theorem foldl_empties_full {n : Nat} (hcur : cur ≠ []) (hlen : cur.length ≤ cols) (h : cols < cur.length + n) :
    (List.replicate n []).foldl (rewrapWord cols) (out, cur) =
      (out ++ [cur ++ List.replicate (cols - cur.length) space], []) := by
  have hsplit : n = (cols - cur.length) + 1 + (n - (cols - cur.length) - 1) := by omega
  have hrow : cur ++ List.replicate (cols - cur.length) space ≠ [] := List.append_ne_nil_of_left_ne_nil hcur _
  have hwidth : (cur ++ List.replicate (cols - cur.length) space).length = cols := by
    rw [List.length_append, List.length_replicate]
    omega
  rw [hsplit, List.replicate_add, List.replicate_succ', List.foldl_append, List.foldl_append,
    foldl_empties_fit hcur (by omega), List.foldl_cons, rewrapWord_pushes (w := []) hrow (Nat.zero_le cols) (by omega)]
  exact foldl_empties_none ..

/-- The turns of the loop for one word and the spaces in front of it. -/
def wrapSpaced (cols : Nat) (st : List Str × Str) (s : Spaced) : List Str × Str :=
  rewrapWord cols ((List.replicate (s.spaces - 1) []).foldl (rewrapWord cols) st) s.word

/-- With nothing pending the spaces are lost. -/
theorem wrapSpaced_none (out : List Str) (s : Spaced) :
    wrapSpaced cols (out, []) s = shift out (rewrapWord cols ([], []) s.word) := by
  rw [wrapSpaced, foldl_empties_none]
  exact rewrapWord_breaks (.inl rfl)

/-- A word that fits behind its spaces is put there with all of them. -/
theorem wrapSpaced_fits {s : Spaced} (hcur : cur ≠ []) (hs : 1 ≤ s.spaces)
    (h : cur.length + s.spaces + s.word.length ≤ cols) : wrapSpaced cols (out, cur) s = (out, cur ++ s.text) := by
  have hpending : cur ++ List.replicate (s.spaces - 1) space ≠ [] := List.append_ne_nil_of_left_ne_nil hcur _
  have hlen : (cur ++ List.replicate (s.spaces - 1) space).length + 1 = cur.length + s.spaces := by
    rw [List.length_append, List.length_replicate]
    omega
  have hspaces : List.replicate (s.spaces - 1) space ++ [space] = List.replicate s.spaces space := by
    rw [← List.replicate_succ', Nat.sub_add_cancel hs]
  rw [wrapSpaced, foldl_empties_fit hcur (by omega), rewrapWord_joins hpending (by omega), List.append_assoc cur, hspaces,
    List.append_assoc]
  rfl

/-- Any other closes the row, with the spaces there was room for. -/
theorem wrapSpaced_breaks {s : Spaced} (hcur : cur ≠ []) (hlen : cur.length ≤ cols) (hs : 1 ≤ s.spaces)
    (h : cols < cur.length + s.spaces + s.word.length) :
    wrapSpaced cols (out, cur) s =
      shift (out ++ [cur ++ List.replicate (min (s.spaces - 1) (cols - cur.length)) space])
        (rewrapWord cols ([], []) s.word) := by
  rw [wrapSpaced]
  rcases Nat.lt_or_ge cols (cur.length + (s.spaces - 1)) with hfull | hroom
  · rw [foldl_empties_full hcur hlen hfull, Nat.min_eq_right (by omega)]
    exact rewrapWord_breaks (.inl rfl)
  · have hpending : cur ++ List.replicate (s.spaces - 1) space ≠ [] := List.append_ne_nil_of_left_ne_nil hcur _
    have hbreak : cols < (cur ++ List.replicate (s.spaces - 1) space).length + 1 + s.word.length := by
      rw [List.length_append, List.length_replicate]
      omega
    obtain ⟨c, row, hrow⟩ := List.exists_cons_of_ne_nil hpending
    rw [foldl_empties_fit hcur hroom, Nat.min_eq_left (by omega)]
    rw [hrow] at hbreak ⊢
    exact rewrapWord_breaks (.inr hbreak)

end Turn

/-- A word on its own: its rows and what is left of it. -/
theorem rewrapWord_alone {cols : Nat} (hc : 0 < cols) {w : Str} (hw : space ∉ w) :
    ∃ full rest, rewrapWord cols ([], []) w = (full, rest) ∧ (∀ r ∈ full, space ∉ r) ∧ space ∉ rest ∧
      rest.length ≤ cols ∧ rest.length % cols = w.length % cols := by
  rcases Nat.lt_or_ge cols w.length with h | h
  · obtain ⟨full, rest, hfold, htext, hlen, hrest⟩ := foldl_slices hc w []
    have hlength : w.length = full.length * cols + rest.length := by
      have hfull : full.map List.length = List.replicate full.length cols := by
        rw [List.eq_replicate_iff, List.length_map]
        exact ⟨rfl, List.forall_mem_map.2 hlen⟩
      rw [← htext, List.length_append, List.length_flatten, hfull, List.sum_replicate_nat]
    refine ⟨full, rest, (rewrapWord_long h).trans hfold, ?_, ?_, hrest.le, ?_⟩
    · intro r hr hmem
      apply hw
      rw [← htext]
      exact List.mem_append_left _ (List.mem_flatten_of_mem hr hmem)
    · intro hmem
      apply hw
      rw [← htext]
      exact List.mem_append_right _ hmem
    · rw [hlength, Nat.add_comm, Nat.add_mul_mod_self_right]
  · exact ⟨[], w, rewrapWord_first h, nofun, hw, h, rfl⟩

/-! ## Rows that neither begin nor end with a space -/

def Clean (r : Str) : Prop := r.head? ≠ some space ∧ r.getLast? ≠ some space

theorem clean_of_not_mem {r : Str} (h : space ∉ r) : Clean r :=
  ⟨fun he => h (List.mem_of_head? he), fun he => h (List.mem_of_getLast? he)⟩

theorem clean_append {a b : Str} (ha : a ≠ []) (hb : b ≠ []) :
    Clean (a ++ b) ↔ a.head? ≠ some space ∧ b.getLast? ≠ some space := by
  rw [Clean, List.head?_append_of_ne_nil _ ha, List.getLast?_append_of_ne_nil _ hb]

theorem Clean.spaces_iff {r : Str} (h : Clean r) (hr : r ≠ []) (n : Nat) : Clean (r ++ List.replicate n space) ↔ n = 0 := by
  cases n with
  | zero => exact iff_of_true (by rwa [List.replicate_zero, List.append_nil]) rfl
  | succ n =>
    have hne : List.replicate (n + 1) space ≠ [] := List.cons_ne_nil _ _
    rw [clean_append hr hne, List.replicate_succ', List.getLast?_concat]
    exact iff_of_false (fun hlast => hlast.2 rfl) (Nat.succ_ne_zero n)

/-- A row that fits is its own wrapping exactly when it is clean. -/
theorem rewrapLine_self {cols : Nat} (hc : 0 < cols) {r : Str} (hr : ∀ c ∈ r, Printable c) (hlen : r.length ≤ cols) :
    rewrapLine r cols = [r] ↔ Clean r := by
  have hdrop : r.dropWhile (· == space) = r ↔ r.head? ≠ some space := by
    rw [List.dropWhile_eq_self_iff]
    cases r with
    | nil => exact iff_of_true nofun nofun
    | cons c r => simp
  rw [rewrapLine_short hc hr hlen, List.singleton_inj, Clean, ← hdrop, ← rstrip_eq_self_iff hr]
  constructor
  · intro h
    have hleft : rstrip r <+: r := List.rdropWhile_prefix isSpace r
    have hright : r <:+ rstrip r := by
      conv_lhs => rw [← h]
      exact List.dropWhile_suffix _
    have hstrip : rstrip r = r := hleft.eq_of_length (Nat.le_antisymm hleft.length_le hright.length_le)
    rw [hstrip] at h
    exact ⟨h, hstrip⟩
  · rintro ⟨h, hstrip⟩
    rw [hstrip, h]

/-! ## The row in progress -/

/-- The width of the row in progress behind a word, 0 if nothing more can join it. -/
def column (cols p : Nat) (s : Spaced) : Nat :=
  if 0 < p ∧ p + s.spaces + s.word.length ≤ cols then (p + s.spaces + s.word.length) % cols else s.word.length % cols

/-- After two spaces or more, no row is in progress or the word fits on it behind the spaces. -/
def JoinsRow (cols p : Nat) (s : Spaced) : Prop := 2 ≤ s.spaces → p = 0 ∨ p + s.spaces + s.word.length ≤ cols

instance (cols p : Nat) (s : Spaced) : Decidable (JoinsRow cols p s) := inferInstanceAs (Decidable (_ → _))

/-- So it is at every word of the line. -/
def RunsJoin (cols : Nat) (l : Str) : Prop := Holds (fun p s => (column cols p s, ())) (JoinsRow cols) 0 (spaced l)

instance (cols : Nat) (l : Str) : Decidable (RunsJoin cols l) := inferInstanceAs (Decidable (Holds ..))

section Break
variable {cols n : Nat} {s : Spaced} (hn : n ≤ cols) (hpos : 0 < n) (h : cols < n + s.spaces + s.word.length)
include hn h

/-- A word that does not fit on a row of `n` characters behind its spaces starts over. -/
theorem column_break : column cols (n % cols) s = s.word.length % cols := by
  refine if_neg ?_
  rintro ⟨hp, hle⟩
  rcases Nat.lt_or_eq_of_le hn with hlt | hfull
  · rw [Nat.mod_eq_of_lt hlt] at hle
    omega
  · rw [hfull, Nat.mod_self] at hp
    exact absurd hp (Nat.lt_irrefl 0)

include hpos

/-- Its run joins when there is no space to put at the end of that row. -/
theorem joinsRow_break : JoinsRow cols (n % cols) s ↔ min (s.spaces - 1) (cols - n) = 0 := by
  constructor
  · intro hj
    by_contra hmin
    have hwidth : n % cols = n := Nat.mod_eq_of_lt (by omega)
    rw [hwidth] at hj
    have := hj (by omega)
    omega
  · intro hmin htwo
    have hfull : n = cols := by omega
    exact .inl (by rw [hfull, Nat.mod_self])

end Break

/-- What the loop has pending where the row in progress has width `p`. -/
structure Pending (cols p : Nat) (cur : Str) : Prop where
  fits : cur.length ≤ cols
  width : cur.length % cols = p
  clean : Clean cur

theorem pending_alone {cols : Nat} (hc : 0 < cols) {w : Str} (hw : space ∉ w) (out : List Str) :
    let st := shift out (rewrapWord cols ([], []) w)
    Pending cols (w.length % cols) st.2 ∧ ((∀ r ∈ st.1, Clean r) ↔ ∀ r ∈ out, Clean r) := by
  obtain ⟨full, rest, hst, hfull, hrest, hfits, hwidth⟩ := rewrapWord_alone hc hw
  rw [hst]
  refine ⟨⟨hfits, hwidth, clean_of_not_mem hrest⟩, ?_⟩
  show (∀ r ∈ out ++ full, Clean r) ↔ _
  rw [List.forall_mem_append]
  exact and_iff_left fun r hr => clean_of_not_mem (hfull r hr)

/-- One word: the row in progress is as wide as `column` says, and a row is
closed with spaces at its end exactly when a run of spaces does not join. -/
theorem wrapSpaced_step {cols : Nat} (hc : 0 < cols) {p : Nat} {cur : Str} (h : Pending cols p cur) {s : Spaced}
    (hw : s.word ≠ []) (hfree : space ∉ s.word) (hs : cur ≠ [] → 1 ≤ s.spaces) (out : List Str) :
    let st := wrapSpaced cols (out, cur) s
    Pending cols (column cols p s) st.2 ∧ ((∀ r ∈ st.1, Clean r) ↔ (∀ r ∈ out, Clean r) ∧ JoinsRow cols p s) := by
  obtain ⟨hfits, rfl, hclean⟩ := h
  by_cases hcur : cur = []
  · have hp : ([] : Str).length % cols = 0 := Nat.zero_mod cols
    have hcolumn : column cols 0 s = s.word.length % cols := if_neg fun h => Nat.lt_irrefl 0 h.1
    have hjoins : JoinsRow cols 0 s := fun _ => .inl rfl
    obtain ⟨hpending, hrows⟩ := pending_alone hc hfree out
    subst hcur
    rw [hp, hcolumn, wrapSpaced_none]
    exact ⟨hpending, hrows.trans (and_iff_left hjoins).symm⟩
  have hpos := List.length_pos_iff.2 hcur
  have hword := List.length_pos_iff.2 hw
  have hspaces := hs hcur
  rcases Nat.lt_or_ge cols (cur.length + s.spaces + s.word.length) with hbreak | hfit
  · -- The row is closed with as many spaces of the run as it has room for.
    obtain ⟨hpending, hrows⟩ :=
      pending_alone hc hfree (out ++ [cur ++ List.replicate (min (s.spaces - 1) (cols - cur.length)) space])
    rw [column_break hfits hbreak, wrapSpaced_breaks hcur hfits hspaces hbreak]
    refine ⟨hpending, hrows.trans ?_⟩
    rw [List.forall_mem_append, List.forall_mem_singleton, hclean.spaces_iff hcur, joinsRow_break hfits hpos hbreak]
  · -- The word is put behind all of them.
    have hwidth : cur.length % cols = cur.length := Nat.mod_eq_of_lt (by omega)
    have hcolumn : column cols cur.length s = (cur.length + s.spaces + s.word.length) % cols := if_pos ⟨hpos, hfit⟩
    have hjoins : JoinsRow cols cur.length s := fun _ => .inr hfit
    have hlen : (cur ++ s.text).length = cur.length + s.spaces + s.word.length := by
      rw [List.length_append, Spaced.text, List.length_append, List.length_replicate, Nat.add_assoc]
    have hlast : s.text.getLast? ≠ some space := by
      rw [Spaced.text, List.getLast?_append_of_ne_nil _ hw]
      exact (clean_of_not_mem hfree).2
    have htext : s.text ≠ [] := List.append_ne_nil_of_right_ne_nil _ hw
    rw [hwidth, hcolumn, wrapSpaced_fits hcur hspaces hfit, ← hlen]
    exact ⟨⟨hlen.trans_le hfit, rfl, (clean_append hcur htext).2 ⟨hclean.1, hlast⟩⟩, (and_iff_left hjoins).symm⟩

/-! ## The whole line -/

theorem forall_flush {P : Str → Prop} (out : List Str) {cur : Str} (h : P cur) :
    (∀ r ∈ flushPending (out, cur), P r) ↔ ∀ r ∈ out, P r := by
  cases cur with
  | nil => exact Iff.rfl
  | cons c cur =>
    show (∀ r ∈ out ++ [c :: cur], P r) ↔ _
    rw [List.forall_mem_append, List.forall_mem_singleton]
    exact and_iff_left h

/-- All words: the rows are clean exactly when every run of spaces joins. -/
theorem foldl_wrapSpaced {cols : Nat} (hc : 0 < cols) {ss : List Spaced} (hwords : ∀ s ∈ ss, s.word ≠ [] ∧ space ∉ s.word)
    (hspaces : ∀ s ∈ ss.tail, 1 ≤ s.spaces) {p : Nat} {cur : Str} (h : Pending cols p cur)
    (hfirst : cur ≠ [] → ∀ s ∈ ss, 1 ≤ s.spaces) (out : List Str) :
    (∀ r ∈ flushPending (ss.foldl (wrapSpaced cols) (out, cur)), Clean r) ↔
      (∀ r ∈ out, Clean r) ∧ Holds (fun p s => (column cols p s, ())) (JoinsRow cols) p ss := by
  induction ss generalizing p cur out with
  | nil =>
    rw [List.foldl_nil, forall_flush out h.clean]
    exact (and_iff_left trivial).symm
  | cons s ss ih =>
    obtain ⟨⟨hw, hfree⟩, hwords⟩ := List.forall_mem_cons.1 hwords
    obtain ⟨hpending, hrows⟩ := wrapSpaced_step hc h hw hfree (fun hcur => hfirst hcur s List.mem_cons_self) out
    rw [List.foldl_cons, ih hwords (fun s' hs' => hspaces s' (List.mem_of_mem_tail hs')) hpending fun _ => hspaces, hrows,
      and_assoc]
    rfl

/-- A turn for every word, or for every word that is not empty and its spaces. -/
theorem foldl_spacedFrom {cols k : Nat} (hk : 1 ≤ k) {ws : List Str} (hlast : ws.getLast? ≠ some []) (hnil : ws = [] → k = 1)
    (st : List Str × Str) :
    (List.replicate (k - 1) [] ++ ws).foldl (rewrapWord cols) st = (spacedFrom k ws).foldl (wrapSpaced cols) st := by
  induction ws generalizing k st with
  | nil =>
    rw [hnil rfl]
    rfl
  | cons w ws ih =>
    by_cases hws : ws = []
    · have hw : w ≠ [] := by
        rintro rfl
        rw [hws] at hlast
        exact hlast rfl
      rw [hws, spacedFrom_word hw, List.foldl_append]
      rfl
    have hlast' : ws.getLast? ≠ some [] := by rwa [← List.getLast?_cons_of_ne_nil hws]
    by_cases hw : w = []
    · have hrun : List.replicate (k - 1) [] ++ [] :: ws = List.replicate (k + 1 - 1) ([] : Str) ++ ws := by
        rw [Nat.add_sub_cancel, ← Nat.sub_add_cancel hk, List.replicate_succ', List.append_assoc]
        rfl
      rw [hw, spacedFrom_empty, hrun]
      exact ih (Nat.le_succ_of_le hk) hlast' (absurd · hws) st
    · rw [spacedFrom_word hw, List.foldl_append, List.foldl_cons]
      exact ih (Nat.le_refl 1) hlast' (absurd · hws) _

theorem wrapWords_spaced {cols : Nat} {ws : List Str} (hlast : ws.getLast? ≠ some []) :
    wrapWords cols ws = flushPending ((spacedFrom 0 ws).foldl (wrapSpaced cols) ([], [])) := by
  cases ws with
  | nil => rfl
  | cons w ws =>
    have hlast' : ws.getLast? ≠ some [] := by
      by_cases hws : ws = []
      · rw [hws]
        exact nofun
      · rwa [← List.getLast?_cons_of_ne_nil hws]
    have hturns : ∀ st, ws.foldl (rewrapWord cols) st = (spacedFrom 1 ws).foldl (wrapSpaced cols) st :=
      foldl_spacedFrom (Nat.le_refl 1) hlast' fun _ => rfl
    by_cases hw : w = []
    · have hstart : rewrapWord cols ([], []) [] = ([], []) := rewrapWord_first (Nat.zero_le cols)
      rw [hw, spacedFrom_empty, wrapWords, List.foldl_cons, hstart]
      exact congrArg flushPending (hturns ([], []))
    · rw [spacedFrom_word hw, wrapWords, List.foldl_cons, List.foldl_cons]
      exact congrArg flushPending (hturns (rewrapWord cols ([], []) w))

/-- A stripped line ends with a word. -/
theorem splitOn_rstrip_last {l : Str} (h : ¬Blank l) : ((rstrip l).splitOn space).getLast? ≠ some [] := by
  intro hlast
  obtain ⟨front, hfront⟩ := List.getLast?_eq_some_iff.1 hlast
  have hl : joinWords (front ++ [[]]) = rstrip l := by
    rw [← hfront]
    exact List.intercalate_splitOn space
  by_cases hnil : front = []
  · rw [hnil] at hl
    exact h hl.symm
  · rw [joinWords_append hnil (List.cons_ne_nil _ _)] at hl
    apply rstrip_last l
    rw [← hl]
    exact List.getLast?_concat

/-- The rows are clean exactly when every run of spaces joins. -/
theorem rewrapLine_clean {cols : Nat} (hc : 0 < cols) {l : Str} (hl : ∀ c ∈ l, Printable c) :
    (∀ r ∈ rewrapLine l cols, Clean r) ↔ RunsJoin cols l := by
  by_cases h : Blank l
  · have hnone : spaced l = [] := by
      rw [← spaced_rstrip hl, show rstrip l = [] from h]
      rfl
    rw [rewrapLine_blank h, List.forall_mem_singleton, RunsJoin, hnone]
    exact iff_of_true (clean_of_not_mem List.not_mem_nil) trivial
  · have hwords : ∀ s ∈ spaced (rstrip l), s.word ≠ [] ∧ space ∉ s.word := fun s hs =>
      ⟨(mem_spacedFrom hs).2, not_mem_of_mem_splitOn (mem_spacedFrom hs).1⟩
    have hstart : Pending cols 0 [] := ⟨Nat.zero_le cols, Nat.zero_mod cols, clean_of_not_mem List.not_mem_nil⟩
    rw [rewrapLine_eq hc hl h, wrapWords_spaced (splitOn_rstrip_last h), RunsJoin, ← spaced_rstrip hl]
    exact (foldl_wrapSpaced hc hwords (spacedFrom_tail 0 _) hstart (absurd rfl ·) []).trans (and_iff_right nofun)

/-- No row begins with a space: a space only ever goes behind a row. -/
theorem foldl_head {cols : Nat} (hc : 0 < cols) {ws : List Str} (hws : ∀ w ∈ ws, space ∉ w) {out : List Str} {cur : Str}
    (hout : ∀ r ∈ out, r.head? ≠ some space) (hcur : cur.head? ≠ some space) :
    ∀ r ∈ flushPending (ws.foldl (rewrapWord cols) (out, cur)), r.head? ≠ some space := by
  have hflush := (forall_flush (P := fun r => r.head? ≠ some space) out hcur).2 hout
  induction ws generalizing out cur with
  | nil => exact hflush
  | cons w ws ih =>
    obtain ⟨hw, hws⟩ := List.forall_mem_cons.1 hws
    rw [List.foldl_cons]
    by_cases hbreak : cur = [] ∨ cols < cur.length + 1 + w.length
    · obtain ⟨full, rest, hst, hfull, hrest, -⟩ := rewrapWord_alone hc hw
      have hout' : ∀ r ∈ flushPending (out, cur) ++ full, r.head? ≠ some space :=
        List.forall_mem_append.2 ⟨hflush, fun r hr => (clean_of_not_mem (hfull r hr)).1⟩
      have hrest' := (clean_of_not_mem hrest).1
      rw [rewrapWord_breaks hbreak, hst]
      exact ih hws hout' hrest' ((forall_flush _ hrest').2 hout')
    · rw [not_or, Nat.not_lt] at hbreak
      have hcur' : (cur ++ [space] ++ w).head? ≠ some space := by
        rwa [List.append_assoc, List.head?_append_of_ne_nil _ hbreak.1]
      rw [rewrapWord_joins hbreak.1 hbreak.2]
      exact ih hws hout hcur' ((forall_flush _ hcur').2 hout)

theorem rewrapLine_head {cols : Nat} (hc : 0 < cols) {l : Str} (hl : ∀ c ∈ l, Printable c) :
    ∀ r ∈ rewrapLine l cols, r.head? ≠ some space := by
  by_cases h : Blank l
  · rw [rewrapLine_blank h, List.forall_mem_singleton]
    exact nofun
  · rw [rewrapLine_eq hc hl h]
    exact foldl_head hc (fun w hw => not_mem_of_mem_splitOn hw) nofun nofun

/-- Each row is its own wrapping, and neither begins nor ends with a space. -/
def Rewraps (cols : Nat) (l : Str) : Prop :=
  ∀ r ∈ rewrapLine l cols, rewrapLine r cols = [r] ∧ r.head? ≠ some space ∧ r.getLast? ≠ some space

instance (cols : Nat) (l : Str) : Decidable (Rewraps cols l) := inferInstanceAs (Decidable (∀ _ ∈ _, _))

/-- Wrapping a row again leaves it as it is, for every row of the line, exactly
when every run of spaces joins. A row that does change ends with a space: none
begins with one. -/
theorem rewraps_iff_runs_join {cols : Nat} (hc : 0 < cols) {l : Str} (hl : ∀ c ∈ l, Printable c) :
    (Rewraps cols l ↔ RunsJoin cols l) ∧
      ∀ r ∈ rewrapLine l cols, r.head? ≠ some space ∧ (rewrapLine r cols = [r] ↔ r.getLast? ≠ some space) := by
  have hself : ∀ r ∈ rewrapLine l cols, (rewrapLine r cols = [r] ↔ Clean r) := fun r hr =>
    rewrapLine_self hc (rewrapLine_meet cols (by decide) l hl r hr) (rewrapLine_width hc hl r hr)
  have hhead := rewrapLine_head hc hl
  constructor
  · rw [← rewrapLine_clean hc hl]
    exact ⟨fun h r hr => (h r hr).2, fun h r hr => ⟨(hself r hr).2 (h r hr), h r hr⟩⟩
  · exact fun r hr => ⟨hhead r hr, (hself r hr).trans (and_iff_right (hhead r hr))⟩

/-- Two spaces inside a row, and one where a row ends. -/
theorem rewraps_iff_runs_join_inside :
    let inside := str "Step 1.  Factor the quadratic"
    Rewraps 16 inside ∧ ∀ r ∈ rewrapLine inside 16, r.head? ≠ some space := by
  intro inside
  obtain ⟨hiff, hrows⟩ := rewraps_iff_runs_join (show 0 < 16 by decide) (show ∀ c ∈ inside, Printable c by decide)
  exact ⟨hiff.2 (by decide), fun r hr => (hrows r hr).1⟩

/-- Two spaces where a row ends: the row keeps one, and wrapped again it loses it. -/
theorem row_keeps_space :
    let line := str "see the table.  Then"
    (∀ c ∈ line, Printable c) ∧ rewrapLine line 16 = [str "see the table. ", str "Then"] ∧
      rewrapLine (str "see the table. ") 16 = [str "see the table."] ∧ ¬Rewraps 16 line := by
  decide

end CalcBridge.Relay
