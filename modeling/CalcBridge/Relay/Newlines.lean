import CalcBridge.Relay.Rewrap
/-!
# Lines joined by spaces (`tools/relay_server.py`)

`_ascii_clamp` turns a newline into a space before the text is split at its
newlines, so the lines of a plain string are wrapped as one. Whether that
gives the rows of the single lines is decided at each place two lines meet.
-/
open LinkLib LinkLib.Text

namespace CalcBridge.Relay

/-- The last row a line is wrapped to. -/
def lastRow (cols : Nat) (l : Str) : Str := (rewrapLine l cols).getLast?.getD []

/-- The word after the text of `l`, when a space and `l'` follow. The spaces
that end `l` separate empty words. -/
def wordAfter (l l' : Str) : Str := if l.getLast? = some space then [] else firstWord l'

/-- Wrapping `l`, a space and `l'` as one line breaks where `l'` starts: both
have text, and the word after `l` does not fit on its last row. -/
structure BreaksAnyway (cols : Nat) (l l' : Str) : Prop where
  before : ¬ Blank l
  after : ¬ Blank l'
  full : cols < (lastRow cols l).length + 1 + (wordAfter l l').length

/-! ## Stripping the joined text -/

theorem rstrip_append {a b : Str} (hb : ¬ Blank b) : rstrip (a ++ b) = a ++ rstrip b := by
  unfold Blank at hb
  unfold rstrip List.rdropWhile at hb ⊢
  rw [List.reverse_append, List.dropWhile_append, if_neg (by simpa using hb), List.reverse_append, List.reverse_reverse]

theorem blank_append {a b : Str} : Blank (a ++ b) ↔ Blank a ∧ Blank b := by
  simp [Blank, rstrip, List.rdropWhile_eq_nil_iff, or_imp, forall_and]

theorem lastRow_eq {cols : Nat} (l : Str) : (rewrapLine l cols).getLast? = some (lastRow cols l) := by
  rw [lastRow, List.getLast?_eq_some_getLast (rewrapLine_ne_nil l cols)]
  rfl

theorem firstWord_rstrip {l : Str} (hl : ∀ c ∈ l, Printable c) : firstWord (rstrip l) = firstWord l := by
  obtain ⟨n, hn⟩ := exists_rstrip hl
  conv_rhs => rw [hn]
  refine (firstWord_append _ fun c hc => ?_).symm
  cases n with
  | zero => cases hc
  | succ n => exact (Option.some.inj hc).symm

/-- The words of two lines joined by a space: those of the first, the word
after it, and what wraps to the rows of the second. -/
theorem joined_words {cols : Nat} (hc : 0 < cols) {l l' more : Str} (hl : ∀ c ∈ l, Printable c)
    (hr : ∀ c ∈ l' ++ more, Printable c) (hmore : ∀ c, more.head? = some c → c = space) (hrest : ¬ Blank (l' ++ more)) :
    ∃ ws, (rstrip (l ++ space :: (l' ++ more))).splitOn space = (rstrip l).splitOn space ++ wordAfter l l' :: ws ∧
      wrapWords cols (wordAfter l l' :: ws) = rewrapLine (l' ++ more) cols := by
  obtain ⟨n, hn⟩ := exists_rstrip hl
  obtain ⟨vs, hvs⟩ := splitOn_head (rstrip (l' ++ more))
  rw [firstWord_rstrip hr, firstWord_append l' hmore] at hvs
  have hstrip : rstrip (l ++ space :: (l' ++ more)) =
      rstrip l ++ List.replicate n space ++ space :: rstrip (l' ++ more) := by
    rw [← hn, ← List.singleton_append, ← List.append_assoc, rstrip_append hrest, List.append_assoc]
    rfl
  have hwords : (rstrip (l ++ space :: (l' ++ more))).splitOn space =
      (rstrip l).splitOn space ++ (List.replicate n [] ++ firstWord l' :: vs) := by
    rw [hstrip, List.splitOn_append_cons_self, splitOn_replicate, hvs, List.append_assoc]
  have hrows : wrapWords cols (List.replicate n [] ++ firstWord l' :: vs) = rewrapLine (l' ++ more) cols := by
    rw [wrapWords_replicate, ← hvs, rewrapLine_eq hc hr hrest]
  cases n with
  | zero =>
    have hlast : l.getLast? ≠ some space := (rstrip_eq_self_iff hl).1 (hn.trans (List.append_nil _)).symm
    rw [wordAfter, if_neg hlast]
    exact ⟨vs, hwords, hrows⟩
  | succ n =>
    have hlast : l.getLast? = some space := by
      rw [hn, List.replicate_succ', ← List.append_assoc, List.getLast?_concat]
    rw [List.replicate_succ, List.cons_append] at hwords hrows
    rw [wordAfter, if_pos hlast]
    exact ⟨List.replicate n [] ++ firstWord l' :: vs, hwords, hrows⟩

/-- The rows of two lines joined by a space are those of the first and then
others exactly when the word after the first does not fit on its last row, and
the others are the rows of the second. -/
theorem rewrapLine_join_iff {cols : Nat} (hc : 0 < cols) {l l' more : Str} (hl : ∀ c ∈ l, Printable c)
    (hr : ∀ c ∈ l' ++ more, Printable c) (hmore : ∀ c, more.head? = some c → c = space) (hb : ¬ Blank l)
    (hrest : ¬ Blank (l' ++ more)) (rows : List Str) :
    rewrapLine (l ++ space :: (l' ++ more)) cols = rewrapLine l cols ++ rows ↔
      cols < (lastRow cols l).length + 1 + (wordAfter l l').length ∧ rewrapLine (l' ++ more) cols = rows := by
  obtain ⟨ws, hws, hrows⟩ := joined_words hc hl hr hmore hrest
  have hall : ¬ Blank (l ++ space :: (l' ++ more)) := fun h => hb (blank_append.1 h).1
  have hpall : ∀ c ∈ l ++ space :: (l' ++ more), Printable c := by
    intro c hcm
    rcases List.mem_append.1 hcm with h | h
    · exact hl c h
    · rcases List.mem_cons.1 h with rfl | h
      · decide
      · exact hr c h
  have hline : rewrapLine l cols = wrapWords cols ((rstrip l).splitOn space) := rewrapLine_eq hc hl hb
  have hlast : (wrapWords cols ((rstrip l).splitOn space)).getLast? = some (lastRow cols l) := by
    rw [← hline]
    exact lastRow_eq l
  rw [rewrapLine_eq hc hpall hall, hws]
  rcases Nat.lt_or_ge cols ((lastRow cols l).length + 1 + (wordAfter l l').length) with h | h
  · rw [wrapWords_breaks hc hlast h, hrows, hline, List.append_cancel_left_eq]
    exact (and_iff_right h).symm
  · obtain ⟨front, r, rows', hfront, hlonger, hlt⟩ := wrapWords_joins hc hlast h ws
    refine iff_of_false (fun he => ?_) fun hbreak => Nat.not_lt.2 h hbreak.1
    rw [hlonger, hline, hfront, List.append_assoc, List.append_cancel_left_eq] at he
    exact absurd (congrArg List.length (List.cons.inj he).1) (Nat.ne_of_gt hlt)

/-! ## Line by line -/

theorem mem_joined {lines : List Str} {c : Nat} (h : c ∈ [space].intercalate lines) : c = space ∨ ∃ l ∈ lines, c ∈ l := by
  induction lines with
  | nil => cases h
  | cons l lines ih =>
    cases lines with
    | nil => exact .inr ⟨l, by simp, by simpa using h⟩
    | cons l' ls =>
      rw [List.intercalate_cons_cons, List.append_assoc, List.mem_append, List.mem_append, List.mem_singleton] at h
      rcases h with h | h | h
      · exact .inr ⟨l, by simp, h⟩
      · exact .inl h
      · rcases ih h with h | ⟨m, hm, h⟩
        · exact .inl h
        · exact .inr ⟨m, List.mem_cons_of_mem _ hm, h⟩

theorem joined_printable {lines : List Str} (hp : ∀ l ∈ lines, ∀ c ∈ l, Printable c) :
    ∀ c ∈ [space].intercalate lines, Printable c := by
  intro c hc
  rcases mem_joined hc with rfl | ⟨l, hl, h⟩
  · decide
  · exact hp l hl c h

/-- The joined text starts with its first line, and a space follows if anything does. -/
theorem joined_first (l : Str) (lines : List Str) :
    ∃ more, [space].intercalate (l :: lines) = l ++ more ∧ ∀ c, more.head? = some c → c = space := by
  cases lines with
  | nil => exact ⟨[], by simp, nofun⟩
  | cons l' ls =>
    refine ⟨space :: [space].intercalate (l' :: ls), ?_, fun c hc => (Option.some.inj hc).symm⟩
    rw [List.intercalate_cons_cons, List.append_assoc]
    rfl

/-- A blank line keeps its row only when it is alone. -/
theorem rewrapLine_joined_blank {cols : Nat} (hc : 0 < cols) {l l' m : Str} {ls : List Str}
    (hp : ∀ l'' ∈ l :: l' :: ls, ∀ c ∈ l'', Printable c) (hm : m ∈ l :: l' :: ls) (hblank : Blank m) :
    rewrapLine ([space].intercalate (l :: l' :: ls)) cols ≠ (l :: l' :: ls).flatMap (rewrapLine · cols) := by
  intro he
  by_cases hall : Blank ([space].intercalate (l :: l' :: ls))
  · -- One row on the left, at least two on the right.
    have hlen := congrArg List.length he
    have h1 := List.length_pos_iff.2 (rewrapLine_ne_nil l cols)
    have h2 := List.length_pos_iff.2 (rewrapLine_ne_nil l' cols)
    rw [rewrapLine_blank hall, List.flatMap_cons, List.flatMap_cons, List.length_append, List.length_append,
      List.length_singleton] at hlen
    omega
  · -- The right has a blank row, the left has none.
    refine rewrapLine_rows_ne_nil hc (joined_printable hp) hall [] ?_ rfl
    rw [he]
    exact List.mem_flatMap.2 ⟨m, hm, by rw [rewrapLine_blank hblank]; simp⟩

/-- Lines joined by spaces wrap to the rows of the single lines exactly when
the wrapping breaks at every join anyway. -/
theorem rewrapLine_joined_iff {cols : Nat} (hc : 0 < cols) {lines : List Str} (hne : lines ≠ [])
    (hp : ∀ l ∈ lines, ∀ c ∈ l, Printable c) :
    rewrapLine ([space].intercalate lines) cols = lines.flatMap (rewrapLine · cols) ↔ lines.IsChain (BreaksAnyway cols) := by
  induction lines with
  | nil => exact absurd rfl hne
  | cons l lines ih =>
    cases lines with
    | nil => simp
    | cons l' ls =>
      have hp' : ∀ m ∈ l' :: ls, ∀ c ∈ m, Printable c := fun m hm => hp m (List.mem_cons_of_mem _ hm)
      rw [List.isChain_cons_cons, ← ih (List.cons_ne_nil _ _) hp']
      by_cases hb : Blank l
      · exact iff_of_false (rewrapLine_joined_blank hc hp (by simp) hb) fun h => h.1.before hb
      by_cases hb' : Blank l'
      · exact iff_of_false (rewrapLine_joined_blank hc hp (m := l') (by simp) hb') fun h => h.1.after hb'
      -- Both lines have text: see whether the word after the first fits on its last row.
      obtain ⟨more, hmore, hhead⟩ := joined_first l' ls
      have htext : [space].intercalate (l :: l' :: ls) = l ++ space :: (l' ++ more) := by
        rw [List.intercalate_cons_cons, List.append_assoc, hmore]
        rfl
      have hpmore : ∀ c ∈ l' ++ more, Printable c := hmore ▸ joined_printable hp'
      have hrest : ¬ Blank (l' ++ more) := fun h => hb' (blank_append.1 h).1
      rw [htext, hmore, List.flatMap_cons, rewrapLine_join_iff hc (hp l (by simp)) hpmore hhead hb hrest]
      exact and_congr_left' ⟨fun h => ⟨hb, hb', h⟩, fun h => h.full⟩

end CalcBridge.Relay
