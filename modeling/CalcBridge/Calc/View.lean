import Mathlib.Tactic.IntervalCases
import CalcBridge.Calc.Basic
/-!
# The reply pager (`programs/basic_view/VIEW.basic`)

`view` is the program line by line; `programs/basic_deck/DECK.basic` ends in
the same lines. `Pager` is what it is for: a page between 1 and `n`, the arrow
keys turn it, CLEAR leaves.
-/
open LinkLib LinkLib.Text LinkLib.Lines CalcBridge.Bridge

namespace CalcBridge.Calc

/-! ## The program -/

/-- `Output(r,1,sub(StrK,1+16*(r-1),16`, with `r` counted from 0. -/
def outputRow (k r : Nat) : Act := .output (r + 1) 1 (.sub k (1 + 16 * r) 16)

def outputRows (k : Nat) : Program := ((List.range 7).map (outputRow k)).map .act

/-- Where page `p` is drawn, and the String it is drawn from. -/
def pageTable : List (Label × Nat) :=
  [(.B, 3), (.C, 4), (.D, 5), (.E, 6), (.F, 7), (.G, 8), (.H, 9), (.I, 0)]

/-- The `If P=p` / `Goto` pairs. -/
def jumps : List (Cond × Label) :=
  pageTable.zipIdx.map fun e => (.eq (.var .P) (.lit (e.2 + 1)), e.1.1)

def footer : List Act :=
  [.output 8 1 (.num (.var .P)), .output 8 2 (.quote (str "/")), .output 8 3 (.num (.var .N)),
   .output 8 13 (.quote (str "<>")), .store (.lit 0) .K]

/-- `K=24 or K=26 or K=45`: left, right, CLEAR. -/
def turned : Cond := .or (.or (.eq (.var .K) (.lit 24)) (.eq (.var .K) (.lit 26))) (.eq (.var .K) (.lit 45))

/-- From the `End` of the key loop on. -/
def afterKey : Program :=
  [.whenNext (.and (.eq (.var .K) (.lit 24)) (.gt (.var .P) (.lit 1))), .act (.store (.minus (.var .P) (.lit 1)) .P),
   .whenNext (.and (.eq (.var .K) (.lit 26)) (.lt (.var .P) (.var .N))), .act (.store (.plus (.var .P) (.lit 1)) .P),
   .whenNext (.eq (.var .K) (.lit 45)), .ret,
   .goto .A]

/-- From `Repeat` on. -/
def keyLoop : Program := .repeatUntil turned :: ([Act.getKey .K].map .act ++ .endBlock :: afterKey)

/-- The lines of every page but the last end in `Goto Z`. -/
def pageLines (e : Label × Nat) : Program := .lbl e.1 :: (outputRows e.2 ++ [.goto .Z])

def view : Program :=
  .act (.store (.lit 1) .P) :: .lbl .A :: .act .clrHome :: ((jumps.flatMap fun e => [.whenNext e.1, .goto e.2]) ++
    ((pageTable.take 7).flatMap pageLines ++
    (.lbl .I :: (outputRows 0 ++ (.lbl .Z :: (footer.map .act ++ keyLoop))))))

/-! ## What it is for -/

/-- The String a page is drawn from. -/
def slot (p : Nat) : Nat := (p + 2) % 10

/-- What a key does to the page of a reply of `n` pages. -/
def turn (n p : Nat) (key : Int) : Nat :=
  if key = 24 ∧ 1 < p then p - 1 else if key = 26 ∧ p < n then p + 1 else p

def pageAfter (n : Nat) (keys : List Int) : Nat := keys.foldl (turn n) 1

/-- A page's seven rows, then `p/n` and the arrows. -/
def display (rows : List Str) (p n : Nat) : Str :=
  rows.flatten ++ (showNum p ++ str "/" ++ showNum n ++ List.replicate 9 0x20 ++ str "<>" ++ List.replicate 2 0x20)

/-- A String's body is drawn as seven full rows. -/
structure Draws (glyph : Bytes → Str) (rows : List Str) (body : Bytes) : Prop where
  count : rows.length = 7
  width : ∀ r ∈ rows, r.length = 16
  row : ∀ (r : Nat) (h : r < rows.length), ∃ toks, Bridge.sub body (1 + 16 * r) 16 = some toks ∧
    toks.flatMap glyph = rows[r]

theorem turn_bounds {n p : Nat} (key : Int) (h1 : 1 ≤ p) (hn : p ≤ max 1 n) :
    1 ≤ turn n p key ∧ turn n p key ≤ max 1 n := by
  unfold turn
  split
  · omega
  · split <;> omega

theorem turn_other {n p : Nat} {key : Int} (h24 : key ≠ 24) (h26 : key ≠ 26) : turn n p key = p := by
  simp [turn, h24, h26]

/-! ## Drawing a page -/

section Run
variable (glyph : Bytes → Str)

theorem output_exec {s : State} {row col pos : Nat} {x : Shown} {t screen : Str} (hx : x.text glyph s = .ok t)
    (hr : 1 ≤ row ∧ row ≤ 8) (hc : 1 ≤ col ∧ col ≤ 16) (hpos : 16 * (row - 1) + (col - 1) = pos)
    (hw : writeAt s.screen pos t = screen) : (meaning glyph).exec (.output row col x) s = .ok { s with screen } := by
  subst hpos hw
  simp only [meaning, Act.exec, hx, screenRows, screenCols, hr, hc, and_self, if_true]

theorem length_flatten_take {rows : List Str} (h16 : ∀ r ∈ rows, r.length = 16) {k : Nat} (hk : k ≤ rows.length) :
    (rows.take k).flatten.length = 16 * k := by
  rw [Relay.length_flatten_const _ fun r hr => h16 r (List.mem_of_mem_take hr), List.length_take, Nat.min_eq_left hk,
    Nat.mul_comm]

/-- The screen after the first `k` rows. -/
def rowsScreen (rows : List Str) (k : Nat) : Str := (rows.take k).flatten ++ List.replicate (128 - 16 * k) 0x20

/-- The first `k` rows of a String, drawn on a clear screen. -/
theorem drawn_exec {rows : List Str} {body : Bytes} (h16 : ∀ r ∈ rows, r.length = 16)
    (hrow : ∀ (r : Nat) (h : r < rows.length), ∃ toks, Bridge.sub body (1 + 16 * r) 16 = some toks ∧
      toks.flatMap glyph = rows[r])
    {s : State} {i : Nat} (hs : s.strs i = some body) (hclear : s.screen = blank) {k : Nat} (hk : k ≤ rows.length) (hk7 : k ≤ 7) :
    execAll (meaning glyph) ((List.range k).map (outputRow i)) s = .ok { s with screen := rowsScreen rows k } := by
  induction k with
  | zero =>
    have hzero : s = { s with screen := rowsScreen rows 0 } := by
      rw [show rowsScreen rows 0 = s.screen from hclear.symm]
    exact congrArg Except.ok hzero
  | succ k ih =>
    obtain ⟨toks, hsub, htoks⟩ := hrow k hk
    have htext : (Shown.sub i (1 + 16 * k) 16).text glyph { s with screen := rowsScreen rows k } = .ok rows[k] := by
      simp only [Shown.text, hs, hsub, htoks]
    have hpos : 16 * (k + 1 - 1) + (1 - 1) = (rows.take k).flatten.length := by
      rw [length_flatten_take h16 (by omega)]
      omega
    have hw : rows[k].length = 16 := h16 _ (List.getElem_mem hk)
    have hwrite : writeAt (rowsScreen rows k) (16 * (k + 1 - 1) + (1 - 1)) rows[k] = rowsScreen rows (k + 1) := by
      rw [rowsScreen, writeAt_next hpos.symm (k := 128 - 16 * (k + 1)) (by omega), rowsScreen,
        List.take_succ_eq_append_getElem hk, List.flatten_append, List.flatten_singleton]
    have hstep := output_exec glyph htext ⟨by omega, by omega⟩ (by decide) rfl hwrite
    rw [List.range_succ, List.map_append, execAll_append (ih (by omega) (by omega))]
    exact execAll_cons hstep

/-- A page's seven rows. -/
theorem rows_exec {rows : List Str} {body : Bytes} (hd : Draws glyph rows body) {s : State} {i : Nat}
    (hs : s.strs i = some body) (hclear : s.screen = blank) :
    execAll (meaning glyph) ((List.range 7).map (outputRow i)) s = .ok { s with screen := rowsScreen rows 7 } :=
  drawn_exec glyph hd.width hd.row hs hclear (Nat.le_of_eq hd.count.symm) (Nat.le_refl 7)

theorem digit_length {n : Int} (h0 : 0 ≤ n) (h9 : n ≤ 9) : (showNum n).length = 1 := by
  have hall : ∀ k ∈ List.range 10, (showNum k).length = 1 := by decide
  lift n to Nat using h0
  exact hall n (List.mem_range.2 (by omega))

/-- The footer's lines after the rows are drawn. -/
theorem footer_exec {rows : List Str} (h7 : rows.length = 7) (h16 : ∀ r ∈ rows, r.length = 16) {s : State} {p n : Nat}
    (hp : s.nums .P = p) (hn : s.nums .N = n) (hp9 : p ≤ 9) (hn9 : n ≤ 9) (hs : s.screen = rowsScreen rows 7) :
    execAll (meaning glyph) footer s =
      .ok { s with screen := display rows p n, nums := Function.update s.nums .K 0 } := by
  have hl : rows.flatten.length = 112 := by rw [Relay.length_flatten_const rows h16, h7]
  have hlp := digit_length (Int.natCast_nonneg p) (by omega)
  have hln := digit_length (Int.natCast_nonneg n) (by omega)
  have hrows : s.screen = rows.flatten ++ List.replicate 16 0x20 := by rw [hs, rowsScreen, ← h7, List.take_length, h7]
  set l1 := rows.flatten ++ showNum p with hl1
  set l2 := l1 ++ str "/" with hl2
  set l3 := l2 ++ showNum n with hl3
  have h1 : writeAt (rows.flatten ++ List.replicate 16 0x20) 112 (showNum p) = l1 ++ List.replicate 15 0x20 :=
    writeAt_next hl (by rw [hlp])
  have h2 : writeAt (l1 ++ List.replicate 15 0x20) 113 (str "/") = l2 ++ List.replicate 14 0x20 :=
    writeAt_next (by rw [hl1, List.length_append, hl, hlp]) rfl
  have h3 : writeAt (l2 ++ List.replicate 14 0x20) 114 (showNum n) = l3 ++ List.replicate 13 0x20 :=
    writeAt_next (by rw [hl2, hl1, List.length_append, List.length_append, hl, hlp]; rfl) (by rw [hln])
  have h4 : writeAt (l3 ++ List.replicate 13 0x20) 124 (str "<>") = display rows p n := by
    have hl4 : (l3 ++ List.replicate 9 0x20).length = 124 := by
      simp only [hl3, hl2, hl1, List.length_append, List.length_replicate, hl, hlp, hln]
      rfl
    have h := writeAt_next (s := str "<>") (n := 4) (k := 2) hl4 rfl
    rw [List.append_assoc, show List.replicate 9 0x20 ++ List.replicate 4 0x20 = List.replicate 13 0x20 from rfl] at h
    simpa only [display, hl3, hl2, hl1, List.append_assoc] using h
  rw [footer, execAll_cons (output_exec glyph (by rw [Shown.text, Num.eval, hp]) (by decide) (by decide) rfl
      ((congrArg (writeAt · _ _) hrows).trans h1)),
    execAll_cons (output_exec glyph rfl (by decide) (by decide) rfl h2),
    execAll_cons (output_exec glyph (by rw [Shown.text, Num.eval]; exact congrArg (Except.ok ∘ showNum) hn) (by decide)
      (by decide) rfl h3),
    execAll_cons (output_exec glyph rfl (by decide) (by decide) rfl h4)]
  rfl

/-! ## The key loop -/

/-- The program from `ClrHome` at `Lbl A` on. -/
def drawing : Program := view.drop 2

/-- From `Lbl Z` on. -/
def foot : Program := footer.map .act ++ keyLoop

theorem findLabel_A : findLabel .A view = some drawing := rfl

theorem findLabel_Z : findLabel .Z view = some foot := rfl

/-- The label of page `p`. -/
def labelOf (p : Nat) : Label := (pageTable[p - 1]?.map Prod.fst).getD .A

/-- The lines at a page's label: its rows, and from their end the way to `Lbl Z`. -/
theorem findLabel_page {p : Nat} (h1 : 1 ≤ p) (h8 : p ≤ 8) :
    ∃ rest, findLabel (labelOf p) view = some (outputRows (slot p) ++ rest) ∧
      ∀ (bl : List (Cond × Program)) (t : State), Reaches (meaning glyph) view ⟨rest, bl, t⟩ ⟨foot, bl, t⟩ := by
  rcases Nat.lt_or_eq_of_le h8 with h7 | rfl
  · refine ⟨.goto .Z :: (view.drop (1 + (18 + 9 * p))), ?_, fun bl t => goto_run findLabel_Z⟩
    have hall : ∀ p ∈ List.range 8, 1 ≤ p →
        findLabel (labelOf p) view = some (outputRows (slot p) ++ .goto .Z :: (view.drop (1 + (18 + 9 * p)))) := by decide
    exact hall p (List.mem_range.2 h7) h1
  · exact ⟨.lbl .Z :: foot, rfl, fun bl t => lbl_run _⟩

/-- The first `If` that holds is the one of the page. -/
theorem jumps_find {p : Nat} (h1 : 1 ≤ p) (h8 : p ≤ 8) {s : State} (hs : s.nums .P = p) :
    jumps.find? (fun e => (meaning glyph).test e.1 s) = some (.eq (.var .P) (.lit p), labelOf p) := by
  interval_cases p <;> simp [jumps, pageTable, meaning, Cond.test, Num.eval, hs, labelOf]

/-- Page `p` of `n` is on the screen, the memory as the reply left it. -/
structure Showing (rows : Nat → List Str) (strs : Nat → Option Bytes) (n p : Nat) (s : State) : Prop where
  page : s.nums .P = p
  count : s.nums .N = n
  strs : s.strs = strs
  screen : s.screen = display (rows p) p n

/-- Every page of the reply can be drawn. An empty reply still shows page 1. -/
def Reply (rows : Nat → List Str) (strs : Nat → Option Bytes) (n : Nat) : Prop :=
  n ≤ 8 ∧ ∀ p, 1 ≤ p → p ≤ max 1 n → ∃ body, strs (slot p) = some body ∧ Draws glyph (rows p) body

/-- Where the program waits for a key. -/
def polling (bl : List (Cond × Program)) (s : State) : Config Label Act Cond State :=
  ⟨loopBody [.getKey .K] afterKey, (turned, loopBody [.getKey .K] afterKey) :: bl, s⟩

section Sessions
variable (bl : List (Cond × Program)) {rows : Nat → List Str} {strs : Nat → Option Bytes} {n p : Nat}

/-- From `Lbl A` to the rows of the page. -/
theorem page_run (h1 : 1 ≤ p) (h8 : p ≤ 8) {s : State} (hP : s.nums .P = p) :
    ∃ rest, Reaches (meaning glyph) view ⟨drawing, bl, s⟩ ⟨outputRows (slot p) ++ rest, bl, { s with screen := blank }⟩ ∧
      ∀ t, Reaches (meaning glyph) view ⟨rest, bl, t⟩ ⟨foot, bl, t⟩ := by
  obtain ⟨rest, hfind, hrest⟩ := findLabel_page glyph h1 h8
  have hclear : Reaches (meaning glyph) view ⟨drawing, bl, s⟩ ⟨drawing.drop 1, bl, { s with screen := blank }⟩ := act_run rfl
  exact ⟨rest, hclear.trans (dispatch_run (jumps_find glyph h1 h8 hP) hfind), hrest bl⟩

/-- From `Lbl A` to the key loop: the page is drawn. -/
theorem draw_run (hr : Reply glyph rows strs n) (h1 : 1 ≤ p) (hp : p ≤ max 1 n) {s : State} (hP : s.nums .P = p)
    (hN : s.nums .N = n) (hs : s.strs = strs) :
    ∃ s', Reaches (meaning glyph) view ⟨drawing, bl, s⟩ (polling bl s') ∧ Showing rows strs n p s' ∧
      s'.keys = s.keys := by
  obtain ⟨hn8, hpages⟩ := hr
  obtain ⟨body, hbody, hd⟩ := hpages p h1 hp
  obtain ⟨rest, hpage, hrest⟩ := page_run glyph bl h1 (by omega) hP
  set s1 : State := { s with screen := blank } with hs1
  set s2 : State := { s1 with screen := rowsScreen (rows p) 7 } with hs2
  have hrows : Reaches (meaning glyph) view ⟨outputRows (slot p) ++ rest, bl, s1⟩ ⟨rest, bl, s2⟩ :=
    acts_run (rows_exec glyph hd (hs ▸ hbody) rfl)
  have hfoot : Reaches (meaning glyph) view ⟨foot, bl, s2⟩ ⟨keyLoop, bl, _⟩ :=
    acts_run (footer_exec glyph hd.count hd.width (s := s2) hP hN (by omega) (by omega) rfl)
  refine ⟨_, (hpage.trans (hrows.trans ((hrest s2).trans (hfoot.trans (.head rfl (.refl _)))))), ?_, rfl⟩
  exact ⟨hP, hN, hs, rfl⟩

theorem turned_test (s : State) :
    (meaning glyph).test turned s = decide (s.nums .K = 24 ∨ s.nums .K = 26 ∨ s.nums .K = 45) := by
  simp [meaning, turned, Cond.test, Num.eval, Bool.beq_eq_decide_eq, Bool.or_assoc]

/-- One poll of the keypad. -/
def polled (s : State) (key : Int) (keys : List Int) : State :=
  { s with nums := Function.update s.nums .K key, keys }

@[simp] theorem polled_K (s : State) (key : Int) (keys : List Int) : (polled s key keys).nums .K = key := by
  simp [polled]

theorem poll_exec {s : State} {key : Int} {keys : List Int} (hk : s.keys = key :: keys) :
    execAll (meaning glyph) [.getKey .K] s = .ok (polled s key keys) := by
  simp only [execAll, List.foldlM_cons, List.foldlM_nil, meaning, Act.exec, hk, polled]
  rfl

theorem Showing.polled {s : State} (h : Showing rows strs n p s) (key : Int) (keys : List Int) :
    Showing rows strs n p (polled s key keys) where
  page := h.page
  count := h.count
  strs := h.strs
  screen := h.screen

/-- After a key the page is turned, and nothing else in memory changes. -/
theorem afterKey_run {s : State} (h : Showing rows strs n p s) {key : Int} (hK : s.nums .K = key) :
    ∃ s', Reaches (meaning glyph) view ⟨afterKey, bl, s⟩ ⟨afterKey.drop 4, bl, s'⟩ ∧ s'.nums .P = turn n p key ∧
      s'.nums .N = n ∧ s'.nums .K = key ∧ s'.strs = strs ∧ s'.screen = s.screen ∧ s'.keys = s.keys := by
  have hleft : (meaning glyph).test (.and (.eq (.var .K) (.lit 24)) (.gt (.var .P) (.lit 1))) s =
      decide (key = 24 ∧ 1 < p) := by
    simp [meaning, Cond.test, Num.eval, hK, h.page, Bool.beq_eq_decide_eq]
  have hright (s' : State) (hK' : s'.nums .K = key) (hN' : s'.nums .N = n) :
      (meaning glyph).test (.and (.eq (.var .K) (.lit 26)) (.lt (.var .P) (.var .N))) s' =
        decide (key = 26 ∧ s'.nums .P < n) := by
    simp [meaning, Cond.test, Num.eval, hK', hN', Bool.beq_eq_decide_eq]
  by_cases hl : key = 24 ∧ 1 < p
  · set s' : State := { s with nums := Function.update s.nums .P (p - 1 : Int) } with hs'
    have hstore : (Act.store (.minus (.var .P) (.lit 1)) .P).exec glyph s = .ok s' := by
      simp only [Act.exec, Num.eval, h.page, hs']
    have h26 : (meaning glyph).test (.and (.eq (.var .K) (.lit 26)) (.lt (.var .P) (.var .N))) s' = false := by
      rw [hright s' hK h.count, hl.1]
      simp
    refine ⟨s', ?_, ?_, h.count, hK, h.strs, rfl, rfl⟩
    · refine (when_run _).trans ?_
      rw [hleft, decide_eq_true hl, if_pos rfl]
      refine (act_run hstore).trans ((when_run _).trans ?_)
      rw [h26]
      exact .refl _
    · rw [turn, if_pos hl]
      simp only [hs', Function.update_self]
      omega
  · have hskip : Reaches (meaning glyph) view ⟨afterKey, bl, s⟩ ⟨afterKey.drop 2, bl, s⟩ := by
      refine (when_run _).trans ?_
      rw [hleft, decide_eq_false hl]
      exact .refl _
    by_cases hg : key = 26 ∧ p < n
    · set s' : State := { s with nums := Function.update s.nums .P (p + 1 : Int) } with hs'
      have hstore : (Act.store (.plus (.var .P) (.lit 1)) .P).exec glyph s = .ok s' := by
        simp only [Act.exec, Num.eval, h.page, hs']
      refine ⟨s', hskip.trans ((when_run _).trans ?_), ?_, h.count, hK, h.strs, rfl, rfl⟩
      · rw [hright s hK h.count, h.page, decide_eq_true (by omega), if_pos rfl]
        exact act_run hstore
      · rw [turn, if_neg hl, if_pos hg]
        simp only [hs', Function.update_self]
        omega
    · refine ⟨s, hskip.trans ((when_run _).trans ?_), ?_, h.count, hK, h.strs, rfl, rfl⟩
      · rw [hright s hK h.count, h.page, decide_eq_false (by omega)]
        exact .refl _
      · rw [turn, if_neg hl, if_neg hg, h.page]

/-- The last lines leave on CLEAR and draw again on any other key. -/
theorem last_lines {s : State} {key : Int} (hK : s.nums .K = key) :
    (key = 45 → Ends (meaning glyph) view ⟨afterKey.drop 4, bl, s⟩ .returned s) ∧
      (key ≠ 45 → Reaches (meaning glyph) view ⟨afterKey.drop 4, bl, s⟩ ⟨drawing, bl, s⟩) := by
  have htest : (meaning glyph).test (.eq (.var .K) (.lit 45)) s = decide (key = 45) := by
    simp [meaning, Cond.test, Num.eval, hK, Bool.beq_eq_decide_eq]
  constructor
  · intro h
    refine (when_run _).ends ?_
    rw [htest, decide_eq_true h, if_pos rfl]
    exact ret_ends
  · intro h
    refine (when_run _).trans ?_
    rw [htest, decide_eq_false h]
    exact goto_run findLabel_A

/-! ## Whole sessions -/

/-- As long as CLEAR is not pressed the pager follows the keys and waits for
the next one. -/
theorem keys_run (hr : Reply glyph rows strs n) (keys : List Int) (hclear : (45 : Int) ∉ keys) {rest : List Int}
    {s : State} (h : Showing rows strs n p s) (h1 : 1 ≤ p) (hp : p ≤ max 1 n) (hk : s.keys = keys ++ rest) :
    ∃ s', Reaches (meaning glyph) view (polling bl s) (polling bl s') ∧
      Showing rows strs n (keys.foldl (turn n) p) s' ∧ s'.keys = rest := by
  induction keys generalizing s p with
  | nil => exact ⟨s, .refl _, h, hk⟩
  | cons key keys ih =>
    have h45 : key ≠ 45 := fun he => hclear (by simp [he])
    have hpoll := poll_exec glyph hk
    have hshow := h.polled key (keys ++ rest)
    obtain ⟨hb1, hb2⟩ := turn_bounds key h1 hp
    have hnext (s' : State) (hs' : Showing rows strs n (turn n p key) s') (hk' : s'.keys = keys ++ rest) :=
      ih (fun hm => hclear (List.mem_cons_of_mem _ hm)) hs' hb1 hb2 hk'
    have htest := turned_test glyph (polled s key (keys ++ rest))
    rw [polled_K] at htest
    by_cases harrow : key = 24 ∨ key = 26
    · rw [decide_eq_true (by tauto)] at htest
      obtain ⟨t, ht, hP, hN, hK, hs, -, hkeys⟩ := afterKey_run glyph bl hshow (polled_K ..)
      obtain ⟨s', hdraw, hs', hkeys'⟩ := draw_run glyph bl hr hb1 hb2 hP hN hs
      obtain ⟨u, hu, hshown, hrest⟩ := hnext s' hs' (hkeys'.trans hkeys)
      exact ⟨u, (rounds_run (.last hpoll htest)).trans (ht.trans (((last_lines glyph bl hK).2 h45).trans (hdraw.trans hu))),
        hshown, hrest⟩
    · rw [decide_eq_false (by tauto)] at htest
      have hturn : turn n p key = p := turn_other (by tauto) (by tauto)
      obtain ⟨u, hu, hshown, hrest⟩ := hnext (polled s key (keys ++ rest)) (by rw [hturn]; exact hshow) rfl
      exact ⟨u, (round_again hpoll htest).trans hu, hshown, hrest⟩

theorem pageAfter_bounds (n : Nat) (keys : List Int) : 1 ≤ pageAfter n keys ∧ pageAfter n keys ≤ max 1 n := by
  suffices h : ∀ (keys : List Int) (p : Nat), 1 ≤ p → p ≤ max 1 n →
      1 ≤ keys.foldl (turn n) p ∧ keys.foldl (turn n) p ≤ max 1 n from h keys 1 (by omega) (by omega)
  intro keys
  induction keys with
  | nil => exact fun p h1 hp => ⟨h1, hp⟩
  | cons key keys ih => exact fun p h1 hp => ih _ (turn_bounds key h1 hp).1 (turn_bounds key h1 hp).2

/-- The start of the program: page 1 is drawn and the key loop entered. -/
theorem start_run (hr : Reply glyph rows strs n) {s : State} (hN : s.nums .N = n) (hs : s.strs = strs) :
    ∃ s', Reaches (meaning glyph) view ⟨view, bl, s⟩ (polling bl s') ∧ Showing rows strs n 1 s' ∧ s'.keys = s.keys := by
  obtain ⟨s', hdraw, hshow, hk⟩ := draw_run glyph bl (p := 1) hr (by omega) (by omega)
    (s := { s with nums := Function.update s.nums .P 1 }) rfl hN hs
  exact ⟨s', (act_run rfl).trans ((lbl_run _).trans hdraw), hshow, hk⟩

/-- Without CLEAR the pager ends up waiting at the page the keys lead to. -/
theorem waits_at_page (hr : Reply glyph rows strs n) {front : Program} (hfront : ∀ x ∈ front, ¬ IsLbl x) {s : State}
    (hN : s.nums .N = n) (hs : s.strs = strs) (hclear : (45 : Int) ∉ s.keys) :
    ∃ s', Ends (meaning glyph) (front ++ view) ⟨view, bl, s⟩ (.because .waits) s' ∧
      Showing rows strs n (pageAfter n s.keys) s' ∧ s'.keys = [] := by
  obtain ⟨s1, hstart, hshow, hk1⟩ := start_run glyph bl hr hN hs
  obtain ⟨s2, hrun, hshow2, hk2⟩ := keys_run glyph bl hr s.keys hclear hshow (by omega) (by omega)
    (show s1.keys = s.keys ++ [] by rw [hk1, List.append_nil])
  have hwait : (meaning glyph).exec (.getKey .K) s2 = .error .waits := by simp only [meaning, Act.exec, hk2]
  exact ⟨s2, (ends_behind hfront).2 ((hstart.trans hrun).ends (act_stops hwait)), hshow2, hk2⟩

/-- At CLEAR it returns from the page the keys before lead to. -/
theorem returns_at_clear (hr : Reply glyph rows strs n) {front : Program} (hfront : ∀ x ∈ front, ¬ IsLbl x) {s : State}
    (hN : s.nums .N = n) (hs : s.strs = strs) {keys rest : List Int} (hclear : (45 : Int) ∉ keys)
    (hk : s.keys = keys ++ 45 :: rest) :
    ∃ s', Ends (meaning glyph) (front ++ view) ⟨view, bl, s⟩ .returned s' ∧
      Showing rows strs n (pageAfter n keys) s' ∧ s'.keys = rest := by
  obtain ⟨s1, hstart, hshow, hk1⟩ := start_run glyph bl hr hN hs
  obtain ⟨s2, hrun, hshow2, hk2⟩ := keys_run glyph bl hr keys hclear hshow (by omega) (by omega) (hk1.trans hk)
  have htest : (meaning glyph).test turned (polled s2 45 rest) = true := by simp [turned_test]
  have hpoll : Reaches (meaning glyph) view (polling bl s2) ⟨afterKey, bl, polled s2 45 rest⟩ :=
    rounds_run (.last (poll_exec glyph hk2) htest)
  obtain ⟨s3, hafter, hP, hN3, hK, hs3, hscreen, hk3⟩ :=
    afterKey_run glyph bl (hshow2.polled 45 rest) (polled_K ..)
  have hret := (last_lines glyph bl hK).1 rfl
  refine ⟨s3, (ends_behind hfront).2 ((hstart.trans (hrun.trans (hpoll.trans hafter))).ends hret), ⟨?_, hN3, hs3, ?_⟩, hk3⟩
  · rw [hP, turn_other (by decide) (by decide)]
    rfl
  · rw [hscreen]
    exact hshow2.screen

/-- For every sequence of keys before CLEAR the pager, entered behind any
lines without labels, shows the page the arrow keys lead to and its number; it
waits for more keys, and at CLEAR it returns there and reads no key after it. -/
theorem view_follows_keys (hr : Reply glyph rows strs n) {front : Program} (hfront : ∀ x ∈ front, ¬ IsLbl x) {s : State}
    (hN : s.nums .N = n) (hs : s.strs = strs) {keys : List Int} (hclear : (45 : Int) ∉ keys) :
    let q := pageAfter n keys
    1 ≤ q ∧ q ≤ max 1 n ∧
      (s.keys = keys → ∃ s', Ends (meaning glyph) (front ++ view) ⟨view, bl, s⟩ (.because .waits) s' ∧
        Showing rows strs n q s' ∧ s'.keys = []) ∧
      (∀ rest, s.keys = keys ++ 45 :: rest → ∃ s', Ends (meaning glyph) (front ++ view) ⟨view, bl, s⟩ .returned s' ∧
        Showing rows strs n q s' ∧ s'.keys = rest) := by
  intro q
  obtain ⟨hq1, hq⟩ := pageAfter_bounds n keys
  refine ⟨hq1, hq, ?_, fun rest hk => returns_at_clear glyph bl hr hfront hN hs hclear hk⟩
  rintro rfl
  exact waits_at_page glyph bl hr hfront hN hs hclear

end Sessions

end Run

/-- Two pages of one letter each. -/
def twoPages (keys : List Int) : State where
  strs k := if k = 3 then some (List.replicate 112 0x41) else if k = 4 then some (List.replicate 112 0x42) else none
  nums v := if v = .N then 2 else 0
  screen := blank
  keys

def twoRows (p : Nat) : List Str := List.replicate 7 (List.replicate 16 (0x40 + p))

def plainGlyph (tok : Bytes) : Str := tok.map UInt8.toNat

theorem reply_twoPages (keys : List Int) : Reply plainGlyph twoRows (twoPages keys).strs 2 := by
  refine ⟨by decide, fun p h1 hp => ?_⟩
  have hdraws (c : Nat) (hc : (UInt8.ofNat c).toNat = c) (h2 : UInt8.ofNat c ∉ Tokens.twoBytePrefixes) :
      Draws plainGlyph (List.replicate 7 (List.replicate 16 c)) (List.replicate 112 (UInt8.ofNat c)) := by
    refine ⟨rfl, fun r hr => by rw [(List.mem_replicate.1 hr).2]; rfl, fun r hr => ?_⟩
    have hr7 : r < 7 := hr
    have hsub := sub_row (s := List.replicate 112 (UInt8.ofNat c)) rfl (fun t ht => (List.mem_replicate.1 ht).2 ▸ h2)
      (R := r + 1) (by omega) (by omega)
    rw [Nat.add_sub_cancel, List.drop_replicate, List.take_replicate, show min 16 (112 - 16 * r) = 16 by omega] at hsub
    exact ⟨_, hsub, by rw [List.getElem_replicate]; simp [plainGlyph, hc]⟩
  obtain rfl | rfl : p = 1 ∨ p = 2 := by omega
  · exact ⟨_, rfl, hdraws 0x41 rfl (by decide)⟩
  · exact ⟨_, rfl, hdraws 0x42 rfl (by decide)⟩

/-- Right, nothing, right at the last page, CLEAR: page 2 stays and the key after CLEAR is not read. -/
theorem view_follows_keys_two : ∃ s', Ends (meaning plainGlyph) ([.act .clrHome] ++ view)
    ⟨view, [], twoPages [26, 0, 26, 45, 24]⟩ .returned s' ∧
    s'.screen = display (twoRows 2) 2 2 ∧ s'.keys = [24] := by
  have hfront : ∀ x ∈ ([.act .clrHome] : Program), ¬ IsLbl x := by simp [IsLbl]
  have hclear : (45 : Int) ∉ ([26, 0, 26] : List Int) := by decide
  obtain ⟨-, -, -, h⟩ := view_follows_keys plainGlyph [] (reply_twoPages [26, 0, 26, 45, 24]) hfront rfl rfl hclear
  obtain ⟨s', hends, hshow, hk⟩ := h [24] rfl
  exact ⟨s', hends, hshow.screen, hk⟩

end CalcBridge.Calc
