import CalcBridge.Calc.Delivery
import CalcBridge.LinkLib.Runs
/-!
# Rounds of questions and answers (`programs/basic_deck/DECK.basic`)

The deck stores 0 to N before it asks, at any moment, while the bridge pushes
answer after answer. `tries_push` ties the pushes of a run to
`_push_paginated_reply`.
-/
open LinkLib LinkLib.Text LinkLib.Lines LinkLib.Runs LinkLib.Attempts CalcBridge.Bridge CalcBridge.Calc

namespace CalcBridge.Deck

/-- The calculator's memory, the pushes of the current answer that are left, and
its pages. -/
structure Round where
  memory : Calc.State
  left : List VarPush
  pages : List (List Str)

inductive Happens where
  /-- The deck's `0->N`. -/
  | asks
  /-- `_push_paginated_reply` is called with the relay's frame of these entries. -/
  | begins (raw : List Relay.Entry)
  /-- The next `send_var`: whether it returns True, and whether the calculator
  has stored the variable when it does not. -/
  | tries (ok kept : Bool)

/-- The pushes of laid out pages. -/
def planOf (pages : List (List Str)) : List VarPush := pagePushes (pages.map List.flatten) ++ [countPush pages.length]

def Round.next (r : Round) : Happens → Round
  | .asks => { r with memory := { r.memory with nums := Function.update r.memory.nums .N 0 } }
  | .begins raw =>
    match r.left with
    | [] => ⟨r.memory, planOf (Relay.layoutRows raw 16 7 8), Relay.layoutRows raw 16 7 8⟩
    -- The bridge is still busy with the last answer.
    | _ :: _ => r
  | .tries ok kept =>
    match r.left with
    | [] => r
    | p :: left => { r with
        memory := if ok || kept then receive r.memory p else r.memory, left := if ok then left else [] }

def Round.step (r : Round) (e : Happens) : Round × Unit := (r.next e, ())

/-- A deck that has stored 0 to N, and an idle bridge. -/
def Round.start (s : Calc.State) : Round := ⟨s, [], []⟩

/-! ## One thing that happens -/

/-- The first `i` pages are in their slots. -/
def InSlots (pages : List (List Str)) (i : Nat) (s : Calc.State) : Prop :=
  ∀ j < i, s.strs (slot (j + 1)) = some ((asciiToStrPayload ((pages.map List.flatten).getD j [])).drop 2)

/-- All pages of an answer are in their slots, and N counts them. -/
def Committed (pages : List (List Str)) (s : Calc.State) : Prop := s.nums .N = pages.length ∧ InSlots pages pages.length s

/-- In the middle of an answer N is still 0; after it N is 0 or the answer is committed. -/
inductive Round.Inv (r : Round) : Prop where
  | pushing (raw : List Relay.Entry) (i : Nat) (hpages : r.pages = Relay.layoutRows raw 16 7 8) (hi : i ≤ r.pages.length)
      (hleft : r.left = (planOf r.pages).drop i) (hcount : r.memory.nums .N = 0) (hslots : InSlots r.pages i r.memory)
  | idle (hleft : r.left = [])
      (hcount : r.memory.nums .N = 0 ∨ ∃ raw, r.pages = Relay.layoutRows raw 16 7 8 ∧ Committed r.pages r.memory)

/-- An answer begins only when N is 0. -/
def Fresh (r : Round) (e : Happens) : Prop := ∀ raw, e = .begins raw → r.memory.nums .N = 0

theorem count_bounds {pages : List (List Str)} {raw : List Relay.Entry} (h : pages = Relay.layoutRows raw 16 7 8) :
    1 ≤ pages.length ∧ pages.length ≤ 8 := by
  rw [h]
  exact Relay.layoutRows_count raw 16 7 (by decide)

theorem drop_planOf {pages : List (List Str)} (h8 : pages.length ≤ 8) {i : Nat} (hi : i < pages.length) :
    (planOf pages).drop i =
      pagePush (pageStrNames.getD i [], (pages.map List.flatten).getD i []) :: (planOf pages).drop (i + 1) := by
  have hflat : (pages.map List.flatten).length ≤ 8 := by rwa [List.length_map]
  have hlt : i < (pagePushes (pages.map List.flatten)).length := by
    rw [length_pagePushes hflat, List.length_map]
    exact hi
  have hname : i < pageStrNames.length := Nat.lt_of_lt_of_le hi h8
  rw [planOf, List.drop_append_of_le_length (Nat.le_of_lt hlt), List.drop_append_of_le_length hlt,
    List.drop_eq_getElem_cons hlt, List.cons_append]
  congr 1
  simp [pagePushes, List.getElem?_eq_getElem hname, List.getElem?_eq_getElem hi]

theorem drop_planOf_end {pages : List (List Str)} (h8 : pages.length ≤ 8) :
    (planOf pages).drop pages.length = [countPush pages.length] := by
  have hlen : (pagePushes (pages.map List.flatten)).length = pages.length := by
    rw [length_pagePushes (by rwa [List.length_map]), List.length_map]
  rw [planOf, List.drop_append_of_le_length (Nat.le_of_eq hlen.symm), List.drop_of_length_le (Nat.le_of_eq hlen),
    List.nil_append]

/-- A page that is stored joins those in their slots. -/
theorem InSlots.receive {pages : List (List Str)} {i : Nat} {s : Calc.State} (h : InSlots pages i s) (hi : i < 8) :
    InSlots pages (i + 1) (receive s (pagePush (pageStrNames.getD i [], (pages.map List.flatten).getD i []))) := by
  intro j hj
  rw [receive_page hi]
  dsimp only
  rcases Nat.lt_or_eq_of_le (Nat.le_of_lt_succ hj) with hlt | rfl
  · rw [Function.update_of_ne (slot_ne (by omega) hi (by omega))]
    exact h j hlt
  · rw [Function.update_self]

theorem Round.Inv.tries {r : Round} (h : r.Inv) (ok kept : Bool) : (r.next (.tries ok kept)).Inv := by
  cases h with
  | idle hleft hcount =>
    rw [Round.next]
    split
    · exact .idle hleft hcount
    · rename_i hcons
      rw [hleft] at hcons
      cases hcons
  | pushing raw i hpages hi hleft hcount hslots =>
    obtain ⟨h1, h8⟩ := count_bounds hpages
    rcases Nat.lt_or_eq_of_le hi with hlt | rfl
    · -- A page: the count stays 0.
      rw [drop_planOf h8 hlt] at hleft
      have hkept : (receive r.memory (pagePush (pageStrNames.getD i [], (r.pages.map List.flatten).getD i []))).nums .N = 0 := by
        rw [receive_page (by omega)]
        exact hcount
      rw [Round.next, hleft]
      cases ok with
      | true => exact .pushing raw (i + 1) hpages hlt rfl hkept (hslots.receive (by omega))
      | false => cases kept with
        | true => exact .idle rfl (.inl hkept)
        | false => exact .idle rfl (.inl hcount)
    · -- The count.
      rw [drop_planOf_end h8] at hleft
      have hdone : Committed r.pages (receive r.memory (countPush r.pages.length)) := by
        rw [receive_count h1 h8]
        exact ⟨by simp, hslots⟩
      rw [Round.next, hleft]
      cases ok with
      | true => exact .idle rfl (.inr ⟨raw, hpages, hdone⟩)
      | false => cases kept with
        | true => exact .idle rfl (.inr ⟨raw, hpages, hdone⟩)
        | false => exact .idle rfl (.inl hcount)

theorem Round.Inv.next {r : Round} (h : r.Inv) {e : Happens} (hf : Fresh r e) : (r.next e).Inv := by
  cases e with
  | asks =>
    cases h with
    | pushing raw i hpages hi hleft hcount hslots => exact .pushing raw i hpages hi hleft (by simp [Round.next]) hslots
    | idle hleft hcount => exact .idle hleft (.inl (by simp [Round.next]))
  | begins raw =>
    rw [Round.next]
    split
    · exact .pushing raw 0 rfl (Nat.zero_le _) rfl (hf raw rfl) (fun j hj => absurd hj (Nat.not_lt_zero j))
    · exact h
  | tries ok kept => exact h.tries ok kept

/-! ## Whole runs -/

theorem Round.inv_run {s : Calc.State} (hN : s.nums .N = 0) {hs : List Happens} (hf : Holds Round.step Fresh (.start s) hs) :
    (run Round.step (.start s) hs).1.Inv :=
  run_inv (fun _ r => Round.Inv r) (.idle rfl (.inl hN)) (fun _ _ _ hf h => h.next hf) hs hf

/-- The count says whether the pages are there. -/
theorem Round.Inv.shown {glyph : Bytes → Str} (hg : GlyphOk glyph) {r : Round} (h : r.Inv) :
    r.memory.nums .N = 0 ∨
      (∃ raw, r.pages = Relay.layoutRows raw 16 7 8) ∧ r.memory.nums .N = r.pages.length ∧ ShowsPages glyph r.pages r.memory := by
  cases h with
  | pushing raw i hpages hi hleft hcount hslots => exact .inl hcount
  | idle hleft hcount =>
    rcases hcount with h0 | ⟨raw, hpages, hcount, hslots⟩
    · exact .inl h0
    · refine .inr ⟨⟨raw, hpages⟩, hcount, ?_⟩
      obtain ⟨h1, h8⟩ := count_bounds hpages
      refine slots_show hg h1 h8 ?_ hcount hslots
      rw [show r.pages = _ from hpages]
      exact layoutRows_square raw

/-- In every run in which each answer begins at N = 0, with questions asked and
pushes failing anywhere: at every moment N is 0, or the pager shows all of the
latest answer and nothing else. -/
theorem rounds_on_screen {glyph : Bytes → Str} (hg : GlyphOk glyph) {s : Calc.State} (hN : s.nums .N = 0)
    {hs : List Happens} (hf : Holds Round.step Fresh (.start s) hs) :
    let r := (run Round.step (.start s) hs).1
    r.memory.nums .N = 0 ∨
      (∃ raw, r.pages = Relay.layoutRows raw 16 7 8) ∧ r.memory.nums .N = r.pages.length ∧ ShowsPages glyph r.pages r.memory :=
  (Round.inv_run hN hf).shown hg

/-- Two answers, the second asked for while the first is still pushed. -/
theorem rounds_on_screen_two :
    let page : List Relay.Entry := [.text (str "HI")]
    let r := (run Round.step (.start fresh) [.begins page, .tries true true, .asks, .tries true true, .asks,
      .begins page, .tries true true, .tries false true]).1
    r.memory.nums .N = 1 ∧ ShowsPages renderGlyph r.pages r.memory := by
  intro page r
  have hone : r.memory.nums .N = 1 := by decide +kernel
  have hf : Holds Round.step Fresh (.start fresh) [.begins page, .tries true true, .asks, .tries true true, .asks,
      .begins page, .tries true true, .tries false true] := by
    refine ⟨fun _ _ => rfl, nofun, nofun, nofun, nofun, fun _ _ => rfl, nofun, nofun, trivial⟩
  have hg : GlyphOk renderGlyph := show ∀ e ∈ Tokens.asciiToTok, renderGlyph [e.2] = [e.1] by decide
  rcases rounds_on_screen hg (s := fresh) rfl hf with h0 | ⟨-, -, hshows⟩
  · rw [show (run Round.step (.start fresh) _).1.memory.nums .N = 1 from hone] at h0
    cases h0
  · exact ⟨hone, hshows⟩

/-! ## The pushes of an answer -/

theorem run_snoc (r : Round) (hs : List Happens) (e : Happens) :
    (run Round.step r (hs ++ [e])).1 = ((run Round.step r hs).1).next e := by
  rw [run_append]
  rfl

theorem next_begins {r : Round} (hleft : r.left = []) (raw : List Relay.Entry) :
    r.next (.begins raw) = ⟨r.memory, planOf (Relay.layoutRows raw 16 7 8), Relay.layoutRows raw 16 7 8⟩ := by
  rw [Round.next, hleft]

/-- A run of tries does to memory what `_push_paginated_reply` does. -/
theorem tries_push (env : Nat → SendVarResult) (stored : Nat → Bool) (hstored : ∀ i, env i = .returned true → stored i = true)
    {r : Round} (hleft : r.left = []) {raw : List Relay.Entry} {frame : Bytes}
    (hparse : parsePagesFrame frame = Relay.layoutPages raw) (k : Nat) :
    let log := (pushPaginatedReply env frame).2
    let t := (run Round.step r (.begins raw :: (List.range k).map fun i => .tries (Succeeds env i) (stored i))).1
    t.pages = Relay.layoutRows raw 16 7 8 ∧ t.memory = memoryAfter stored (log.take k) r.memory ∧
      t.left = if k < log.length then (planOf t.pages).drop k else [] := by
  intro log
  set pages := Relay.layoutRows raw 16 7 8 with hpages
  have htried : Tried (Succeeds env) (planOf pages) 0 log (pushPaginatedReply env frame).1 := by
    have := push_tried hparse env
    simpa only [planOf, List.length_map] using this
  have hpos : 0 < log.length := htried.pos (by simp [planOf])
  induction k with
  | zero =>
    intro t
    have ht : t = r.next (.begins raw) := rfl
    rw [ht, next_begins hleft, if_pos hpos]
    exact ⟨rfl, rfl, rfl⟩
  | succ k ih =>
    obtain ⟨hupages, hmemory, hplan⟩ := ih
    set u := (run Round.step r (.begins raw :: (List.range k).map fun i => .tries (Succeeds env i) (stored i))).1
    intro t
    have ht : t = u.next (.tries (Succeeds env k) (stored k)) := by
      have := run_snoc r (.begins raw :: (List.range k).map fun i => .tries (Succeeds env i) (stored i))
        (.tries (Succeeds env k) (stored k))
      simpa only [t, List.range_succ, List.map_append, List.map_singleton, List.cons_append] using this
    by_cases hlt : k < log.length
    · obtain ⟨hnth, hnext⟩ := htried.next hlt
      rw [Nat.zero_add] at hnext
      rw [if_pos hlt, hupages, hnth] at hplan
      have hor : (Succeeds env k || stored k) = stored k := by
        cases hs : Succeeds env k with
        | true => rw [hstored k (of_decide_eq_true hs)]; rfl
        | false => rfl
      have hstep : t = ⟨if stored k then receive u.memory log[k] else u.memory,
          if Succeeds env k then (planOf pages).drop (k + 1) else [], u.pages⟩ := by
        rw [ht, Round.next, hplan]
        dsimp only
        rw [hor]
      rw [hstep, List.take_succ_eq_append_getElem hlt, memoryAfter_snoc, List.length_take, Nat.min_eq_left (Nat.le_of_lt hlt),
        hmemory, hupages]
      exact ⟨rfl, rfl, hnext⟩
    · rw [if_neg hlt] at hplan
      have hstep : t = u := by rw [ht, Round.next, hplan]
      rw [hstep, if_neg (by omega), hplan, hmemory, List.take_of_length_le (by omega), List.take_of_length_le (by omega)]
      exact ⟨hupages, rfl, rfl⟩

/-- Pages that go through, over whatever was in their slots. -/
theorem tries_through {r : Round} (hleft : r.left = []) (raw : List Relay.Entry) {i : Nat}
    (hi : i ≤ (Relay.layoutRows raw 16 7 8).length) :
    let t := (run Round.step r (.begins raw :: List.replicate i (.tries true true))).1
    t.pages = Relay.layoutRows raw 16 7 8 ∧ t.left = (planOf t.pages).drop i ∧ t.memory.nums = r.memory.nums ∧
      InSlots t.pages i t.memory ∧ ∀ j, i ≤ j → j < 8 → t.memory.strs (slot (j + 1)) = r.memory.strs (slot (j + 1)) := by
  have h8 := (Relay.layoutRows_count raw 16 7 (by decide : 0 < 8)).2
  induction i with
  | zero =>
    intro t
    have ht : t = r.next (.begins raw) := rfl
    rw [ht, next_begins hleft]
    exact ⟨rfl, rfl, rfl, fun j hj => absurd hj (Nat.not_lt_zero j), fun _ _ _ => rfl⟩
  | succ i ih =>
    obtain ⟨hpages, hplan, hnums, hslots, hrest⟩ := ih (Nat.le_of_succ_le hi)
    set u := (run Round.step r (.begins raw :: List.replicate i (.tries true true))).1
    intro t
    have ht : t = u.next (.tries true true) := by
      have := run_snoc r (.begins raw :: List.replicate i (.tries true true)) (.tries true true)
      rwa [List.cons_append, ← List.replicate_succ'] at this
    have hlt : i < u.pages.length := hpages ▸ hi
    rw [drop_planOf (hpages ▸ h8) hlt] at hplan
    have hstep : t = ⟨receive u.memory (pagePush (pageStrNames.getD i [], (u.pages.map List.flatten).getD i [])),
        (planOf u.pages).drop (i + 1), u.pages⟩ := by
      rw [ht, Round.next, hplan]
      rfl
    have hmem := receive_page (i := i) (by omega) u.memory ((u.pages.map List.flatten).getD i [])
    rw [hstep]
    refine ⟨hpages, rfl, ?_, hslots.receive (by omega), fun j hij hj => ?_⟩
    · rw [hmem]
      exact hnums
    · rw [hmem]
      dsimp only
      rw [Function.update_of_ne (slot_ne hj (by omega) (by omega))]
      exact hrest j (by omega) hj

/-- An answer that begins while another is on the screen is seen in part: after
`i` of its pages the pager shows them and behind them what is left of the old
answer, under the old answer's count. -/
theorem late_answer_mixes {glyph : Bytes → Str} (hg : GlyphOk glyph) {r : Round} (hleft : r.left = [])
    {old : List Relay.Entry} (hpages : r.pages = Relay.layoutRows old 16 7 8) (hcommitted : Committed r.pages r.memory)
    (raw : List Relay.Entry) {i : Nat} (hi : i ≤ (Relay.layoutRows raw 16 7 8).length) :
    let t := (run Round.step r (.begins raw :: List.replicate i (.tries true true))).1
    let mixed := (t.pages.take i ++ r.pages.drop i).take r.pages.length
    t.pages = Relay.layoutRows raw 16 7 8 ∧ t.memory.nums .N = r.pages.length ∧ mixed.length = r.pages.length ∧
      ShowsPages glyph mixed t.memory := by
  intro t mixed
  obtain ⟨hnew, -, hnums, hslots, hrest⟩ := tries_through hleft raw hi
  obtain ⟨h1, h8⟩ := count_bounds hpages
  have hcount : t.memory.nums .N = r.pages.length := by
    rw [show t.memory.nums = _ from hnums]
    exact hcommitted.1
  have htake : (t.pages.take i).length = i := by
    rw [List.length_take, show t.pages = _ from hnew, Nat.min_eq_left hi]
  have hlen : mixed.length = r.pages.length := by
    simp only [mixed, List.length_take, List.length_append, List.length_drop, show t.pages = _ from hnew]
    omega
  have hpage (j : Nat) (hj : j < r.pages.length) : mixed[j]? = if j < i then t.pages[j]? else r.pages[j]? := by
    rw [List.getElem?_take, if_pos hj]
    split
    · rw [List.getElem?_append_left (by omega), List.getElem?_take, if_pos ‹_›]
    · rw [List.getElem?_append_right (by omega), htake, List.getElem?_drop, Nat.add_sub_cancel' (by omega)]
  refine ⟨hnew, hcount, hlen, slots_show hg (hlen ▸ h1) (hlen ▸ h8) ?_ (hlen ▸ hcount) ?_⟩
  · intro p hp
    rcases List.mem_append.1 (List.mem_of_mem_take hp) with hp | hp
    · exact layoutRows_square raw p (hnew ▸ List.mem_of_mem_take hp)
    · exact layoutRows_square old p (hpages ▸ List.mem_of_mem_drop hp)
  · intro j hj
    rw [hlen] at hj
    rw [List.getD_eq_getElem?_getD, List.getElem?_map, hpage j hj]
    split
    · have := hslots j ‹_›
      rwa [List.getD_eq_getElem?_getD, List.getElem?_map] at this
    · rw [hrest j (by omega) (by omega)]
      have := hcommitted.2 j hj
      rwa [List.getD_eq_getElem?_getD, List.getElem?_map] at this

/-- `A` and `B` on the screen when `C` begins: the pager has `C` and `B`. -/
theorem late_answer_mixes_two :
    let old : List Relay.Entry := [.text (str "A"), .text (str "B")]
    let r := (run Round.step (.start fresh) (.begins old :: List.replicate 3 (.tries true true))).1
    let t := (run Round.step r [.begins [.text (str "C")], .tries true true]).1
    ∃ first second, (Relay.layoutRows [.text (str "C")] 16 7 8)[0]? = some first ∧
      (Relay.layoutRows old 16 7 8)[1]? = some second ∧ ShowsPages renderGlyph [first, second] t.memory := by
  intro old r t
  have hg : GlyphOk renderGlyph := show ∀ e ∈ Tokens.asciiToTok, renderGlyph [e.2] = [e.1] by decide
  have hcommitted : Committed r.pages r.memory := ⟨by decide +kernel, by unfold InSlots; decide +kernel⟩
  obtain ⟨-, -, -, hshows⟩ := late_answer_mixes hg (r := r) rfl rfl hcommitted [.text (str "C")]
    (show 1 ≤ (Relay.layoutRows [.text (str "C")] 16 7 8).length by decide)
  exact ⟨_, _, rfl, rfl, hshows⟩

end CalcBridge.Deck
