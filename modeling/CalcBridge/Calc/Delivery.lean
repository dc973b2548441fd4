import CalcBridge.Bridge.Pushing
import CalcBridge.Calc.View
/-!
# From the relay's pages to the calculator's screen

The bridge's pushes land in the calculator's memory and the pager reads them.
A push that did not go through may have been stored or not: `stored i` says
whether attempt `i` was.
-/
open LinkLib LinkLib.Text LinkLib.Lines LinkLib.Attempts CalcBridge.Bridge CalcBridge.Tokens CalcBridge.Vartypes

namespace CalcBridge.Calc

/-! ## Memory -/

/-- Which `StrK` a name stands for. -/
def strNumber (name8 : Bytes) : Option Nat := (List.range 10).find? fun k => (strName k).toOption == some name8

/-- The whole part of a real. The bridge pushes no other. -/
def wholeReal (data : Bytes) : Int :=
  let (sign, exp, digits) := parseRealParts data
  if 0 ≤ exp then sign * (digits * 10 ^ exp.toNat / 10 ^ 13) else 0

/-- A variable the calculator accepts: a String's size word is not part of its body. -/
def receive (s : State) (p : VarPush) : State :=
  if p.typeId = tString then
    match strNumber p.name8 with
    | some k => { s with strs := Function.update s.strs k (some (p.data.drop 2)) }
    | none => s
  else if p.typeId = tReal ∧ p.name8 = pagecountName then
    { s with nums := Function.update s.nums .N (wholeReal p.data) }
  else s

/-- The memory after the attempts of which `stored` were stored. -/
def memoryAfter (stored : Nat → Bool) (log : List VarPush) (s : State) : State :=
  (log.zipIdx.filter fun x => stored x.2).foldl (fun s x => receive s x.1) s

variable (stored : Nat → Bool)

theorem memoryAfter_snoc (log : List VarPush) (p : VarPush) (s : State) :
    memoryAfter stored (log ++ [p]) s =
      if stored log.length then receive (memoryAfter stored log s) p else memoryAfter stored log s := by
  rw [memoryAfter, List.zipIdx_append, List.filter_append, List.foldl_append]
  split <;> simp_all [memoryAfter]

theorem strNumber_slot {i : Nat} (hi : i < 8) : strNumber (pageStrNames.getD i []) = some (slot (i + 1)) := by
  have hall : ∀ i ∈ List.range 8, strNumber (pageStrNames.getD i []) = some (slot (i + 1)) := by decide
  exact hall i (List.mem_range.2 hi)

/-- The pushes of the pages. -/
def pagePushes (pages : List Str) : List VarPush := (pageStrNames.zip pages).map pagePush

theorem length_pagePushes {pages : List Str} (h8 : pages.length ≤ 8) : (pagePushes pages).length = pages.length := by
  rw [pagePushes, List.length_map, List.length_zip]
  exact Nat.min_eq_right h8

theorem take_pagePushes {pages : List Str} (h8 : pages.length ≤ 8) {i : Nat} (hi : i < pages.length) :
    (pagePushes pages).take (i + 1) = (pagePushes pages).take i ++ [pagePush (pageStrNames.getD i [], pages[i])] := by
  have hl : i < pageStrNames.length := Nat.lt_of_lt_of_le hi h8
  rw [List.take_succ_eq_append_getElem (by rw [length_pagePushes h8]; exact hi)]
  simp [pagePushes, List.getElem?_eq_getElem hl]

theorem receive_page {i : Nat} (hi : i < 8) (s : State) (page : Str) :
    receive s (pagePush (pageStrNames.getD i [], page)) =
      { s with strs := Function.update s.strs (slot (i + 1)) (some ((asciiToStrPayload page).drop 2)) } := by
  rw [receive, if_pos (show (pagePush _).typeId = tString from rfl)]
  simp only [pagePush, strNumber_slot hi]

/-- While pages are pushed the count stays, whatever is stored. -/
theorem pages_keep_count {pages : List Str} (h8 : pages.length ≤ 8) (s : State) {i : Nat} (hi : i ≤ pages.length) :
    (memoryAfter stored ((pagePushes pages).take i) s).nums .N = s.nums .N := by
  induction i with
  | zero => rfl
  | succ i ih =>
    rw [take_pagePushes h8 (by omega), memoryAfter_snoc]
    split
    · rw [receive_page (by omega)]
      exact ih (by omega)
    · exact ih (by omega)

theorem slot_ne {i j : Nat} (hi : i < 8) (hj : j < 8) (h : i ≠ j) : slot (i + 1) ≠ slot (j + 1) := by
  unfold slot
  omega

/-- Pages that were all stored are in their slots. -/
theorem pages_in_slots {pages : List Str} (h8 : pages.length ≤ 8) (s : State) {i : Nat} (hi : i ≤ pages.length)
    (hstored : ∀ j < i, stored j = true) (j : Nat) (hj : j < i) :
    (memoryAfter stored ((pagePushes pages).take i) s).strs (slot (j + 1)) =
      some ((asciiToStrPayload (pages.getD j [])).drop 2) := by
  induction i with
  | zero => omega
  | succ i ih =>
    have hlen : ((pagePushes pages).take i).length = i := by
      rw [List.length_take, length_pagePushes h8]
      omega
    rw [take_pagePushes h8 (by omega), memoryAfter_snoc, hlen, if_pos (hstored i (by omega)), receive_page (by omega)]
    dsimp only
    rcases Nat.lt_or_eq_of_le (Nat.le_of_lt_succ hj) with hlt | rfl
    · rw [Function.update_of_ne (slot_ne (by omega) (by omega) (by omega))]
      exact ih (by omega) (fun j hj => hstored j (by omega)) hlt
    · simp [Function.update_self, List.getElem?_eq_getElem (show j < pages.length by omega)]

theorem receive_count {k : Nat} (h1 : 1 ≤ k) (h8 : k ≤ 8) (s : State) :
    receive s (countPush k) = { s with nums := Function.update s.nums .N k } := by
  have hwhole : wholeReal (encodeReal (.ofNat k)) = k := by
    rw [wholeReal, pagecount_real h1 h8]
    simp
  have htype : ¬ (countPush k).typeId = tString := show ¬ tReal = tString by decide
  rw [receive, if_neg htype, if_pos ⟨rfl, rfl⟩]
  simp only [countPush, hwhole]

/-! ## What the pager then shows -/

/-- How the calculator shows a character of a page: lower case as upper case,
a character without a token as a space. -/
def shownChar (c : Nat) : Nat := if (asciiToTok.lookup (upcase c)).isSome then upcase c else 0x20

/-- The calculator draws the token of a character as that character. -/
def GlyphOk (glyph : Bytes → Str) : Prop := ∀ e ∈ asciiToTok, glyph [e.2] = [e.1]

theorem glyph_token {glyph : Bytes → Str} (hg : GlyphOk glyph) (c : Nat) : glyph [tokenOrSpace c] = [shownChar c] := by
  unfold tokenOrSpace shownChar
  cases h : asciiToTok.lookup (upcase c) with
  | none => exact hg (0x20, 0x29) (by decide)
  | some t => exact hg _ (lookup_mem h)

/-- The rows the calculator shows for a page. -/
def shownRows (rows : List Str) : List Str := rows.map (·.map shownChar)

/-- A laid out page, pushed, is drawn row by row. -/
theorem draws_page {glyph : Bytes → Str} (hg : GlyphOk glyph) {rows : List Str} (h7 : rows.length = 7)
    (h16 : ∀ r ∈ rows, r.length = 16) : Draws glyph (shownRows rows) (rows.flatten.map tokenOrSpace) where
  count := by rw [shownRows, List.length_map, h7]
  width r hr := by
    obtain ⟨q, hq, rfl⟩ := List.mem_map.1 hr
    rw [List.length_map, h16 q hq]
  row r hr := by
    have hlt : r < rows.length := by simpa [shownRows] using hr
    have hlen : (rows.flatten.map tokenOrSpace).length = 112 := by
      rw [List.length_map, Relay.length_flatten_const rows h16, h7]
    have hsingle : ∀ t ∈ rows.flatten.map tokenOrSpace, t ∉ twoBytePrefixes := by
      intro t ht
      obtain ⟨c, -, rfl⟩ := List.mem_map.1 ht
      exact tokenOrSpace_single c
    have hsub := sub_row hlen hsingle (R := r + 1) (by omega) (by omega)
    rw [Nat.add_sub_cancel, ← List.map_drop, ← List.map_take, Relay.take_drop_flatten rows h16 r hlt] at hsub
    refine ⟨_, hsub, ?_⟩
    simp only [shownRows, List.getElem_map, List.flatMap_map, glyph_token hg]
    exact List.flatMap_pure_eq_map shownChar rows[r]

/-- When all pages are stored and then the count, the reply can be shown. -/
theorem reply_stored {glyph : Bytes → Str} (hg : GlyphOk glyph) {pages : List (List Str)} (h8 : pages.length ≤ 8)
    (hgrid : ∀ p ∈ pages, p.length = 7 ∧ ∀ r ∈ p, r.length = 16) {strs : Nat → Option Bytes}
    (hslots : ∀ j < pages.length,
      strs (slot (j + 1)) = some ((asciiToStrPayload ((pages.map List.flatten).getD j [])).drop 2)) (h1 : 1 ≤ pages.length) :
    Reply glyph (fun p => shownRows (pages.getD (p - 1) [])) strs pages.length := by
  refine ⟨h8, fun p hp1 hp => ?_⟩
  have hlt : p - 1 < pages.length := by omega
  obtain ⟨h7, h16⟩ := hgrid _ (List.getElem_mem hlt)
  refine ⟨pages[p - 1].flatten.map tokenOrSpace, ?_, ?_⟩
  · have hlen : pages[p - 1].flatten.length = Relay.pageChars := by
      rw [Relay.length_flatten_const _ h16, h7]
      rfl
    have hslot := hslots _ hlt
    rw [Nat.sub_add_cancel hp1] at hslot
    rw [hslot]
    simp [List.getElem?_eq_getElem hlt, payload_page hlen]
  · simp only [List.getD_eq_getElem?_getD, List.getElem?_eq_getElem hlt, Option.getD_some]
    exact draws_page hg h7 h16

/-- At every moment of a push the count is still 0 or all the pages it counts
are in their slots. -/
theorem count_commits {pages : List Str} (h1 : 1 ≤ pages.length) (h8 : pages.length ≤ 8) {log : List VarPush}
    (hlog : log <+: pagePushes pages ++ [countPush pages.length])
    (hstored : ∀ i, i + 1 < log.length → stored i = true) {s : State} (hN : s.nums .N = 0) :
    (memoryAfter stored log s).nums .N = 0 ∨
      (memoryAfter stored log s).nums .N = pages.length ∧
        ∀ j < pages.length, (memoryAfter stored log s).strs (slot (j + 1)) =
          some ((asciiToStrPayload (pages.getD j [])).drop 2) := by
  have hlen := length_pagePushes h8
  rcases List.prefix_concat_iff.1 hlog with rfl | hpages
  · have hpre (j : Nat) (hj : j < pages.length) := pages_in_slots stored h8 s (Nat.le_refl _)
      (fun i hi => hstored i (by simp [hlen]; omega)) j hj
    have hcount := pages_keep_count stored h8 s (Nat.le_refl pages.length)
    rw [List.take_of_length_le (by omega)] at hcount
    rw [memoryAfter_snoc]
    split
    · rw [receive_count h1 h8]
      refine .inr ⟨by simp, fun j hj => ?_⟩
      have := hpre j hj
      rwa [List.take_of_length_le (by omega)] at this
    · exact .inl (hcount.trans hN)
  · left
    obtain ⟨hle, htake⟩ : log.length ≤ pages.length ∧ log = (pagePushes pages).take log.length :=
      ⟨hlen ▸ hpages.length_le, List.prefix_iff_eq_take.1 hpages⟩
    rw [htake, pages_keep_count stored h8 s hle, hN]

/-- For every sequence of keys the pager shows the page the keys lead to, row by row. -/
def ShowsPages (glyph : Bytes → Str) (pages : List (List Str)) (t : State) : Prop :=
  ∀ (keys : List Int) (front : Program), (45 : Int) ∉ keys → (∀ x ∈ front, ¬ IsLbl x) →
    let q := pageAfter pages.length keys
    ∃ page t', pages[q - 1]? = some page ∧
      Ends (meaning glyph) (front ++ view) ⟨view, [], { t with keys }⟩ (.because .waits) t' ∧
      t'.screen = display (shownRows page) q pages.length

/-- Pages that are in their slots and counted are shown. -/
theorem slots_show {glyph : Bytes → Str} (hg : GlyphOk glyph) {pages : List (List Str)} (h1 : 1 ≤ pages.length)
    (h8 : pages.length ≤ 8) (hgrid : ∀ p ∈ pages, p.length = 7 ∧ ∀ r ∈ p, r.length = 16) {t : State}
    (hcount : t.nums .N = pages.length) (hslots : ∀ j < pages.length,
      t.strs (slot (j + 1)) = some ((asciiToStrPayload ((pages.map List.flatten).getD j [])).drop 2)) :
    ShowsPages glyph pages t := by
  intro keys front hclear hfront q
  have hreply := reply_stored hg h8 hgrid hslots h1
  obtain ⟨hq1, hq⟩ := pageAfter_bounds pages.length keys
  obtain ⟨t', hends, hshow, -⟩ := waits_at_page glyph [] hreply hfront (s := { t with keys }) hcount rfl hclear
  have hlt : q - 1 < pages.length := by omega
  refine ⟨pages[q - 1], t', List.getElem?_eq_getElem hlt, hends, hshow.screen.trans ?_⟩
  dsimp only
  rw [List.getD_eq_getElem?_getD, List.getElem?_eq_getElem hlt, Option.getD_some]

theorem layoutRows_square (entries : List Relay.Entry) :
    ∀ p ∈ Relay.layoutRows entries 16 7 8, p.length = 7 ∧ ∀ r ∈ p, r.length = 16 := by
  intro p hp
  obtain ⟨h7, h16⟩ := Relay.layoutRows_grid entries 16 7 8 p hp
  exact ⟨h7, fun r hr => (h16 r hr).1⟩

/-- What is wanted of a push of these pages, at every moment of it: the pager
either has no page count or shows the pages. It has the count once the bridge
reports success. -/
def OnScreen (glyph : Bytes → Str) (pages : List (List Str)) (r : Bool × List VarPush) (stored : Nat → Bool) (s : State) :
    Prop :=
  (r.1 = true → (memoryAfter stored r.2 s).nums .N = pages.length) ∧
  ∀ i, let t := memoryAfter stored (r.2.take i) s
    t.nums .N = 0 ∨ t.nums .N = pages.length ∧ ShowsPages glyph pages t

/-- The relay's frame parses to the pages it was made of. -/
theorem parse_llmReply {outcome : Except Relay.CallError (List Relay.Entry)} {raw : List Relay.Entry} {text : Str}
    {frame : Bytes} (hraw : Relay.rawPages outcome = .ok raw) (hframe : Relay.llmReplyPages (fun _ _ => outcome) text = .ok frame) :
    parsePagesFrame frame = Relay.layoutPages raw := by
  obtain ⟨hk1, -⟩ : 0 < (Relay.layoutRows raw 16 7 8).length ∧ (Relay.layoutRows raw 16 7 8).length ≤ 8 :=
    Relay.layoutRows_count raw 16 7 (by decide)
  rw [Relay.llmReplyPages_ok hraw] at hframe
  cases hframe
  refine parse_reply (List.length_pos_iff.1 ?_) fun p hp =>
    ⟨List.length_pos_iff.1 (by rw [Relay.layoutPages_length raw p hp]; decide), Relay.layoutPages_printable raw p hp⟩
  rw [show (Relay.layoutPages raw).length = (Relay.layoutRows raw 16 7 8).length from List.length_map _]
  exact hk1

/-- The attempts of a frame that parses to laid out pages. -/
theorem push_tried {entries : List Relay.Entry} {frame : Bytes} (hparse : parsePagesFrame frame = Relay.layoutPages entries)
    (env : Nat → SendVarResult) :
    let flat := (Relay.layoutRows entries 16 7 8).map List.flatten
    Tried (Succeeds env) (pagePushes flat ++ [countPush flat.length]) 0 (pushPaginatedReply env frame).2
      (pushPaginatedReply env frame).1 := by
  intro flat
  have h8 : flat.length ≤ maxPages := by
    rw [List.length_map]
    exact (Relay.layoutRows_count entries 16 7 (by decide)).2
  have htried : Tried (Succeeds env) (pushPlan frame) 0 _ _ := tried_from_start _
  rw [← pushPaginatedReply_eq] at htried
  rwa [pushPlan, pagesToPush, show parsePagesFrame frame = flat from hparse, List.take_of_length_le h8] at htried

/-- The pushes of a frame that parses to laid out pages. -/
theorem pushed_on_screen {glyph : Bytes → Str} (hg : GlyphOk glyph) (entries : List Relay.Entry) {frame : Bytes}
    (hparse : parsePagesFrame frame = Relay.layoutPages entries) (env : Nat → SendVarResult) (stored : Nat → Bool)
    (hstored : ∀ i, env i = .returned true → stored i = true) {s : State} (hN : s.nums .N = 0) :
    OnScreen glyph (Relay.layoutRows entries 16 7 8) (pushPaginatedReply env frame) stored s := by
  set pages := Relay.layoutRows entries 16 7 8
  obtain ⟨hk1, hk8⟩ : 0 < pages.length ∧ pages.length ≤ 8 := Relay.layoutRows_count entries 16 7 (by decide)
  set flat := pages.map List.flatten
  have hflen : flat.length = pages.length := List.length_map _
  set r := pushPaginatedReply env frame
  have htried : Tried (Succeeds env) (pagePushes flat ++ [countPush flat.length]) 0 r.2 r.1 := push_tried hparse env
  have hkept : ∀ i, i + 1 < r.2.length → stored i = true := fun i hi =>
    hstored i (of_decide_eq_true (by simpa [Succeeds] using htried.before_last i hi))
  have hcommit (i : Nat) := count_commits stored (hflen ▸ hk1) (hflen ▸ hk8)
    ((List.take_prefix i r.2).trans htried.prefix_plan)
    (fun j hj => hkept j (Nat.lt_of_lt_of_le hj (List.length_take_le' ..))) hN
  constructor
  · intro hall
    obtain ⟨hdone, hok⟩ := htried.went_through hall
    have hlast : stored (pagePushes flat).length = true := by
      refine hstored _ (of_decide_eq_true ?_)
      simpa [Succeeds] using hok (pagePushes flat).length (by simp)
    rw [hdone, memoryAfter_snoc, if_pos hlast, receive_count (hflen ▸ hk1) (hflen ▸ hk8), hflen]
    simp
  · intro i t
    rcases hcommit i with h0 | ⟨hcount, hslots⟩
    · exact .inl h0
    · rw [hflen] at hcount hslots
      exact .inr ⟨hcount, slots_show hg hk1 hk8 (layoutRows_square entries) hcount hslots⟩

/-- For every list of model pages, every way the pushes end and whatever the
calculator stored of them: at every moment the pager either has no page count
or, for every sequence of keys, shows the page of the laid out reply the keys
lead to, row by row. It has the count once the bridge reports success. -/
theorem reply_on_screen (glyph : Bytes → Str) (hg : GlyphOk glyph) (entries : List Relay.Entry) (text : Str)
    (env : Nat → SendVarResult) (stored : Nat → Bool) (hstored : ∀ i, env i = .returned true → stored i = true)
    {s : State} (hN : s.nums .N = 0) :
    let pages := Relay.layoutRows entries 16 7 8
    ∃ frame, Relay.llmReplyPages (fun _ _ => .ok entries) text = .ok frame ∧
      let r := pushPaginatedReply env frame
      (r.1 = true → (memoryAfter stored r.2 s).nums .N = pages.length) ∧
      ∀ i, let t := memoryAfter stored (r.2.take i) s
        t.nums .N = 0 ∨ t.nums .N = pages.length ∧
          ∀ (keys : List Int) (front : Program), (45 : Int) ∉ keys → (∀ x ∈ front, ¬ IsLbl x) →
            let q := pageAfter pages.length keys
            ∃ page t', pages[q - 1]? = some page ∧
              Ends (meaning glyph) (front ++ view) ⟨view, [], { t with keys }⟩ (.because .waits) t' ∧
              t'.screen = display (shownRows page) q pages.length := by
  intro pages
  obtain ⟨frame, hframe⟩ : ∃ frame, Relay.llmReplyPages (fun _ _ => .ok entries) text = .ok frame :=
    ⟨_, Relay.llmReplyPages_ok rfl⟩
  exact ⟨frame, hframe, pushed_on_screen hg entries (parse_llmReply rfl hframe) env stored hstored hN⟩

/-- A token drawn as `tokens.py` renders it. -/
def renderGlyph : Bytes → Str
  | [t] => singlePiece t
  | _ => []

def fresh : State := ⟨fun _ => none, fun _ => 0, blank, []⟩

theorem reply_on_screen_one : ∃ frame, Relay.llmReplyPages (fun _ _ => .ok [.text (str "HI")]) [] = .ok frame ∧
    ∃ page t', (Relay.layoutRows [.text (str "HI")] 16 7 8)[0]? = some page ∧
      Ends (meaning renderGlyph) view
        ⟨view, [], { memoryAfter (fun _ => true) (pushPaginatedReply (fun _ => .returned true) frame).2 fresh with
          keys := [26] }⟩ (.because .waits) t' ∧
      t'.screen = display (shownRows page) 1 1 := by
  have hg : GlyphOk renderGlyph := show ∀ e ∈ asciiToTok, renderGlyph [e.2] = [e.1] by decide
  have hone : (Relay.layoutRows [.text (str "HI")] 16 7 8).length = 1 := by decide
  have hclear : (45 : Int) ∉ ([26] : List Int) := by decide
  obtain ⟨frame, hframe, hdone, hall⟩ := reply_on_screen renderGlyph hg [.text (str "HI")] [] (fun _ => .returned true)
    (fun _ => true) (fun _ _ => rfl) (s := fresh) rfl
  set r := pushPaginatedReply (fun _ => .returned true) frame with hr
  have hsent : r.1 = true := by
    rw [hr, pushPaginatedReply_eq]
    by_contra h
    obtain ⟨i, -, hfail⟩ := (tried_from_start (pushPlan frame)).failed (Bool.not_eq_true _ ▸ h)
    cases hfail
  have hcount := hdone hsent
  have hshown := hall r.2.length
  rw [List.take_length, hone] at hshown
  rw [hone] at hcount
  obtain h0 | ⟨-, hkeys⟩ := hshown
  · rw [hcount] at h0
    cases h0
  · obtain ⟨page, t', hpage, hends, hscreen⟩ := hkeys [26] [] hclear (by simp)
    exact ⟨frame, hframe, page, t', hpage, hends, hscreen⟩

end CalcBridge.Calc
