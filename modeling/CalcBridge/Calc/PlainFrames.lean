import CalcBridge.Calc.Delivery
/-!
# Frames that are no page reply

The relay's echo and what is typed at its console are plain text. The bridge
pushes such a frame as one page, cut at 128 characters and padded nowhere, and
the pager draws seven rows of it with `sub(`.
-/
open LinkLib LinkLib.Text LinkLib.Lines LinkLib.Attempts CalcBridge.Bridge CalcBridge.Tokens

namespace CalcBridge.Calc

/-- The frame of an echo, with what the relay decoded behind `echo: `. -/
def echoReply (text : Str) : Bytes := encodeAsciiReplace (str "echo: " ++ text)

/-- A frame without the header of a page reply. -/
def Plain (frame : Bytes) : Prop := ((str "pages:").map UInt8.ofNat).isPrefixOf frame = false

/-- The first `k` rows of a text. -/
def textRows (text : Str) (k : Nat) : List Str := (List.range k).map fun r => (text.drop (16 * r)).take 16

/-! ## `sub(` of a text -/

section Text
variable {text : Str}

@[simp] theorem length_textRows (text : Str) (k : Nat) : (textRows text k).length = k := by simp [textRows]

theorem width_textRows {k : Nat} (h : 16 * k ≤ text.length) : ∀ r ∈ textRows text k, r.length = 16 := by
  intro r hr
  obtain ⟨i, hi, rfl⟩ := List.mem_map.1 hr
  have := List.mem_range.1 hi
  rw [List.length_take, List.length_drop]
  omega

theorem calcTokens_text (text : Str) : calcTokens (text.map tokenOrSpace) = (text.map tokenOrSpace).map ([·]) := by
  refine calcTokens_single fun t ht => ?_
  obtain ⟨c, -, rfl⟩ := List.mem_map.1 ht
  exact tokenOrSpace_single c

/-- A row that the text has room for. -/
theorem sub_text {r : Nat} (h : 16 * r + 16 ≤ text.length) :
    Bridge.sub (text.map tokenOrSpace) (1 + 16 * r) 16 = some ((((text.drop (16 * r)).take 16).map tokenOrSpace).map ([·])) := by
  rw [Bridge.sub, calcTokens_text, if_pos (by simp; omega), Nat.add_sub_cancel_left]
  simp only [List.map_take, List.map_drop]

/-- A row beyond the end of the text. -/
theorem sub_short {r : Nat} (h : text.length < 16 * r + 16) : Bridge.sub (text.map tokenOrSpace) (1 + 16 * r) 16 = none := by
  rw [Bridge.sub, calcTokens_text, if_neg (by simp; omega)]

theorem glyphs_text {glyph : Bytes → Str} (hg : GlyphOk glyph) (s : Str) :
    ((s.map tokenOrSpace).map ([·])).flatMap glyph = s.map shownChar := by
  simp only [List.map_map, List.flatMap_map, Function.comp_def, glyph_token hg]
  exact List.flatMap_pure_eq_map shownChar s

/-- The rows of a text that is long enough for them. -/
theorem rows_text {glyph : Bytes → Str} (hg : GlyphOk glyph) {k : Nat} (hk : 16 * k ≤ text.length) (r : Nat)
    (h : r < (shownRows (textRows text k)).length) :
    ∃ toks, Bridge.sub (text.map tokenOrSpace) (1 + 16 * r) 16 = some toks ∧ toks.flatMap glyph = (shownRows (textRows text k))[r] := by
  have hr : r < k := by simpa [shownRows] using h
  refine ⟨_, sub_text (by omega), ?_⟩
  rw [glyphs_text hg]
  simp [shownRows, textRows]

theorem width_shown {k : Nat} (h : 16 * k ≤ text.length) : ∀ r ∈ shownRows (textRows text k), r.length = 16 := by
  intro r hr
  obtain ⟨q, hq, rfl⟩ := List.mem_map.1 hr
  rw [List.length_map, width_textRows h q hq]

/-! ## The pager on a text -/

/-- 112 characters are a page. -/
theorem text_shows {glyph : Bytes → Str} (hg : GlyphOk glyph) (hlen : 112 ≤ text.length) {t : State} (hcount : t.nums .N = 1)
    (hbody : t.strs 3 = some (text.map tokenOrSpace)) : ShowsPages glyph [textRows text 7] t := by
  have hreply : Reply glyph (fun _ => shownRows (textRows text 7)) t.strs 1 := by
    refine ⟨by decide, fun p hp1 hp => ⟨_, ?_, by simp [shownRows], width_shown (by omega), rows_text hg (by omega)⟩⟩
    obtain rfl : p = 1 := Nat.le_antisymm hp hp1
    exact hbody
  intro keys front hclear hfront q
  obtain ⟨hq1, hq⟩ := pageAfter_bounds 1 keys
  obtain ⟨t', hends, hshow, -⟩ := waits_at_page glyph [] hreply hfront (s := { t with keys }) hcount rfl hclear
  obtain hone : q = 1 := Nat.le_antisymm hq hq1
  exact ⟨textRows text 7, t', by rw [hone]; rfl, hends, hshow.screen⟩

/-- A shorter text stops the pager at the first row that it does not fill. -/
theorem text_stops {glyph : Bytes → Str} (hg : GlyphOk glyph) (hlen : text.length < 112) {t : State}
    (hbody : t.strs 3 = some (text.map tokenOrSpace)) {front : Program} (hfront : ∀ x ∈ front, ¬ IsLbl x) :
    ∃ t', Ends (meaning glyph) (front ++ view) ⟨view, [], t⟩ (.because .errInvalidDim) t' ∧
      t'.screen = rowsScreen (shownRows (textRows text (text.length / 16))) (text.length / 16) := by
  set k := text.length / 16 with hk
  set s : State := { t with nums := Function.update t.nums .P 1 }
  obtain ⟨rest, hpage, -⟩ := page_run glyph [] (p := 1) (Nat.le_refl 1) (by decide) (s := s) rfl
  set s1 : State := { s with screen := blank }
  set s2 : State := { s1 with screen := rowsScreen (shownRows (textRows text k)) k }
  have hfull : 16 * k ≤ text.length := by omega
  have hrows := drawn_exec glyph (width_shown hfull) (rows_text hg hfull) (s := s1) hbody rfl (k := k) (by simp [shownRows])
    (by omega)
  -- The rows before row `k`, row `k`, and the others.
  have hsplit : outputRows (slot 1) ++ rest = ((List.range k).map (outputRow 3)).map .act ++
      .act (outputRow 3 k) :: (((List.range' (k + 1) (6 - k)).map (outputRow 3)).map .act ++ rest) := by
    have hrange : List.range 7 = List.range k ++ k :: List.range' (k + 1) (6 - k) := by
      rw [List.range_eq_range', List.range_eq_range', show 7 = k + (6 - k + 1) by omega, ← List.range'_append_1,
        Nat.zero_add, List.range'_succ]
    rw [outputRows, show slot 1 = 3 from rfl, hrange]
    simp
  have herr : (meaning glyph).exec (outputRow 3 k) s2 = .error .errInvalidDim := by
    have hstr : s2.strs 3 = some (text.map tokenOrSpace) := hbody
    have htext : (Shown.sub 3 (1 + 16 * k) 16).text glyph s2 = .error .errInvalidDim := by
      simp only [Shown.text, hstr, sub_short (show text.length < 16 * k + 16 by omega)]
    simp only [meaning, outputRow, Act.exec, htext]
  refine ⟨s2, (ends_behind hfront).2 ?_, rfl⟩
  have hstart : Reaches (meaning glyph) view ⟨view, [], t⟩ ⟨drawing, [], s⟩ := (act_run rfl).trans (lbl_run _)
  rw [hsplit] at hpage
  exact (hstart.trans (hpage.trans (acts_run hrows))).ends (act_stops herr)

end Text

/-! ## A plain frame -/

theorem parse_plain {frame : Bytes} (h : Plain frame) : parsePagesFrame frame = [bytesToAscii frame] := by
  rw [parsePagesFrame, if_neg (by rw [h]; decide)]

theorem payload_text (text : Str) : (asciiToStrPayload text).drop 2 = (text.take inmaxChars).map tokenOrSpace := by
  rw [asciiToStrPayload, lossy_false_eq_map]
  rfl

theorem length_bytesToAscii (frame : Bytes) : (bytesToAscii frame).length = frame.length := List.length_map _

/-- What the calculator holds when a plain frame was pushed. -/
theorem plain_stored {frame : Bytes} (h : Plain frame) (env : Nat → SendVarResult) (stored : Nat → Bool)
    (hstored : ∀ i, env i = .returned true → stored i = true) (s : State) (hall : (pushPaginatedReply env frame).1 = true) :
    let t := memoryAfter stored (pushPaginatedReply env frame).2 s
    t.nums .N = 1 ∧ t.strs 3 = some (((bytesToAscii frame).take inmaxChars).map tokenOrSpace) := by
  have hplan : pushPlan frame = [pagePush (pageStrNames.getD 0 [], bytesToAscii frame), countPush 1] := by
    rw [pushPlan, pagesToPush, parse_plain h]
    rfl
  rw [pushPaginatedReply_eq] at hall ⊢
  have htried : Tried (Succeeds env) (pushPlan frame) 0 _ _ := tried_from_start _
  obtain ⟨hdone, hok⟩ := htried.went_through hall
  rw [hplan] at hdone hok
  have h0 : stored 0 = true := hstored 0 (of_decide_eq_true (by simpa [Succeeds] using hok 0 (by simp)))
  have h1 : stored 1 = true := hstored 1 (of_decide_eq_true (by simpa [Succeeds] using hok 1 (by simp)))
  rw [hplan, hdone]
  intro t
  have ht : t = receive (receive s (pagePush (pageStrNames.getD 0 [], bytesToAscii frame))) (countPush 1) := by
    simp [t, memoryAfter, h0, h1]
  rw [ht, receive_count (by decide) (by decide), receive_page (by decide), payload_text]
  exact ⟨by simp, by simp [slot]⟩

/-- A plain frame that was pushed: from 112 characters on the pager shows the
first 112, for every sequence of keys; a shorter one stops it with ERR:INVALID
DIM, whatever the keys, at the first row the text does not fill. An echo is
plain, and six characters longer than what it answers. -/
theorem plain_frame_on_screen {glyph : Bytes → Str} (hg : GlyphOk glyph) {frame : Bytes} (h : Plain frame)
    (env : Nat → SendVarResult) (stored : Nat → Bool) (hstored : ∀ i, env i = .returned true → stored i = true) (s : State)
    (hall : (pushPaginatedReply env frame).1 = true) :
    let text := bytesToAscii frame
    let t := memoryAfter stored (pushPaginatedReply env frame).2 s
    t.nums .N = 1 ∧ (112 ≤ frame.length → ShowsPages glyph [textRows text 7] t) ∧
    (frame.length < 112 → ∀ (keys : List Int) (front : Program), (∀ x ∈ front, ¬ IsLbl x) →
      ∃ t', Ends (meaning glyph) (front ++ view) ⟨view, [], { t with keys }⟩ (.because .errInvalidDim) t' ∧
        t'.screen = rowsScreen (shownRows (textRows text (frame.length / 16))) (frame.length / 16)) ∧
    ∀ echoed : Str, Plain (echoReply echoed) ∧ (echoReply echoed).length = 6 + echoed.length := by
  intro text t
  obtain ⟨hcount, hbody⟩ := plain_stored h env stored hstored s hall
  have hlen : text.length = frame.length := length_bytesToAscii frame
  refine ⟨hcount, fun hlong => ?_, fun hshort keys front hfront => ?_, fun echoed => ⟨rfl, ?_⟩⟩
  · have htake : ((text.take inmaxChars).length) = min 128 frame.length := by rw [List.length_take, hlen]; rfl
    have hrows : textRows (text.take inmaxChars) 7 = textRows text 7 := by
      refine List.map_congr_left fun r hr => ?_
      have hr7 := List.mem_range.1 hr
      rw [List.drop_take, List.take_take, Nat.min_eq_left]
      unfold inmaxChars
      omega
    rw [← hrows]
    exact text_shows hg (by omega) hcount hbody
  · have htake : text.take inmaxChars = text := List.take_of_length_le (by rw [hlen, inmaxChars]; omega)
    rw [show (bytesToAscii frame).take inmaxChars = text from htake] at hbody
    rw [← hlen]
    exact text_stops hg (t := { t with keys }) (by omega) hbody hfront
  · rw [echoReply, encodeAsciiReplace, List.length_map, List.length_append]
    rfl

/-- The echo of a short prompt stops the pager on its second row. -/
theorem plain_frame_on_screen_echo :
    let frame := echoReply (str "prompt:HI\nmath:\n")
    let t := memoryAfter (fun _ => true) (pushPaginatedReply (fun _ => .returned true) frame).2 fresh
    ∃ t', Ends (meaning renderGlyph) view ⟨view, [], { t with keys := [] }⟩ (.because .errInvalidDim) t' ∧
      t'.screen.take 32 = str "ECHO: PROMPT:HI                 " := by
  intro frame t
  have hg : GlyphOk renderGlyph := show ∀ e ∈ asciiToTok, renderGlyph [e.2] = [e.1] by decide
  have hall : (pushPaginatedReply (fun _ => .returned true) frame).1 = true := by
    rw [push_reply_ok (parse_plain (show Plain frame from rfl)) (List.cons_ne_nil _ _) (by decide)]
  obtain ⟨-, -, hstops, -⟩ := plain_frame_on_screen hg (show Plain frame from rfl) (fun _ => .returned true) (fun _ => true)
    (fun _ _ => rfl) fresh hall
  obtain ⟨t', hends, hscreen⟩ := hstops (by decide) [] [] (by simp)
  refine ⟨t', hends, ?_⟩
  rw [hscreen]
  decide +kernel

end CalcBridge.Calc
