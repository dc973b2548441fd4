import Mathlib.Data.List.Forall2
import CalcBridge.Relay.Reply
import CalcBridge.Tokens
import CalcBridge.Vartypes
/-!
# Pushing a paginated reply (`src/bridge.py`)

`parsePagesFrame` reads the desktop's frame, `pushPaginatedReply` pushes its
pages as Str3..Str9, Str0 and then the page count as N. How each
`transfer.send_var` ends is a parameter, indexed by the attempt.
-/
open LinkLib LinkLib.Text CalcBridge.Tokens CalcBridge.Vartypes

namespace CalcBridge.Bridge

/-- `PAGE_STR_NAMES`: page 1 goes to Str3, ..., page 8 to Str0. -/
def pageStrNames : List Bytes := [3, 4, 5, 6, 7, 8, 9, 0].filterMap fun n => (strName n).toOption

def maxPages : Nat := pageStrNames.length

/-- `PAGECOUNT_NAME`. -/
def pagecountName : Bytes := [0x4E] ++ List.replicate 7 0

example : realName (str "N") = .ok pagecountName := rfl

def inmaxChars : Nat := 128

/-- `_ascii_to_str_payload`: size word, then one token a character. -/
def asciiToStrPayload (text : Str) : Bytes :=
  let text := text.take inmaxChars
  let body := asciiToTokensLossy text false
  [UInt8.ofNat (body.length &&& 0xFF), UInt8.ofNat ((body.length >>> 8) &&& 0xFF)] ++ body

/-- `_bytes_to_ascii`. -/
def bytesToAscii (data : Bytes) : Str := data.map fun b => if 0x20 ≤ b ∧ b < 0x7F then b.toNat else 0x3F

/-- `_parse_pages_frame`. The header's count only feeds a log line. -/
def parsePagesFrame (frame : Bytes) : List Str :=
  if ((str "pages:").map UInt8.ofNat).isPrefixOf frame then
    match frame.findIdx? (· == 0x0A) with
    | none => [bytesToAscii frame]
    | some nl =>
      let body := frame.drop (nl + 1)
      let chunks := if body = [] then [] else body.splitOn 0x00
      let pages := chunks.map bytesToAscii
      if pages = [] then [[]] else pages
  else [bytesToAscii frame]

/-! ## Pushes -/

/-- The arguments of one `transfer.send_var` call. -/
structure VarPush where
  typeId : UInt8
  name8 : Bytes
  data : Bytes
  calcMachine : UInt8
  deriving DecidableEq, Repr

inductive SendVarResult where
  | returned (ok : Bool)
  | raised
  deriving DecidableEq, Repr

section Push
variable (env : Nat → SendVarResult)

/-- `transfer.send_var` inside `try: ... except Exception: return False`. The
log holds the attempts so far. -/
def trySendVar (p : VarPush) (log : List VarPush) : Bool × List VarPush :=
  match env log.length with
  | .returned ok => (ok, log ++ [p])
  | .raised => (false, log ++ [p])

/-- `_push_one_str`. -/
def pushOneStr (name8 : Bytes) (text : Str) (log : List VarPush) : Bool × List VarPush :=
  trySendVar env ⟨tString, name8, asciiToStrPayload text, 0x73⟩ log

/-- `_push_pagecount`. -/
def pushPagecount (n : Nat) (log : List VarPush) : Bool × List VarPush :=
  trySendVar env ⟨tReal, pagecountName, encodeReal (.ofNat n), 0x73⟩ log

/-- The page loop of `_push_paginated_reply`: it stops at the first failure. -/
def pushPages : List (Bytes × Str) → List VarPush → Bool × List VarPush
  | [], log => (true, log)
  | (name8, page) :: rest, log =>
    let (ok, log) := pushOneStr env name8 page log
    if ok then pushPages rest log else (false, log)

/-- `_push_paginated_reply`: its result and the attempts it made. -/
def pushPaginatedReply (frame : Bytes) : Bool × List VarPush :=
  let pages := parsePagesFrame frame
  if pages = [] then (false, [])
  else
    let pages := pages.take maxPages
    let (ok, log) := pushPages env (pageStrNames.zip pages) []
    if ok then pushPagecount env pages.length log else (false, log)

end Push

/-! ## What the frame parses to -/

theorem bytesToAscii_encode {s : Str} (h : ∀ c ∈ s, Printable c) : bytesToAscii (s.map UInt8.ofNat) = s := by
  rw [bytesToAscii, List.map_map]
  conv_rhs => rw [← List.map_id s]
  apply List.map_congr_left
  intro c hc
  have hp := h c hc
  have hn := toNat_ofNat (printable_lt hp)
  simp only [Function.comp, UInt8.le_iff_toNat_le, UInt8.lt_iff_toNat_lt, hn, UInt8.reduceToNat, id]
  exact if_pos hp

theorem zero_notMem_encode {s : Str} (h : ∀ c ∈ s, Printable c) : (0x00 : UInt8) ∉ s.map UInt8.ofNat := by
  intro h0
  obtain ⟨c, hc, he⟩ := List.mem_map.1 h0
  have hn := toNat_ofNat (printable_lt (h c hc))
  rw [he] at hn
  have := h c hc
  simp [Printable, ← hn] at this

/-- The header line ends at its newline, whatever follows. -/
theorem findIdx_header (n : Nat) (body : Bytes) :
    ((str "pages:" ++ decimal n ++ str "\n").map UInt8.ofNat ++ body).findIdx? (· == 0x0A) =
      some (str "pages:" ++ decimal n).length := by
  have hlit : ∀ c ∈ str "pages:", UInt8.ofNat c ≠ 0x0A := by decide
  have hne : ((str "pages:" ++ decimal n).map UInt8.ofNat).findIdx? (· == 0x0A) = none := by
    rw [List.findIdx?_eq_none_iff]
    intro x hx
    obtain ⟨c, hc, rfl⟩ := List.mem_map.1 hx
    rw [beq_eq_false_iff_ne]
    rcases List.mem_append.1 hc with hc | hc
    · exact hlit c hc
    · intro he
      have hd := decimal_digit hc
      have hn : (UInt8.ofNat c).toNat = c := toNat_ofNat (by omega)
      rw [he] at hn
      simp only [UInt8.reduceToNat] at hn
      omega
  have hnl : (str "\n").map UInt8.ofNat = [0x0A] := rfl
  rw [List.map_append, List.append_assoc, List.findIdx?_append, hne, hnl]
  simp [List.findIdx?_cons]

/-- The bridge reads back exactly the pages the relay laid out. -/
theorem parse_reply {pages : List Str} (hne : pages ≠ []) (hp : ∀ p ∈ pages, p ≠ [] ∧ ∀ c ∈ p, Printable c) :
    parsePagesFrame ((str "pages:" ++ decimal pages.length ++ str "\n").map UInt8.ofNat ++
      List.intercalate [0x00] (pages.map (·.map UInt8.ofNat))) = pages := by
  set body := List.intercalate [0x00] (pages.map (·.map UInt8.ofNat)) with hbody
  -- No page holds a NUL, so cutting at the NULs gives the pages back.
  have hchunks : body.splitOn 0x00 = pages.map (·.map UInt8.ofNat) := by
    refine List.splitOn_intercalate 0x00 ?_ (by simpa using hne)
    intro l hl
    obtain ⟨p, hpm, rfl⟩ := List.mem_map.1 hl
    exact zero_notMem_encode (hp p hpm).2
  have hb : body ≠ [] := by
    intro h0
    rw [h0, List.splitOn_nil] at hchunks
    obtain ⟨p, ps, rfl⟩ := List.exists_cons_of_ne_nil hne
    simp only [List.map_cons, List.cons.injEq] at hchunks
    exact (hp p (by simp)).1 (List.map_eq_nil_iff.1 hchunks.1.symm)
  have hdecode : (pages.map (·.map UInt8.ofNat)).map bytesToAscii = pages := by
    rw [List.map_map]
    conv_rhs => rw [← List.map_id pages]
    exact List.map_congr_left fun p hpm => bytesToAscii_encode (hp p hpm).2
  have hpre : ((str "pages:").map UInt8.ofNat).isPrefixOf
      ((str "pages:" ++ decimal pages.length ++ str "\n").map UInt8.ofNat ++ body) = true := by
    simp only [List.map_append, List.append_assoc, List.isPrefixOf_iff_prefix, List.prefix_append]
  have hdrop : ((str "pages:" ++ decimal pages.length ++ str "\n").map UInt8.ofNat ++ body).drop
      ((str "pages:" ++ decimal pages.length).length + 1) = body := by
    rw [List.drop_left']
    simp [str]
  rw [parsePagesFrame, if_pos hpre, findIdx_header]
  dsimp only
  rw [hdrop, if_neg hb, hchunks, hdecode, if_neg hne]

/-! ## What the pushes carry -/

/-- A full page's wire body: the size word 112 and one single-byte token a character. -/
theorem payload_page {p : Str} (hlen : p.length = Relay.pageChars) :
    asciiToStrPayload p = [112, 0] ++ p.map tokenOrSpace := by
  have htake : p.take inmaxChars = p := List.take_of_length_le (by rw [hlen]; decide)
  have hl : (p.map tokenOrSpace).length = 112 := by rw [List.length_map, hlen]; rfl
  rw [asciiToStrPayload, htake, lossy_false_eq_map, hl]
  rfl

/-- With every push accepted, all pages are pushed in order. -/
theorem pushPages_ok (l : List (Bytes × Str)) (log : List VarPush) :
    pushPages (fun _ => .returned true) l log =
      (true, log ++ l.map fun x => ⟨tString, x.1, asciiToStrPayload x.2, 0x73⟩) := by
  induction l generalizing log with
  | nil => simp [pushPages]
  | cons x l ih =>
    obtain ⟨name8, page⟩ := x
    rw [pushPages]
    simp only [pushOneStr, trySendVar, if_true]
    rw [ih]
    simp

theorem push_reply_ok {frame : Bytes} {pages : List Str} (hp : parsePagesFrame frame = pages) (hne : pages ≠ [])
    (hmax : pages.length ≤ maxPages) :
    pushPaginatedReply (fun _ => .returned true) frame =
      (true, ((pageStrNames.zip pages).map fun x => ⟨tString, x.1, asciiToStrPayload x.2, 0x73⟩) ++
        [⟨tReal, pagecountName, encodeReal (.ofNat pages.length), 0x73⟩]) := by
  rw [pushPaginatedReply, hp]
  dsimp only
  rw [if_neg hne, List.take_of_length_le hmax, pushPages_ok]
  simp [pushPagecount, trySendVar]

/-- The pushed real is the page count. -/
theorem pagecount_real {k : Nat} (h1 : 1 ≤ k) (h8 : k ≤ 8) :
    parseRealParts (encodeReal (.ofNat k)) = (1, 0, k * 10 ^ 13) := by
  have hall : ∀ k ∈ List.range 9, 1 ≤ k → parseRealParts (encodeReal (.ofNat k)) = (1, 0, k * 10 ^ 13) := by decide
  exact hall k (List.mem_range.2 (by omega)) h1

/-! ## The pager -/

/-- A String variable's content as the calculator counts it: a two-byte
prefix and the byte after it are one token. -/
def calcTokens : Bytes → List Bytes
  | [] => []
  | [b] => [[b]]
  | b :: sub :: rest => if b ∈ twoBytePrefixes then [b, sub] :: calcTokens rest else [b] :: calcTokens (sub :: rest)

/-- TI-BASIC's `sub(`. `none` is ERR:INVALID DIM. -/
def sub (s : Bytes) (start len : Nat) : Option (List Bytes) :=
  let toks := calcTokens s
  if 1 ≤ start ∧ 1 ≤ len ∧ start + len - 1 ≤ toks.length then some ((toks.drop (start - 1)).take len) else none

theorem calcTokens_single {s : Bytes} (h : ∀ t ∈ s, t ∉ twoBytePrefixes) : calcTokens s = s.map ([·]) := by
  induction s using calcTokens.induct with
  | case1 => rfl
  | case2 b => rfl
  | case3 b sub rest hb ih => exact absurd hb (h b (by simp))
  | case4 b sub rest hb ih =>
    rw [calcTokens, if_neg hb, ih (fun t ht => h t (by simp_all))]
    rfl

/-- Every `sub(StrP, 1 + 16 * (R - 1), 16)` of a page of 112 single-byte
tokens is in range and gives the tokens of row `R`. -/
theorem sub_row {s : Bytes} (hlen : s.length = 112) (hs : ∀ t ∈ s, t ∉ twoBytePrefixes) {R : Nat} (h1 : 1 ≤ R)
    (h7 : R ≤ 7) : sub s (1 + 16 * (R - 1)) 16 = some (((s.drop (16 * (R - 1))).take 16).map ([·])) := by
  rw [sub, calcTokens_single hs, if_pos (by rw [List.length_map, hlen]; omega), Nat.add_sub_cancel_left, List.map_take, List.map_drop]

/-- A String body the pager shows as `rows`: 112 single-byte tokens, of which
the `R`th 16 encode row `R`, so every `sub(StrP, 1 + 16 * (R - 1), 16)` is in range. -/
structure Shows (rows : List Str) (body : Bytes) : Prop where
  length : body.length = 112
  single : ∀ t ∈ body, t ∉ twoBytePrefixes
  row : ∀ R, 1 ≤ R → R ≤ 7 → ∃ row, rows[R - 1]? = some row ∧ row.length = 16 ∧
    (body.drop (16 * (R - 1))).take 16 = asciiToTokensLossy row false ∧
    sub body (1 + 16 * (R - 1)) 16 = some ((asciiToTokensLossy row false).map ([·]))

/-- A full grid page, encoded, shows its rows. -/
theorem shows_page {rows : List Str} (h7 : rows.length = 7) (h16 : ∀ r ∈ rows, r.length = 16) :
    Shows rows (rows.flatten.map tokenOrSpace) := by
  have hlen : (rows.flatten.map tokenOrSpace).length = 112 := by
    rw [List.length_map, Relay.length_flatten_const rows h16, h7]
  have hsingle : ∀ t ∈ rows.flatten.map tokenOrSpace, t ∉ twoBytePrefixes := by
    intro t ht
    obtain ⟨c, -, rfl⟩ := List.mem_map.1 ht
    exact tokenOrSpace_single c
  refine ⟨hlen, hsingle, ?_⟩
  intro R h1 hR7
  have hR : R - 1 < rows.length := by omega
  have hslice : ((rows.flatten.map tokenOrSpace).drop (16 * (R - 1))).take 16 =
      asciiToTokensLossy rows[R - 1] false := by
    rw [lossy_false_eq_map, ← List.map_drop, ← List.map_take, Relay.take_drop_flatten rows h16 (R - 1) hR]
  refine ⟨rows[R - 1], List.getElem?_eq_getElem hR, h16 _ (List.getElem_mem hR), hslice, ?_⟩
  rw [sub_row hlen hsingle h1 hR7, hslice]

/-- For every list of model pages: the bridge parses the relay's frame back
to the laid out pages, there are 1 to 8 of them, and when every push succeeds
they go to Str3..Str9, Str0 in order, each as the size word and a body that
shows the page's rows, followed by the count as N. -/
theorem reply_reaches_pager (entries : List Relay.Entry) (text : Str) :
    let pages := Relay.layoutPages entries
    let k := pages.length
    ∃ frame, Relay.llmReplyPages (fun _ _ => .ok entries) text = .ok frame ∧
      parsePagesFrame frame = pages ∧ 1 ≤ k ∧ k ≤ 8 ∧
      pageStrNames.map Except.ok = [3, 4, 5, 6, 7, 8, 9, 0].map strName ∧
      ∃ bodies : List Bytes, List.Forall₂ Shows (Relay.layoutRows entries 16 7 8) bodies ∧
        pages = (Relay.layoutRows entries 16 7 8).map List.flatten ∧
        pushPaginatedReply (fun _ => .returned true) frame =
          (true, ((pageStrNames.zip bodies).map fun x => ⟨tString, x.1, [112, 0] ++ x.2, 0x73⟩) ++
            [⟨tReal, pagecountName, encodeReal (.ofNat k), 0x73⟩]) ∧
        parseRealParts (encodeReal (.ofNat k)) = (1, 0, k * 10 ^ 13) := by
  intro pages k
  have hgrid := Relay.layoutRows_grid entries 16 7 8
  have hlen := Relay.layoutPages_length entries
  obtain ⟨hk1, hk8⟩ : 0 < k ∧ k ≤ 8 := by
    rw [show k = (Relay.layoutRows entries 16 7 8).length from List.length_map _]
    exact Relay.layoutRows_count entries 16 7 (by decide)
  have hne : pages ≠ [] := List.length_pos_iff.1 hk1
  have hparse : parsePagesFrame _ = pages := parse_reply hne fun p hp =>
    ⟨List.length_pos_iff.1 (by rw [hlen p hp]; decide), Relay.layoutPages_printable entries p hp⟩
  have hbodies : ((pageStrNames.zip pages).map fun x => (⟨tString, x.1, asciiToStrPayload x.2, 0x73⟩ : VarPush)) =
      (pageStrNames.zip (pages.map (·.map tokenOrSpace))).map fun x => ⟨tString, x.1, [112, 0] ++ x.2, 0x73⟩ := by
    rw [List.zip_map_right, List.map_map]
    apply List.map_congr_left
    intro x hx
    simp [payload_page (hlen x.2 (List.of_mem_zip hx).2)]
  have hshows : List.Forall₂ Shows (Relay.layoutRows entries 16 7 8) (pages.map (·.map tokenOrSpace)) := by
    have hmap : pages.map (·.map tokenOrSpace) =
        (Relay.layoutRows entries 16 7 8).map fun rows => rows.flatten.map tokenOrSpace := List.map_map
    rw [hmap]
    refine List.forall₂_map_right_iff.2 (List.forall₂_same.2 ?_)
    exact fun rows hr => shows_page (hgrid rows hr).1 fun r hrr => ((hgrid rows hr).2 r hrr).1
  refine ⟨_, Relay.llmReplyPages_ok rfl, hparse, hk1, hk8, rfl, _, hshows, rfl, ?_, pagecount_real hk1 hk8⟩
  rw [push_reply_ok hparse hne hk8, hbodies]

end CalcBridge.Bridge
