import CalcBridge.Relay.Layout
/-!
# The relay's answer to one prompt frame (`tools/relay_server.py`)

`parsePair` splits the bridge's two-line frame and `llmReplyPages` builds the
paginated reply. The model call is a parameter: it returns the page list, or
fails with one of the exceptions the relay turns into an error page, or with
any other exception.
-/
open LinkLib LinkLib.Text

namespace CalcBridge.Relay

/-- One line of `_parse_pair`'s loop. -/
def parseLine (st : Str × Str) (line : Str) : Str × Str :=
  if (str "prompt:").isPrefixOf line then (line.drop (str "prompt:").length, st.2)
  else if (str "math:").isPrefixOf line then (st.1, line.drop (str "math:").length)
  else st

/-- `_parse_pair`: the prompt and the math field. -/
def parsePair (text : Str) : Str × Str := (text.splitOn newline).foldl parseLine ([], [])

inductive CallError where
  /-- URLError, OSError, ValueError or TimeoutError, with its `str(e)`. -/
  | handled (msg : Str)
  | other
  deriving DecidableEq, Repr

inductive ReplyError where
  | call
  | unicodeEncode
  deriving DecidableEq, Repr

/-- The page list `_llm_reply_pages` lays out, for an outcome of the model call. -/
def rawPages (outcome : Except CallError (List Entry)) : Except ReplyError (List Entry) :=
  match outcome with
  | .ok pages => .ok pages
  | .error (.handled msg) => .ok [.text (str "err: " ++ msg.take (pageChars - 5))]
  | .error .other => .error .call

/-- `b"\x00".join(...)` of the encoded pages. -/
def joinPages (pages : List Str) : Bytes := List.intercalate [0x00] (pages.map encodeAsciiReplace)

/-- `_llm_reply_pages`. -/
def llmReplyPages (callOllama : Str → Str → Except CallError (List Entry)) (text : Str) :
    Except ReplyError Bytes := do
  let pair := parsePair text
  let raw ← rawPages (callOllama pair.1 pair.2)
  let pages := layoutPages raw
  match encodeAscii (str "pages:" ++ decimal pages.length ++ str "\n") with
  | some header => .ok (header ++ joinPages pages)
  | none => .error .unicodeEncode

/-- A two-line frame whose fields hold no newline parses back to its fields. -/
theorem parsePair_frame {prompt math : Str} (hp : newline ∉ prompt) (hm : newline ∉ math) :
    parsePair (str "prompt:" ++ prompt ++ str "\nmath:" ++ math ++ str "\n") = (prompt, math) := by
  have hsplit : (str "prompt:" ++ prompt ++ str "\nmath:" ++ math ++ str "\n").splitOn newline =
      [str "prompt:" ++ prompt, str "math:" ++ math, []] := by
    have e : str "prompt:" ++ prompt ++ str "\nmath:" ++ math ++ str "\n" =
        (str "prompt:" ++ prompt) ++ newline :: ((str "math:" ++ math) ++ newline :: []) := by
      simp only [show str "\nmath:" = newline :: str "math:" from rfl, show str "\n" = [newline] from rfl,
        List.append_assoc, List.cons_append]
    have h1 : newline ∉ str "prompt:" ++ prompt := by
      rw [List.mem_append, not_or]; exact ⟨by decide, hp⟩
    have h2 : newline ∉ str "math:" ++ math := by
      rw [List.mem_append, not_or]; exact ⟨by decide, hm⟩
    rw [e, List.splitOn_append_cons_self_of_not_mem h1, List.splitOn_append_cons_self_of_not_mem h2]
    rfl
  have hprompt : parseLine ([], []) (str "prompt:" ++ prompt) = (prompt, []) := by
    simp [parseLine]
  have hmath : parseLine (prompt, []) (str "math:" ++ math) = (prompt, math) := by
    have hne : (str "prompt:").isPrefixOf (str "math:" ++ math) = false := rfl
    simp [parseLine, hne]
  rw [parsePair, hsplit, List.foldl_cons, List.foldl_cons, List.foldl_cons, hprompt, hmath]
  rfl

/-! ## The pages as bytes -/

theorem layoutPages_printable (entries : List Entry) : ∀ p ∈ layoutPages entries, ∀ c ∈ p, Printable c := by
  intro p hp c hc
  obtain ⟨q, hq, rfl⟩ := List.mem_map.1 hp
  obtain ⟨r, hr, hcr⟩ := List.mem_flatten.1 hc
  exact ((layoutRows_grid _ _ _ _ q hq).2 r hr).2 c hcr

/-- A flat list of rows of equal length, cut at a row boundary, gives the row. -/
theorem take_drop_flatten {α : Type} {n : Nat} (L : List (List α)) (hL : ∀ r ∈ L, r.length = n) (i : Nat)
    (hi : i < L.length) : (L.flatten.drop (n * i)).take n = L[i] := by
  induction L generalizing i with
  | nil => simp at hi
  | cons r L ih =>
    have hr : r.length = n := hL r (by simp)
    cases i with
    | zero => simp [← hr]
    | succ i =>
      have e : n * (i + 1) = r.length + n * i := by rw [hr]; ring
      rw [List.flatten_cons, e, List.drop_length_add_append]
      simpa using ih (fun r' h' => hL r' (by simp [h'])) i (by simpa using hi)

theorem length_flatten_const {α : Type} {n : Nat} (L : List (List α)) (hL : ∀ r ∈ L, r.length = n) :
    L.flatten.length = n * L.length := by
  induction L with
  | nil => rfl
  | cons r L ih =>
    simp only [List.flatten_cons, List.length_append, hL r (by simp), ih (fun r' h' => hL r' (by simp [h'])),
      List.length_cons]
    ring

theorem layoutPages_length (entries : List Entry) : ∀ p ∈ layoutPages entries, p.length = pageChars := by
  intro p hp
  obtain ⟨q, hq, rfl⟩ := List.mem_map.1 hp
  obtain ⟨hlen, hrows⟩ := layoutRows_grid _ _ _ _ q hq
  rw [length_flatten_const q (fun r hr => (hrows r hr).1), hlen]
  rfl

theorem header_ascii (n : Nat) : ∀ c ∈ str "pages:" ++ decimal n ++ str "\n", c < 128 := by
  have hlit : ∀ c ∈ str "pages:" ++ str "\n", c < 128 := by decide
  intro c hc
  rcases List.mem_append.1 hc with hc | hc
  · rcases List.mem_append.1 hc with hc | hc
    · exact hlit c (List.mem_append_left _ hc)
    · have := decimal_digit hc; omega
  · exact hlit c (List.mem_append_right _ hc)

/-- The frame is the header line, then the pages' ASCII bytes with NULs between. -/
theorem llmReplyPages_ok {callOllama : Str → Str → Except CallError (List Entry)} {text : Str} {raw : List Entry}
    (h : rawPages (callOllama (parsePair text).1 (parsePair text).2) = .ok raw) :
    llmReplyPages callOllama text =
      .ok ((str "pages:" ++ decimal (layoutPages raw).length ++ str "\n").map UInt8.ofNat ++
        List.intercalate [0x00] ((layoutPages raw).map (·.map UInt8.ofNat))) := by
  have hpages : (layoutPages raw).map encodeAsciiReplace = (layoutPages raw).map (·.map UInt8.ofNat) :=
    List.map_congr_left fun p hp =>
      encodeAsciiReplace_of fun c hc => printable_lt (layoutPages_printable raw p hp c hc)
  simp only [llmReplyPages, h, bind, Except.bind]
  rw [encodeAscii_of (header_ascii _), joinPages, hpages]

end CalcBridge.Relay
