import CalcBridge.Relay.Reply
/-!
# The model call (`tools/relay_server.py`, `_call_ollama` and `_worker`)

The HTTP body is JSON of any shape, and so is the text the model put into it.
`Answerable` says which of them the relay turns into pages; on the others it
raises what no `except` clause names, and the prompt gets no reply.
-/
open LinkLib LinkLib.Text

namespace CalcBridge.Relay

/-- A value `json.loads` returns. A number carries its `str()` and whether it
is zero; an object is the items of its dict. -/
inductive Json where
  | null
  | bool (b : Bool)
  | num (text : Str) (zero : Bool)
  | str (s : Str)
  | arr (items : List Json)
  | obj (items : List (Str × Json))

/-- What the HTTP request gives: an error of a kind the relay catches, or an
undecodable body, with its `str(e)`; an error it does not catch, such as the
`http.client` ones for a reply cut short or one with a bad status line; or the
decoded body. -/
inductive Http where
  | failed (msg : Str)
  | raised
  | body (doc : Json)

/-- `s.strip()`. -/
def strip (s : Str) : Str := rstrip (s.dropWhile isSpace)

namespace Json

/-- `not j`. -/
def falsy : Json → Bool
  | null => true
  | bool b => !b
  | num _ zero => zero
  | str s => s.isEmpty
  | arr items => items.isEmpty
  | obj items => items.isEmpty

/-- `str(j)`. That of a list or a dict is a parameter. -/
def toStr (repr : Json → Str) : Json → Str
  | null => LinkLib.str "None"
  | bool b => LinkLib.str (if b then "True" else "False")
  | num text _ => text
  | str s => s
  | j => repr j

/-- `j.get(key, default)`. What is no dict has no `get`: the AttributeError. -/
def get (j : Json) (key : String) (default : Json) : Except CallError Json :=
  match j with
  | obj items => .ok ((items.lookup (LinkLib.str key)).getD default)
  | _ => .error .other

/-- `list(j)`, or the TypeError. A string has its characters, a dict its keys. -/
def iter : Json → Except CallError (List Json)
  | str s => .ok (s.map fun c => str [c])
  | arr items => .ok items
  | obj items => .ok (items.map fun kv => str kv.1)
  | _ => .error .other

end Json

section Call
variable (loads : Str → Option Json) (repr : Json → Str)

/-- The pages of a parsed content: its list of pages, or its reply as one. -/
def pagesIn (obj content : Json) : Except CallError (List Json) := do
  match ← obj.get "pages" .null with
  | .arr (p :: ps) => return p :: ps
  | _ =>
    let reply := strip ((← obj.get "reply" content).toStr repr)
    return if reply ≠ [] then [.str reply] else [.str []]

/-- The `try` of `_call_ollama`. `loads` is `json.loads`, with `none` for its ValueError. -/
def pagesOf (content : Json) : Except CallError (List Json) :=
  match content with
  | .str s =>
    match loads s with
    | none => .ok [.str (strip s)]
    | some obj => pagesIn repr obj content
  -- `json.loads` raises a TypeError, and what is no string has no `strip`.
  | _ => .error .other

/-- `_call_ollama`. -/
def callOllama (http : Http) : Except CallError (List Json) :=
  match http with
  | .failed msg => .error (.handled msg)
  -- No `URLError`, `OSError` or `ValueError`.
  | .raised => .error .other
  | .body resp => do
    let message ← resp.get "message" (.obj [])
    let content ← message.get "content" (.str [])
    pagesOf loads repr content

/-- `entry.get("lines") or []`, and `str` of what it holds. -/
def dictEntry (lines : Json) : Except CallError Entry :=
  if lines.falsy then .ok (.dict none) else lines.iter.map fun items => .dict (some (items.map (Json.toStr repr)))

/-- One entry of the page list as `_layout_pages` takes it. -/
def entryOf (page : Json) : Except CallError Entry :=
  match page with
  | .obj items => dictEntry repr ((items.lookup (LinkLib.str "lines")).getD .null)
  | j => .ok (.text (j.toStr repr))

/-- The entries `_llm_reply_pages` lays out. An entry that cannot be iterated
over raises outside the `try`, as uncaught as any other exception. -/
def modelEntries (http : Http) : Except CallError (List Entry) := do
  let pages ← callOllama loads repr http
  pages.mapM (entryOf repr)

/-- `_llm_reply_pages`, with the HTTP request as a parameter. -/
def promptReply (http : Str → Str → Http) (text : Str) : Except ReplyError Bytes :=
  llmReplyPages (fun prompt math => modelEntries loads repr (http prompt math)) text

/-- `_worker`: the frames it passes to `sendall`. -/
def worker (http : Str → Str → Http) (text : Str) : List Bytes :=
  match promptReply loads repr http text with
  | .ok reply => [Bytes.toBe 4 reply.length ++ reply]
  | .error _ => []

end Call

/-! ## Which outcomes are answered -/

/-- Lines that are absent, falsy or can be iterated over. -/
def Json.Lineslike : Json → Prop
  | .bool b => b = false
  | .num _ zero => zero
  | _ => True

/-- An entry that is no dict, or one with such lines. -/
def Json.Entrylike : Json → Prop
  | .obj items => ((items.lookup (LinkLib.str "lines")).getD .null).Lineslike
  | _ => True

/-- A parsed message content: a dict, and if it has a nonempty list of pages,
then each of them an entry. -/
def Json.Replylike : Json → Prop
  | .obj items =>
    match (items.lookup (LinkLib.str "pages")).getD .null with
    | .arr pages => ∀ p ∈ pages, p.Entrylike
    | _ => True
  | _ => False

/-- A content: a string that is no JSON, or is such a dict. -/
def Json.Contentlike (loads : Str → Option Json) : Json → Prop
  | .str s => ∀ obj, loads s = some obj → obj.Replylike
  | _ => False

/-- A dict without `key`, or with a value there that is `P`. -/
def Json.Has (j : Json) (key : String) (default : Json) (P : Json → Prop) : Prop :=
  match j with
  | .obj items => P ((items.lookup (LinkLib.str key)).getD default)
  | _ => False

/-- The outcomes of the request that a prompt gets a reply for. -/
def Answerable (loads : Str → Option Json) : Http → Prop
  | .failed _ => True
  | .raised => False
  | .body resp => resp.Has "message" (.obj []) fun message => message.Has "content" (.str []) (Json.Contentlike loads)

/-! ## What is caught -/

/-- The call returns, or raises something that becomes an error page. -/
def Caught {α : Type} (r : Except CallError α) : Prop := r ≠ .error .other

theorem caught_ok {α : Type} (a : α) : Caught (.ok a : Except CallError α) := nofun

theorem not_caught {α : Type} : ¬ Caught (.error .other : Except CallError α) := fun h => h rfl

theorem caught_get {α : Type} {j : Json} {key : String} {default : Json} {next : Json → Except CallError α} :
    Caught (j.get key default >>= next) ↔ j.Has key default fun v => Caught (next v) := by
  cases j with
  | obj items => exact Iff.rfl
  | _ => exact iff_of_false not_caught id

theorem has_congr {j : Json} {key : String} {default : Json} {P Q : Json → Prop} (h : ∀ v, P v ↔ Q v) :
    j.Has key default P ↔ j.Has key default Q := by
  cases j with
  | obj items => exact h _
  | _ => exact Iff.rfl

theorem caught_map {α β : Type} {r : Except CallError α} {f : α → β} : Caught (r.map f) ↔ Caught r := by
  cases r with
  | ok a => exact iff_of_true (caught_ok _) (caught_ok _)
  | error e => simp [Caught, Except.map]

theorem caught_iter {j : Json} (h : ¬ j.falsy) : Caught j.iter ↔ j.Lineslike := by
  cases j with
  | null => exact absurd rfl h
  | bool b => cases b <;> simp [Json.falsy, Json.iter, Json.Lineslike, not_caught] at *
  | num text zero => cases zero <;> simp [Json.falsy, Json.iter, Json.Lineslike, not_caught] at *
  | _ => exact iff_of_true (caught_ok _) trivial

theorem caught_dictEntry {repr : Json → Str} {lines : Json} : Caught (dictEntry repr lines) ↔ lines.Lineslike := by
  unfold dictEntry
  split
  · rename_i h
    refine iff_of_true (caught_ok _) ?_
    cases lines <;> simp_all [Json.falsy, Json.Lineslike]
  · rename_i h
    exact caught_map.trans (caught_iter h)

theorem caught_entryOf {repr : Json → Str} {page : Json} : Caught (entryOf repr page) ↔ page.Entrylike := by
  cases page with
  | obj items => exact caught_dictEntry
  | _ => exact iff_of_true (caught_ok _) trivial

/-- A list of calls goes through when each of them does. -/
theorem caught_mapM {α β : Type} {f : α → Except CallError β} (hf : ∀ a msg, f a ≠ .error (.handled msg)) {as : List α} :
    Caught (as.mapM f) ↔ ∀ a ∈ as, Caught (f a) := by
  induction as with
  | nil => exact iff_of_true (caught_ok _) (by simp)
  | cons a as ih =>
    rw [List.mapM_cons, List.forall_mem_cons, ← ih]
    cases hfa : f a with
    | ok b =>
      change Caught (as.mapM f >>= fun bs => .ok (b :: bs)) ↔ _
      rw [and_iff_right (caught_ok b)]
      cases as.mapM f with
      | ok bs => exact iff_of_true (caught_ok _) (caught_ok _)
      | error e => exact Iff.rfl
    | error e =>
      cases e with
      | handled msg => exact absurd hfa (hf a msg)
      | other => exact iff_of_false not_caught fun h => not_caught h.1

theorem iter_ne_handled (j : Json) (msg : Str) : j.iter ≠ .error (.handled msg) := by
  cases j <;> nofun

theorem entryOf_ne_handled (repr : Json → Str) (page : Json) (msg : Str) : entryOf repr page ≠ .error (.handled msg) := by
  cases page with
  | obj items =>
    unfold entryOf dictEntry
    dsimp only
    split
    · nofun
    · cases hiter : ((items.lookup (LinkLib.str "lines")).getD .null).iter with
      | ok lines => nofun
      | error e => exact fun h => iter_ne_handled _ msg (hiter.trans (congrArg _ (Except.error.inj h)))
  | _ => nofun

/-- The pages are laid out when each of them is an entry. -/
theorem caught_entries {repr : Json → Str} {pages : List Json} :
    Caught (pages.mapM (entryOf repr)) ↔ ∀ p ∈ pages, p.Entrylike :=
  (caught_mapM (entryOf_ne_handled repr)).trans (forall₂_congr fun _ _ => caught_entryOf)

theorem caught_text {repr : Json → Str} (s : Str) : Caught ([Json.str s].mapM (entryOf repr)) :=
  caught_entries.2 fun _ hp => List.mem_singleton.1 hp ▸ trivial

section Outcome
variable {loads : Str → Option Json} {repr : Json → Str}

theorem caught_pagesIn {obj content : Json} :
    Caught (pagesIn repr obj content >>= fun pages => pages.mapM (entryOf repr)) ↔ obj.Replylike := by
  cases obj with
  | obj items =>
    have hreply : ∀ s : Str, Caught ((if s ≠ [] then [Json.str s] else [Json.str []]).mapM (entryOf repr)) := by
      intro s
      split <;> exact caught_text _
    have hget : (Json.obj items).get "pages" .null = .ok ((items.lookup (LinkLib.str "pages")).getD .null) := rfl
    unfold pagesIn Json.Replylike
    rw [hget]
    dsimp only
    cases (items.lookup (LinkLib.str "pages")).getD .null with
    | arr pages =>
      cases pages with
      | nil => exact iff_of_true (hreply _) nofun
      | cons p ps => exact caught_entries
    | _ => exact iff_of_true (hreply _) trivial
  | _ => exact iff_of_false not_caught id

theorem caught_pagesOf {content : Json} :
    Caught (pagesOf loads repr content >>= fun pages => pages.mapM (entryOf repr)) ↔ content.Contentlike loads := by
  cases content with
  | str s =>
    unfold pagesOf Json.Contentlike
    dsimp only
    cases loads s with
    | none => exact iff_of_true (caught_text _) nofun
    | some obj =>
      simpa only [Option.some.injEq, forall_eq'] using caught_pagesIn
  | _ => exact iff_of_false not_caught id

/-- The request's outcome leads to pages or to an error page exactly when it is answerable. -/
theorem caught_modelEntries {http : Http} : Caught (modelEntries loads repr http) ↔ Answerable loads http := by
  cases http with
  | failed msg => exact iff_of_true nofun trivial
  | raised => exact iff_of_false not_caught id
  | body resp =>
    unfold modelEntries callOllama Answerable
    dsimp only
    rw [bind_assoc, caught_get]
    refine has_congr fun message => ?_
    rw [bind_assoc, caught_get]
    exact has_congr fun content => caught_pagesOf

end Outcome

/-! ## The reply -/

/-- A header line with the number of pages, and the pages with NULs between:
one to eight of them, each 112 printable characters. -/
def PagesFrame (frame : Bytes) : Prop :=
  ∃ pages : List Str, 1 ≤ pages.length ∧ pages.length ≤ 8 ∧ (∀ p ∈ pages, p.length = 112 ∧ ∀ c ∈ p, Printable c) ∧
    frame = (str "pages:" ++ decimal pages.length ++ str "\n").map UInt8.ofNat ++
      List.intercalate [0x00] (pages.map (·.map UInt8.ofNat))

/-- What is laid out is a frame of pages. -/
theorem llmReplyPages_pages {callOllama : Str → Str → Except CallError (List Entry)} {text : Str}
    (h : Caught (callOllama (parsePair text).1 (parsePair text).2)) :
    ∃ frame, llmReplyPages callOllama text = .ok frame ∧ PagesFrame frame := by
  obtain ⟨raw, hraw⟩ : ∃ raw, rawPages (callOllama (parsePair text).1 (parsePair text).2) = .ok raw := by
    cases hcall : callOllama (parsePair text).1 (parsePair text).2 with
    | ok pages => exact ⟨pages, rfl⟩
    | error e =>
      cases e with
      | handled msg => exact ⟨_, rfl⟩
      | other => exact absurd hcall h
  refine ⟨_, llmReplyPages_ok hraw, layoutPages raw, ?_, ?_, ?_, rfl⟩
  · rw [layoutPages, List.length_map]
    exact (layoutRows_count raw pageCols pageRows (by decide)).1
  · rw [layoutPages, List.length_map]
    exact (layoutRows_count raw pageCols pageRows (by decide)).2
  · intro p hp
    exact ⟨layoutPages_length raw p hp, layoutPages_printable raw p hp⟩

theorem llmReplyPages_raises {callOllama : Str → Str → Except CallError (List Entry)} {text : Str}
    (h : ¬ Caught (callOllama (parsePair text).1 (parsePair text).2)) : llmReplyPages callOllama text = .error .call := by
  have hother := not_not.1 h
  simp [llmReplyPages, hother, rawPages, bind, Except.bind]

/-- A prompt gets its frame of pages, and the worker sends exactly one reply,
exactly when the outcome of the request is answerable. -/
theorem prompt_answered_iff (loads : Str → Option Json) (repr : Json → Str) (http : Str → Str → Http) (text : Str) :
    ((∃ frame, promptReply loads repr http text = .ok frame ∧ PagesFrame frame) ↔
      Answerable loads (http (parsePair text).1 (parsePair text).2)) ∧
    ((worker loads repr http text).length = 1 ↔ Answerable loads (http (parsePair text).1 (parsePair text).2)) := by
  rw [← @caught_modelEntries loads repr]
  by_cases h : Caught (modelEntries loads repr (http (parsePair text).1 (parsePair text).2))
  · have hreply : ∃ frame, promptReply loads repr http text = .ok frame ∧ PagesFrame frame := llmReplyPages_pages h
    refine ⟨iff_of_true hreply h, iff_of_true ?_ h⟩
    obtain ⟨frame, hframe, -⟩ := hreply
    rw [worker, hframe]
    rfl
  · have hraise : promptReply loads repr http text = .error .call := llmReplyPages_raises h
    rw [worker, hraise]
    exact ⟨iff_of_false (by rintro ⟨frame, hframe, -⟩; cases hframe) h, iff_of_false (by simp) h⟩

/-- The model answers with the two characters of an empty JSON list. -/
theorem list_content_unanswered :
    let loads s := if s = str "[]" then some (Json.arr []) else none
    let http (_ _ : Str) := Http.body (.obj [(str "message", .obj [(str "content", .str (str "[]"))])])
    promptReply loads (fun _ => []) http (str "prompt:HI\nmath:\n") = .error .call ∧
      worker loads (fun _ => []) http (str "prompt:HI\nmath:\n") = [] := by
  intro loads http
  have hraise : promptReply loads (fun _ => []) http (str "prompt:HI\nmath:\n") = .error .call :=
    llmReplyPages_raises not_caught
  exact ⟨hraise, by rw [worker, hraise]⟩

end CalcBridge.Relay
