import CalcBridge.Bridge.PairRuns
import CalcBridge.Relay.WssPath
import CalcBridge.SendListen
/-!
# Questions, from the calculator to the model

`CHAT.z80` sends Str1 and then Str2 over the link, `listen_loop` hands them to
`on_var`, the bridge ships the pair over its WebSocket, the front-end passes it
on and the relay's loop reads it for `_llm_reply_pages`.
-/
open LinkLib LinkLib.Text LinkLib.Runs LinkLib.Source LinkLib.Framing LinkLib.WsFrame LinkLib.Programs LinkLib.Confluence
open CalcBridge.Net CalcBridge.WsBridge CalcBridge.Tokens CalcBridge.Transfer

namespace CalcBridge.Deck

/-- The tokens in Str1 and Str2 when the deck runs `CHAT`. -/
structure Question where
  prompt : Bytes
  math : Bytes
  prompt_length : prompt.length ≤ 65533
  math_length : math.length ≤ 65533

/-- A String as it goes over the link: its size word, then its tokens. -/
def strVariable (slot : UInt8) (body : Bytes) (h : body.length ≤ 65533) : Outgoing where
  typeId := Vartypes.tString
  name8 := [Vartypes.tVarStrng, slot] ++ List.replicate 6 0
  data := Bytes.toLe 2 body.length ++ body
  name_length := rfl
  data_length := by rw [List.length_append, Bytes.length_toLe]; omega

/-- What `CHAT.z80` sends. -/
def Question.chat (q : Question) : List Outgoing :=
  [strVariable Bridge.strSlotText q.prompt q.prompt_length, strVariable Bridge.strSlotMath q.math q.math_length]

/-- What the model is asked. -/
def Question.texts (q : Question) : Str × Str := (tokensToAscii q.prompt .text, tokensToAscii q.math .math)

/-- The frame `_emit_pair` makes of the two texts. -/
def Question.payload (q : Question) : Bytes := (Bridge.pairBody q.texts.1 q.texts.2).map UInt8.ofNat

/-- What `_llm_reply_pages` passes to the model for a frame the relay read. -/
def asked (body : Bytes) : Option (Str × Str) := (decodeAscii body).map Relay.parsePair

theorem asked_payload (q : Question) : asked q.payload = some q.texts := by
  obtain ⟨payload, henc, text, hdec, hparse⟩ :=
    Bridge.pairBody_parses (tokensToAscii_printable q.prompt .text) (tokensToAscii_printable q.math .math)
  have hascii := Bridge.pairBody_ascii (tokensToAscii_printable q.prompt .text) (tokensToAscii_printable q.math .math)
  obtain rfl : q.payload = payload := Option.some.inj ((encodeAscii_of hascii).symm.trans henc)
  rw [asked, hdec, Option.map_some, hparse]
  rfl

/-- No question is too long for the relay. -/
theorem Question.length_payload (q : Question) : q.payload.length ≤ 1 <<< 20 := by
  have hprompt := tokensToAscii_length q.prompt .text
  have hmath := tokensToAscii_length q.math .math
  have hp := q.prompt_length
  have hm := q.math_length
  have hlabels : (str "prompt:").length = 7 ∧ (str "\nmath:").length = 6 ∧ (str "\n").length = 1 := by decide
  simp only [Question.payload, Bridge.pairBody, Question.texts, List.length_map, List.length_append, hlabels]
  omega

/-! ## The bridge's part -/

/-- The arguments of `on_var` that it looks at. -/
abbrev Arrival := UInt8 × Bytes × Bytes

def arrival (v : Outgoing) : Arrival := (v.typeId, v.name8, v.data)

/-- The calls of `on_var` among the bridge's calls. -/
def arrivals (es : List Bridge.Event) : List Arrival :=
  es.filterMap fun e => match e.op with
    | .onVar typeId name8 data => some (typeId, name8, data)
    | .check => none

/-- The calls of `on_var` that `listen_loop` has made. -/
def called (outs : List Shown) : List Arrival :=
  outs.filterMap fun
    | .called v => some (v.typeId, v.name8, v.data)
    | .returned _ => none

/-- The payload a call has sent. -/
def sentBy : Option Bridge.Output → Option Bytes
  | some (.pair _ _ (.sent payload)) => some payload
  | some (.raw (.sent payload)) => some payload
  | _ => none

/-- The payloads that were sent, in order. -/
def shipped (h : Bridge.History) : List Bytes := h.filterMap fun x => sentBy x.2

/-- The socket is up, a send is accepted, and a check finds no half that is due. -/
def Steady (s : Bridge.State) (e : Bridge.Event) : Prop :=
  e.sock = true ∧ e.send = .ok ∧ (e.op = .check → ∀ first, s.pair.firstArrivalMs = some first →
    Ticks.ticksDiff e.now first < Bridge.pairTimeoutMs)

/-- The call of `on_var` for a String. -/
def strOp (v : Outgoing) : Bridge.Op := .onVar v.typeId v.name8 v.data

/-- A check that finds no half that is due. -/
theorem check_keeps {s : Bridge.State} {now : Nat}
    (hyoung : ∀ first, s.pair.firstArrivalMs = some first → Ticks.ticksDiff now first < Bridge.pairTimeoutMs)
    (hsingle : s.pair.prompt = none ∨ s.pair.math = none) (send : Bridge.Send) :
    Bridge.step s ⟨.check, now, send, true⟩ = (⟨true, s.pair⟩, none) := by
  rw [Bridge.step, Bridge.maybeFlushStalePair]
  dsimp only
  cases hfirst : s.pair.firstArrivalMs with
  | none => rfl
  | some first =>
    dsimp only
    rw [if_neg (by tauto), if_neg (Int.not_le.2 (hyoung first hfirst))]

/-- Str1 arrives on an empty buffer. -/
theorem prompt_waits {s : Bridge.State} (hs : s.pair = .empty) (q : Question) (now : Nat) (send : Bridge.Send) :
    Bridge.step s ⟨strOp (strVariable Bridge.strSlotText q.prompt q.prompt_length), now, send, true⟩ =
      (⟨true, ⟨some q.texts.1, none, some now⟩⟩, none) := by
  have hd : Bridge.delivery (strOp (strVariable Bridge.strSlotText q.prompt q.prompt_length)) = some (.text, q.texts.1) :=
    Bridge.delivery_str .text (Nat.lt_of_le_of_lt q.prompt_length (by decide)) (List.replicate 6 0)
  rw [Bridge.step_delivery s hd, hs, if_pos (Bridge.half_empty _)]
  rfl

/-- Str2 arrives behind Str1: the pair is sent. -/
theorem math_completes {s : Bridge.State} (q : Question) {first : Nat} (hs : s.pair = ⟨some q.texts.1, none, some first⟩)
    (now : Nat) (send : Bridge.Send) :
    let r := Bridge.trySend send q.payload
    Bridge.step s ⟨strOp (strVariable Bridge.strSlotMath q.math q.math_length), now, send, true⟩ =
      (⟨r.1, .empty⟩, some (.pair q.texts.1 q.texts.2 r.2)) := by
  have hd : Bridge.delivery (strOp (strVariable Bridge.strSlotMath q.math q.math_length)) = some (.math, q.texts.2) :=
    Bridge.delivery_str .math (Nat.lt_of_le_of_lt q.math_length (by decide)) (List.replicate 6 0)
  have henc : encodeAscii (Bridge.pairBody q.texts.1 q.texts.2) = some q.payload :=
    encodeAscii_of (Bridge.pairBody_ascii (tokensToAscii_printable q.prompt .text) (tokensToAscii_printable q.math .math))
  rw [Bridge.step_delivery s hd, hs, if_neg (by rintro ⟨⟩)]
  simp only [Bridge.flushPair, Bridge.Pair.store, Bridge.Pair.stamp, reduceCtorEq, if_false, Option.getD_some, Bridge.emitPair, henc,
    if_true]

theorem steady_check {s : Bridge.State} {e : Bridge.Event} (h : Steady s e) (hop : e.op = .check)
    (hsingle : s.pair.prompt = none ∨ s.pair.math = none) : Bridge.step s e = (⟨true, s.pair⟩, none) := by
  obtain ⟨op, now, send, sock⟩ := e
  obtain ⟨rfl, -, hyoung⟩ := h
  obtain rfl : op = .check := hop
  exact check_keeps (hyoung rfl) hsingle send

theorem steady_prompt {s : Bridge.State} {e : Bridge.Event} (h : Steady s e) (hs : s.pair = .empty) (q : Question)
    {typeId : UInt8} {name8 data : Bytes} (hop : e.op = .onVar typeId name8 data)
    (ha : (typeId, name8, data) = arrival (strVariable Bridge.strSlotText q.prompt q.prompt_length)) :
    Bridge.step s e = (⟨true, ⟨some q.texts.1, none, some e.now⟩⟩, none) := by
  obtain ⟨op, now, send, sock⟩ := e
  obtain ⟨rfl, -, -⟩ := h
  cases ha
  obtain rfl : op = .onVar _ _ _ := hop
  exact prompt_waits hs q now send

theorem steady_math {s : Bridge.State} {e : Bridge.Event} (h : Steady s e) (q : Question) {first : Nat}
    (hs : s.pair = ⟨some q.texts.1, none, some first⟩) {typeId : UInt8} {name8 data : Bytes}
    (hop : e.op = .onVar typeId name8 data)
    (ha : (typeId, name8, data) = arrival (strVariable Bridge.strSlotMath q.math q.math_length)) :
    Bridge.step s e = (⟨true, .empty⟩, some (.pair q.texts.1 q.texts.2 (.sent q.payload))) := by
  obtain ⟨op, now, send, sock⟩ := e
  obtain ⟨rfl, hok, -⟩ := h
  obtain rfl : send = .ok := hok
  cases ha
  obtain rfl : op = .onVar _ _ _ := hop
  exact math_completes q hs now .ok

/-- From an empty buffer, and from one where the prompt of a question waits. -/
theorem steady_run (es : List Bridge.Event) {s : Bridge.State} (h : Holds Bridge.step Steady s es) (qs : List Question) :
    (s.pair = .empty → arrivals es <+: (qs.flatMap Question.chat).map arrival →
      shipped (run Bridge.step s es).2 = (qs.take ((arrivals es).length / 2)).map Question.payload) ∧
    ∀ q first, s.pair = ⟨some q.texts.1, none, some first⟩ →
      arrivals es <+: arrival (strVariable Bridge.strSlotMath q.math q.math_length) :: (qs.flatMap Question.chat).map arrival →
      shipped (run Bridge.step s es).2 = ((q :: qs).take (((arrivals es).length + 1) / 2)).map Question.payload := by
  induction es generalizing s qs with
  | nil => exact ⟨fun _ _ => by simp [shipped, arrivals], fun _ _ _ _ => by simp [shipped, arrivals]⟩
  | cons e es ih =>
    obtain ⟨he, hes⟩ := h
    cases hop : e.op with
    | check =>
      have harr : arrivals (e :: es) = arrivals es := by simp [arrivals, hop]
      have hstays (hsingle : s.pair.prompt = none ∨ s.pair.math = none) := steady_check he hop hsingle
      rw [harr, run_cons]
      constructor
      · intro hs hfront
        have hstep := hstays (by simp [hs, Bridge.Pair.empty])
        rw [hstep] at hes ⊢
        exact (ih hes qs).1 hs hfront
      · intro q first hs hfront
        have hstep := hstays (by simp [hs])
        rw [hstep] at hes ⊢
        exact (ih hes qs).2 q first hs hfront
    | onVar typeId name8 data =>
      have harr : arrivals (e :: es) = (typeId, name8, data) :: arrivals es := by simp [arrivals, hop]
      rw [harr, run_cons]
      constructor
      · intro hs hfront
        cases qs with
        | nil => simp at hfront
        | cons q qs =>
          obtain ⟨ha, hfront⟩ := List.cons_prefix_cons.1 hfront
          have hstep := steady_prompt he hs q hop ha
          rw [hstep] at hes ⊢
          exact (ih hes qs).2 q e.now rfl hfront
      · intro q first hs hfront
        obtain ⟨ha, hfront⟩ := List.cons_prefix_cons.1 hfront
        have hstep := steady_math he q hs hop ha
        rw [hstep] at hes ⊢
        have hrest := (ih hes qs).1 rfl hfront
        rw [List.length_cons, show ((arrivals es).length + 1 + 1) / 2 = (arrivals es).length / 2 + 1 by omega,
          List.take_succ_cons, List.map_cons, ← hrest]
        rfl

/-! ## The whole way up -/

theorem called_variables (vs : List (Nat × Outgoing)) :
    called (vs.map fun x => .called (x.2.variable 83)) = (vs.map Prod.snd).map arrival := by
  induction vs with
  | nil => rfl
  | cons x vs ih =>
    rw [List.map_cons, List.map_cons, List.map_cons, ← ih]
    rfl

end CalcBridge.Deck
