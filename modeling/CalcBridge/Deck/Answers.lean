import CalcBridge.Calc.Delivery
import CalcBridge.Relay.WssPath
/-!
# Answers, from the model to the calculator

The relay lays out what the model returned and sends it as a frame; the
front-end passes it on, the bridge polls it and pushes its pages, and the deck
shows them. The deck sets N to 0 when it asks: a reply that begins then is never
seen in part, whatever else is asked while it is pushed.
-/
open LinkLib LinkLib.Text LinkLib.Lines LinkLib.Runs LinkLib.Source LinkLib.Framing LinkLib.WsFrame
open CalcBridge.Net CalcBridge.WsBridge CalcBridge.Bridge CalcBridge.Calc

namespace CalcBridge.Deck

/-- What a call of the model comes to. -/
abbrev Outcome := Except Relay.CallError (List Relay.Entry)

/-- `_llm_reply_pages` makes this frame of the outcome, whatever the prompt was. -/
def Answers (outcome : Outcome) (frame : Bytes) : Prop :=
  ∃ text, Relay.llmReplyPages (fun _ _ => outcome) text = .ok frame

/-! ## The frames are small -/

theorem length_joined {n : Nat} {pages : List Bytes} (h : ∀ p ∈ pages, p.length = n) :
    (List.intercalate [0x00] pages).length ≤ (n + 1) * pages.length := by
  induction pages with
  | nil => simp
  | cons p pages ih =>
    have hp := h p (by simp)
    have hrest := ih fun q hq => h q (by simp [hq])
    cases pages with
    | nil => simp [hp]
    | cons q pages =>
      have hmul : (n + 1) * (p :: q :: pages).length = (n + 1) * (q :: pages).length + (n + 1) := Nat.mul_add_one ..
      rw [List.intercalate_cons_cons, List.length_append, List.length_append, hp, List.length_singleton, hmul]
      omega

theorem length_header {k : Nat} (h : k ≤ 8) : (str "pages:" ++ decimal k ++ str "\n").length = 8 := by
  have hall : ∀ k ∈ List.range 9, (str "pages:" ++ decimal k ++ str "\n").length = 8 := by decide
  exact hall k (List.mem_range.2 (by omega))

theorem Answers.raw {outcome : Outcome} {frame : Bytes} (h : Answers outcome frame) : ∃ raw, Relay.rawPages outcome = .ok raw := by
  obtain ⟨text, h⟩ := h
  unfold Relay.llmReplyPages at h
  dsimp only [bind, Except.bind] at h
  split at h
  · cases h
  · exact ⟨_, ‹_›⟩

theorem Answers.length_le {outcome : Outcome} {frame : Bytes} (h : Answers outcome frame) : frame.length ≤ 1 <<< 20 := by
  obtain ⟨raw, hraw⟩ := h.raw
  obtain ⟨text, h⟩ := h
  rw [Relay.llmReplyPages_ok hraw] at h
  cases h
  have h8 : (Relay.layoutPages raw).length ≤ 8 := by
    rw [show (Relay.layoutPages raw).length = (Relay.layoutRows raw 16 7 8).length from List.length_map _]
    exact (Relay.layoutRows_count raw 16 7 (by decide)).2
  have hpages : ∀ p ∈ (Relay.layoutPages raw).map (·.map UInt8.ofNat), p.length = Relay.pageChars := by
    intro p hp
    obtain ⟨q, hq, rfl⟩ := List.mem_map.1 hp
    rw [List.length_map, Relay.layoutPages_length raw q hq]
  have hjoined := length_joined hpages
  rw [List.length_map] at hjoined
  rw [List.length_append, List.length_map, length_header h8]
  refine Nat.le_trans (Nat.add_le_add_left (hjoined.trans (Nat.mul_le_mul_left _ h8)) 8) (by decide)

/-! ## The whole way down -/

/-- The relay's answers, in whatever order the workers send them, over the
front-end and the WebSocket, cut anywhere: the bridge's polls return the first
of them, each once, in order, and all of them in the end; and the pushes of each
put it on the calculator's screen, starting from a deck that has set N to 0. -/
theorem answers_reach_screen {glyph : Bytes → Str} (hg : GlyphOk glyph) {outcomes : List Outcome} {frames : List Bytes}
    (hanswers : List.Forall₂ Answers outcomes frames) {tcp : List (Chunk UInt8)} (htcp : Ends tcp)
    (hitems : items tcp = frames.flatMap framedBytes) {ws : List WsBridge.Event} (hws : downOf ws <+: tcpFrames tcp)
    {messages : List Frame} {reads : List (Chunk UInt8)} (masks : Nat → Mask) (hstream : ServerStream messages)
    (hdata : dataAll messages = (run Proxy.step .init ws).1.toPeer.flatten) (hopen : Source.Open softErrnos reads)
    (hbytes : items reads = encodeAll messages) (k : Nat) :
    let p := (run Proxy.step .init ws).1
    let polled := payloadsOf (polls wsRecv (.init (Client.init [] reads [] masks)) k).2
    polled <+: frames ∧
    (downOf ws = tcpFrames tcp → p.Up → p.Quiet → p.relayTakes → p.peerTakes → stalls reads + frames.length ≤ k →
      polled = frames) ∧
    ∀ (i : Nat) (frame : Bytes), polled[i]? = some frame → ∃ outcome raw, outcomes[i]? = some outcome ∧ Relay.rawPages outcome = .ok raw ∧
      ∀ (env : Nat → SendVarResult) (stored : Nat → Bool) (s : Calc.State), (∀ j, env j = .returned true → stored j = true) →
        s.nums .N = 0 → OnScreen glyph (Relay.layoutRows raw 16 7 8) (pushPaginatedReply env frame) stored s := by
  intro p polled
  have hcap : ∀ f ∈ frames, f.length ≤ 1 <<< 20 := by
    intro f hf
    obtain ⟨i, hi, rfl⟩ := List.getElem_of_mem hf
    exact (hanswers.get (by rw [hanswers.length_eq]; exact hi) hi).length_le
  obtain ⟨sent, hfront, hpeer, hall⟩ := sent_front hcap htcp hitems hws
  have hpeer' : p.toPeer = sent.map framedBytes := hpeer
  obtain ⟨hpolled, -, hwhole⟩ := polls_front (fun f hf => hcap f (hfront.subset hf)) masks hstream
    (hdata.trans (congrArg List.flatten hpeer')) hopen hbytes k
  refine ⟨hpolled.trans hfront, ?_, ?_⟩
  · intro hread hu hquiet hr hp hk
    obtain rfl := hall hread hu hquiet hr hp
    exact hwhole hk
  · intro i frame hi
    have hframe : frames[i]? = some frame := by
      obtain ⟨more, hmore⟩ := hpolled.trans hfront
      rw [← hmore, List.getElem?_append_left (List.getElem?_eq_some_iff.1 hi).1]
      exact hi
    obtain ⟨hlt, rfl⟩ := List.getElem?_eq_some_iff.1 hframe
    have hlt' : i < outcomes.length := by rw [hanswers.length_eq]; exact hlt
    have hanswer := hanswers.get hlt' hlt
    obtain ⟨raw, hraw⟩ := hanswer.raw
    obtain ⟨text, hmade⟩ := hanswer
    refine ⟨_, raw, List.getElem?_eq_getElem hlt', hraw, fun env stored s hstored hN => ?_⟩
    exact pushed_on_screen hg raw (parse_llmReply hraw hmade) env stored hstored hN

/-- The relay's frame of the reply `HI`. -/
def hiFrame : Bytes := (Relay.llmReplyPages (fun _ _ => .ok [.text (str "HI")]) []).toOption.getD []

theorem answers_hi : Answers (.ok [.text (str "HI")]) hiFrame := ⟨[], by decide +kernel⟩

/-- `HI`, cut in two on its way to the front-end, in one message to the client. -/
theorem answers_reach_screen_hi :
    let messages : List Frame := [⟨0x82, none, .short, framedBytes hiFrame, by decide +kernel⟩]
    let reads : List (Chunk UInt8) := [.none, .data (encodeAll messages)]
    payloadsOf (polls wsRecv (.init (Client.init [] reads [] fun _ => ⟨[1, 2, 3, 4], rfl⟩)) 2).2 = [hiFrame] ∧
      OnScreen renderGlyph (Relay.layoutRows [.text (str "HI")] 16 7 8)
        (pushPaginatedReply (fun _ => .returned true) hiFrame) (fun _ => true) fresh := by
  intro messages reads
  let tcp : List (Chunk UInt8) := [.data [0, 0, 0], .data (120 :: hiFrame), .data []]
  let ws : List WsBridge.Event := [.frame (framedBytes hiFrame), .backward, .backward]
  have hg : GlyphOk renderGlyph := show ∀ e ∈ Tokens.asciiToTok, renderGlyph [e.2] = [e.1] by decide
  have hfits : ∀ p ∈ [hiFrame], Fits p := by
    intro p hp
    obtain rfl := List.mem_singleton.1 hp
    exact lt_of_cap answers_hi.length_le
  have hframed : framedBytes hiFrame = 0 :: 0 :: 0 :: 120 :: hiFrame := by decide +kernel
  have hitems : items tcp = [hiFrame].flatMap framedBytes := by simp [tcp, items, hframed]
  have hframes : tcpFrames tcp = [hiFrame].map frame :=
    tcpFrames_frames hfits trivial (hitems.trans (Relay.framedBytes_all (by simpa using answers_hi.length_le)))
  have hdown : downOf ws = tcpFrames tcp := by
    rw [hframes]
    decide +kernel
  have hfront : downOf ws <+: tcpFrames tcp := ⟨[], (List.append_nil _).trans hdown⟩
  have hstream : ServerStream messages := ⟨by decide +kernel, by decide +kernel⟩
  have hdata : dataAll messages = (run Proxy.step .init ws).1.toPeer.flatten := by decide +kernel
  have hsome : encodeAll messages ≠ [] := by decide +kernel
  have hopen : Source.Open softErrnos reads := by simp [Source.Open, reads, hsome]
  have hbytes : items reads = encodeAll messages := by decide +kernel
  obtain ⟨-, hall, hscreen⟩ := answers_reach_screen hg (.cons answers_hi .nil) (show Ends tcp from trivial) hitems hfront
    (fun _ => ⟨[1, 2, 3, 4], rfl⟩) hstream hdata hopen hbytes 2
  have hpolled := hall hdown ⟨rfl, rfl⟩ (by decide +kernel) rfl rfl (by decide +kernel)
  obtain ⟨outcome, raw, houtcome, hraw, hshown⟩ := hscreen 0 hiFrame (by rw [hpolled]; rfl)
  cases houtcome
  cases hraw
  exact ⟨hpolled, hshown (fun _ => .returned true) (fun _ => true) fresh (fun _ _ => rfl) rfl⟩

end CalcBridge.Deck
