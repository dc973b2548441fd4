import CalcBridge.Console
import CalcBridge.Relay.FrontLog
import CalcBridge.Relay.ModelCall
/-!
# From the front-end to the table (`tools/ws_bridge.py`, `tools/console.py`)

Every connection's events go to one thread pool, which posts them in any order
and gives up on some. `ingest` checks what is posted and inserts it.
-/
open LinkLib LinkLib.Text LinkLib.Runs CalcBridge.Relay CalcBridge.WsBridge

namespace CalcBridge.Console

/-! ## `ingest` -/

/-- The columns of a row. -/
structure Columns where
  tsMs : Json
  direction : Json
  length : Json
  previewHex : Json
  previewAscii : Json
  connId : Json
  note : Json

/-- The answers that are no 200. -/
inductive Refusal where
  /-- 403 "ingest is loopback-only". -/
  | forbidden
  /-- 400 "missing fields". -/
  | missing
  /-- 400 "bad direction". -/
  | direction
  /-- 500: SQLite takes no list and no dict, and no null but for the note. -/
  | column
  deriving DecidableEq, Repr

def required : List String := ["ts_ms", "direction", "length", "preview_hex", "preview_ascii", "conn_id"]

def directions : List String := ["c2s", "s2c", "open", "close", "info"]

/-- `ev[key]`, and `ev.get("note")`. -/
def field (body : List (Str × Json)) (key : String) : Json := (body.lookup (str key)).getD .null

def columns (body : List (Str × Json)) : Columns :=
  ⟨field body "ts_ms", field body "direction", field body "length", field body "preview_hex", field body "preview_ascii",
    field body "conn_id", field body "note"⟩

/-- A value of one of SQLite's types. -/
def scalar : Json → Bool
  | .bool _ | .num .. | .str _ => true
  | _ => false

/-- The columns are what the table takes. -/
def Columns.storable (c : Columns) : Bool :=
  [c.tsMs, c.direction, c.length, c.previewHex, c.previewAscii, c.connId].all scalar &&
    match c.note with
    | .null => true
    | note => scalar note

/-- `body["direction"] in (..)`. -/
def validDirection : Json → Bool
  | .str d => directions.any fun text => str text == d
  | _ => false

/-- `ingest`, of a JSON object. -/
def ingest (loopback : Bool) (body : List (Str × Json)) (s : Store Columns) : Except Refusal Nat × Store Columns :=
  if ¬loopback then (.error .forbidden, s)
  else if ¬required.all fun key => (body.lookup (str key)).isSome then (.error .missing, s)
  else if ¬validDirection (field body "direction") then (.error .direction, s)
  else if ¬(columns body).storable then (.error .column, s)
  else (.ok s.nextId, s.insert (columns body))

/-! ## What is posted -/

def directionText : Direction → String
  | .open => "open"
  | .c2s => "c2s"
  | .s2c => "s2c"
  | .info => "info"
  | .close => "close"

def number (n : Nat) : Json := .num (decimal n) (n == 0)

/-- The object `_post_sync` sends. -/
def objectOf (p : Payload) : List (Str × Json) :=
  [(str "ts_ms", number p.tsMs), (str "direction", .str (str (directionText p.direction))), (str "length", number p.length),
    (str "preview_hex", .str p.previewHex), (str "preview_ascii", .str p.previewAscii), (str "conn_id", .str p.connId),
    (str "note", p.note.elim .null .str)]

/-- The row of an event. -/
def rowOf (p : Payload) : Columns :=
  ⟨number p.tsMs, .str (str (directionText p.direction)), number p.length, .str p.previewHex, .str p.previewAscii,
    .str p.connId, p.note.elim .null .str⟩

theorem columns_object (p : Payload) : columns (objectOf p) = rowOf p := by
  simp only [columns, field, objectOf, rowOf]
  congr 1

/-- What `emit` posts from the same host is never refused. -/
theorem ingest_object (p : Payload) (s : Store Columns) :
    ingest true (objectOf p) s = (.ok s.nextId, s.insert (rowOf p)) := by
  have hrequired : required.all (fun key => ((objectOf p).lookup (str key)).isSome) = true := rfl
  have hdirection : validDirection (field (objectOf p) "direction") = true := by
    show directions.any (fun text => str text == str (directionText p.direction)) = true
    cases p.direction <;> decide
  have hstorable : (rowOf p).storable = true := by
    unfold Columns.storable rowOf
    cases p.note <;> rfl
  rw [ingest, columns_object]
  simp only [hrequired, hdirection, hstorable, not_true_eq_false, if_false]

/-! ## The whole way -/

/-- The connections of the front-end; what they have emitted, with the number
of the connection; what of it is in the thread pool; and the console's table. -/
structure Site where
  conns : List Watched
  emitted : List (Nat × Payload)
  pending : List (Nat × Payload)
  store : Store Columns

def Site.start (history : Store Columns) : Site := ⟨[], [], [], history⟩

inductive Happens where
  | connect (now : Nat) (connId host : Str) (port : Nat) (path : Str)
  /-- A move of connection `i`. -/
  | conn (i : Nat) (m : Move) (now : Nat)
  /-- POST number `k` of the pool comes to the console. -/
  | posted (k : Nat)
  /-- It never does, and `_post_sync` passes over the error. -/
  | lost (k : Nat)

/-- `run_in_executor`, of what connection `i` emits. -/
def Site.submit (s : Site) (i : Nat) (ps : List Payload) : Site :=
  { s with emitted := s.emitted ++ ps.map (i, ·), pending := s.pending ++ ps.map (i, ·) }

def Site.next (s : Site) : Happens → Site
  | .connect now connId host port path =>
    let w := Watched.start now connId host port path
    { s with conns := s.conns ++ [w] }.submit s.conns.length w.log
  | .conn i m now =>
    match s.conns[i]? with
    | some w => { s with conns := s.conns.set i (w.next m now) }.submit i (w.emits m now)
    | none => s
  | .posted k =>
    match s.pending[k]? with
    | some x => { s with pending := s.pending.eraseIdx k, store := (ingest true (objectOf x.2) s.store).2 }
    | none => s
  | .lost k => { s with pending := s.pending.eraseIdx k }

def Site.step (s : Site) (e : Happens) : Site × Unit := (s.next e, ())

/-- The events of every connection are faithful, and are what it emitted. -/
structure Site.Owns (s : Site) : Prop where
  log : ∀ i w, s.conns[i]? = some w → w.Faithful ∧ w.log = (s.emitted.filter (·.1 = i)).map Prod.snd
  known : ∀ x ∈ s.emitted, x.1 < s.conns.length

theorem filter_submitted (i j : Nat) (ps : List Payload) :
    ((ps.map (i, ·)).filter (·.1 = j)).map Prod.snd = if i = j then ps else [] := by
  rw [List.filter_map]
  split
  · rename_i h
    subst h
    simp [Function.comp_def]
  · rename_i h
    simp [Function.comp_def, h]

/-- What connection `i` emits is new in its log and in no other. -/
theorem Site.Owns.submit {s : Site} (h : s.Owns) {i : Nat} (hi : i < s.conns.length) {w w' : Watched} (hw : s.conns[i]? = some w)
    (hfaithful : w'.Faithful) {ps : List Payload} (hlog : w'.log = w.log ++ ps) :
    ({ s with conns := s.conns.set i w' }.submit i ps).Owns := by
  constructor
  · intro j v hv
    simp only [Site.submit] at hv ⊢
    rw [List.filter_append, List.map_append, filter_submitted]
    by_cases hij : i = j
    · subst hij
      rw [List.getElem?_set_self hi, Option.some.injEq] at hv
      subst hv
      rw [if_pos rfl, ← (h.log i w hw).2]
      exact ⟨hfaithful, hlog⟩
    · rw [List.getElem?_set_ne hij] at hv
      rw [if_neg hij, List.append_nil]
      exact h.log j v hv
  · intro x hx
    simp only [Site.submit, List.mem_append] at hx ⊢
    rw [List.length_set]
    rcases hx with hx | hx
    · exact h.known x hx
    · obtain ⟨p, -, rfl⟩ := List.mem_map.1 hx
      exact hi

theorem Site.Owns.connect {s : Site} (h : s.Owns) {w : Watched} (hw : w.Faithful) :
    ({ s with conns := s.conns ++ [w] }.submit s.conns.length w.log).Owns := by
  constructor
  · intro j v hv
    simp only [Site.submit] at hv ⊢
    rw [List.filter_append, List.map_append, filter_submitted]
    rcases Nat.lt_trichotomy j s.conns.length with hj | rfl | hj
    · rw [List.getElem?_append_left hj] at hv
      rw [if_neg (Nat.ne_of_gt hj), List.append_nil]
      exact h.log j v hv
    · rw [List.getElem?_append_right (Nat.le_refl _), Nat.sub_self, List.getElem?_cons_zero, Option.some.injEq] at hv
      subst hv
      have hnone : s.emitted.filter (·.1 = s.conns.length) = [] := by
        rw [List.filter_eq_nil_iff]
        intro x hx
        have := h.known x hx
        simpa using Nat.ne_of_lt this
      rw [if_pos rfl, hnone]
      exact ⟨hw, rfl⟩
    · rw [List.getElem?_eq_none (by rw [List.length_append]; exact hj)] at hv
      cases hv
  · intro x hx
    simp only [Site.submit, List.mem_append, List.length_append] at hx ⊢
    rcases hx with hx | hx
    · exact Nat.lt_succ_of_lt (h.known x hx)
    · obtain ⟨p, -, rfl⟩ := List.mem_map.1 hx
      exact Nat.lt_succ_self _

theorem owns_start (history : Store Columns) : (Site.start history).Owns := by
  constructor
  · intro i w hw
    rw [Site.start, List.getElem?_nil] at hw
    cases hw
  · intro x hx
    cases hx

theorem Site.Owns.next {s : Site} (h : s.Owns) (e : Happens) : (s.next e).Owns := by
  cases e with
  | connect now connId host port path => exact h.connect (faithful_start now connId host port path)
  | conn i m now =>
    unfold Site.next
    dsimp only
    split
    · rename_i w hw
      have hi : i < s.conns.length := (List.getElem?_eq_some_iff.1 hw).1
      exact h.submit hi hw ((h.log i w hw).1.next m now) (w.log_next m now)
    · exact h
  | posted k =>
    unfold Site.next
    dsimp only
    split
    · exact ⟨h.log, h.known⟩
    · exact h
  | lost k => exact ⟨h.log, h.known⟩

/-- Where the emitted events are: in the table, in the pool, or lost. `Loses` and
`Reorders` say whether a POST has been lost and whether one has overtaken another. -/
structure Site.Flows (history : Store Columns) (Loses Reorders : Prop) (s : Site) (arrived lost : List (Nat × Payload)) :
    Prop where
  rows : s.store.rows.map Row.ev = history.rows.map Row.ev ++ arrived.map fun x => rowOf x.2
  all : (arrived ++ s.pending ++ lost).Perm s.emitted
  lossless : ¬Loses → lost = []
  ordered : ¬Loses → ¬Reorders → arrived ++ s.pending = s.emitted

theorem Site.Flows.submit {history : Store Columns} {L R : Prop} {s : Site} {arrived lost : List (Nat × Payload)}
    (h : s.Flows history L R arrived lost) (conns : List Watched) (i : Nat) (ps : List Payload) :
    ({ s with conns := conns }.submit i ps).Flows history L R arrived lost := by
  refine ⟨h.rows, ?_, h.lossless, ?_⟩
  · have hswap : (arrived ++ (s.pending ++ ps.map (i, ·)) ++ lost).Perm (arrived ++ s.pending ++ lost ++ ps.map (i, ·)) := by
      rw [← List.append_assoc, List.append_assoc _ _ lost, List.append_assoc _ lost]
      exact List.perm_append_comm.append_left _
    exact hswap.trans (h.all.append_right _)
  · intro hl hr
    simp only [Site.submit]
    rw [← List.append_assoc, h.ordered hl hr]

theorem first_eraseIdx {α : Type} (l : List α) (h : 0 < l.length) : [l[0]] ++ l.eraseIdx 0 = l := by
  cases l with
  | nil => cases h
  | cons x l => rfl

/-- The POST that comes to the console is one of the pool. -/
theorem Site.Flows.posted {history : Store Columns} {L R : Prop} {s : Site} {arrived lost : List (Nat × Payload)}
    (h : s.Flows history L R arrived lost) {k : Nat} {x : Nat × Payload} (hx : s.pending[k]? = some x) :
    Site.Flows history L (R ∨ k ≠ 0)
      { s with pending := s.pending.eraseIdx k, store := (ingest true (objectOf x.2) s.store).2 } (arrived ++ [x]) lost := by
  obtain ⟨hk, rfl⟩ := List.getElem?_eq_some_iff.1 hx
  refine ⟨?_, ?_, h.lossless, ?_⟩
  · simp only [ingest_object, Store.insert, List.map_append, h.rows, List.append_assoc]
    rfl
  · have hperm : (arrived ++ [s.pending[k]] ++ s.pending.eraseIdx k ++ lost).Perm (arrived ++ s.pending ++ lost) := by
      rw [List.append_assoc arrived]
      exact ((List.getElem_cons_eraseIdx_perm hk).append_left _).append_right _
    exact hperm.trans h.all
  · intro hl hr
    rw [not_or, not_not] at hr
    obtain ⟨hr, rfl⟩ := hr
    rw [← h.ordered hl hr, List.append_assoc]
    exact congrArg (arrived ++ ·) (first_eraseIdx s.pending hk)

theorem Site.Flows.lost {history : Store Columns} {L R : Prop} {s : Site} {arrived lost : List (Nat × Payload)}
    (h : s.Flows history L R arrived lost) (k : Nat) :
    ∃ lost', Site.Flows history True R { s with pending := s.pending.eraseIdx k } arrived lost' := by
  by_cases hk : k < s.pending.length
  · refine ⟨s.pending[k] :: lost, h.rows, ?_, fun hl => absurd trivial hl, fun hl => absurd trivial hl⟩
    have hperm : (s.pending.eraseIdx k ++ s.pending[k] :: lost).Perm (s.pending ++ lost) :=
      List.perm_middle.trans ((List.getElem_cons_eraseIdx_perm hk).append_right lost)
    rw [List.append_assoc]
    exact (hperm.append_left arrived).trans (List.append_assoc .. ▸ h.all)
  · refine ⟨lost, h.rows, ?_, fun hl => absurd trivial hl, fun hl => absurd trivial hl⟩
    simp only [List.eraseIdx_of_length_le (Nat.le_of_not_lt hk)]
    exact h.all

theorem Site.Flows.mono {history : Store Columns} {L L' R R' : Prop} {s : Site} {arrived lost : List (Nat × Payload)}
    (h : s.Flows history L R arrived lost) (hL : L → L') (hR : R → R') : s.Flows history L' R' arrived lost :=
  ⟨h.rows, h.all, fun hl => h.lossless (mt hL hl), fun hl hr => h.ordered (mt hL hl) (mt hR hr)⟩

/-- A POST has been lost. -/
def Loses (es : List Happens) : Prop := ∃ k, .lost k ∈ es

/-- A POST has come before an earlier one. -/
def Reorders (es : List Happens) : Prop := ∃ k, .posted k ∈ es ∧ k ≠ 0

theorem flows_start (history : Store Columns) : (Site.start history).Flows history (Loses []) (Reorders []) [] [] := by
  refine ⟨?_, .nil, fun _ => rfl, fun _ _ => rfl⟩
  rw [List.map_nil, List.append_nil, Site.start]

theorem Site.Flows.next {history : Store Columns} {es : List Happens} {s : Site} {arrived lost : List (Nat × Payload)}
    (h : s.Flows history (Loses es) (Reorders es) arrived lost) (e : Happens) :
    ∃ arrived' lost', (s.next e).Flows history (Loses (es ++ [e])) (Reorders (es ++ [e])) arrived' lost' := by
  have hL : Loses es → Loses (es ++ [e]) := fun ⟨k, hk⟩ => ⟨k, List.mem_append_left _ hk⟩
  have hR : Reorders es → Reorders (es ++ [e]) := fun ⟨k, hk, hne⟩ => ⟨k, List.mem_append_left _ hk, hne⟩
  have hsame := h.mono hL hR
  have hlast : e ∈ es ++ [e] := List.mem_append_right _ (List.mem_singleton_self e)
  cases e with
  | connect now connId host port path => exact ⟨arrived, lost, hsame.submit _ _ _⟩
  | conn i m now =>
    unfold Site.next
    dsimp only
    split
    · exact ⟨arrived, lost, hsame.submit _ _ _⟩
    · exact ⟨arrived, lost, hsame⟩
  | posted k =>
    unfold Site.next
    dsimp only
    split
    · rename_i x hx
      refine ⟨_, lost, (h.posted hx).mono hL ?_⟩
      rintro (hr | hk)
      · exact hR hr
      · exact ⟨k, hlast, hk⟩
    · exact ⟨arrived, lost, hsame⟩
  | lost k =>
    obtain ⟨lost', hflows⟩ := h.lost k
    exact ⟨arrived, lost', hflows.mono (fun _ => ⟨k, hlast⟩) hR⟩

/-- What any number of connections emit and what the console has in its table,
after any interleaving of their traffic and the POSTs: every connection's events
tell its traffic, each event is in the table at most once, with all it says, and
unless a POST is lost or waits in the pool all of them are there, in order if
none overtakes another. -/
theorem console_log (history : Store Columns) (es : List Happens) :
    let s := (run Site.step (.start history) es).1
    s.Owns ∧ ∃ arrived lost, s.Flows history (Loses es) (Reorders es) arrived lost := by
  have h : ((run Site.step (.start history) es).1).Owns ∧ ∃ arrived lost, (run Site.step (.start history) es).1.Flows history
      (Loses ((run Site.step (.start history) es).2.map Prod.fst)) (Reorders ((run Site.step (.start history) es).2.map Prod.fst))
      arrived lost := by
    refine run_keeps (fun (h : List (Happens × Unit)) (s : Site) =>
      s.Owns ∧ ∃ arrived lost, s.Flows history (Loses (h.map Prod.fst)) (Reorders (h.map Prod.fst)) arrived lost) ?_ ?_ es
    · exact ⟨owns_start history, [], [], flows_start history⟩
    · rintro h s e ⟨howns, arrived, lost, hflows⟩
      have hstep : (s.step e).1 = s.next e := rfl
      rw [hstep, List.map_append]
      exact ⟨howns.next e, hflows.next e⟩
  rwa [run_events] at h

end CalcBridge.Console
