import CalcBridge.Console.Reconnects
import Mathlib.Data.List.DropRight
/-!
# The console script (`tools/console.py`, `INDEX_HTML`)

The script appends what the two requests of `connect` bring, holds it back while
paused and keeps the last 500 rows. The rows on the page are followed through
any run: inserts, requests, streamed events, a failed fetch, a dropped
stream and the two buttons, in any order.
-/
open LinkLib LinkLib.Runs

namespace CalcBridge.Console

variable {ε : Type}

/-- `MAX_ROWS`. -/
def maxRows : Nat := 500

/-- The script's variables, the rows of the table and whether `emptyEl` is shown. -/
structure Page (ε : Type) where
  paused : Bool
  pending : List (Row ε)
  rows : List (Row ε)
  empty : Bool
  deriving DecidableEq

def Page.init : Page ε := ⟨false, [], [], true⟩

/-- `while (rowsEl.children.length > MAX_ROWS) rowsEl.removeChild(rowsEl.firstChild);` -/
def trim (max : Nat) : List (Row ε) → List (Row ε)
  | [] => []
  | r :: rs => if max < (r :: rs).length then trim max rs else r :: rs

/-- `append`. -/
def Page.append (p : Page ε) (r : Row ε) : Page ε :=
  if p.paused then { p with pending := p.pending ++ [r] }
  else { p with rows := trim maxRows (p.rows ++ [r]), empty := false }

/-- A click on `pauseBtn`. -/
def Page.pause (p : Page ε) : Page ε :=
  let p := { p with paused := !p.paused }
  if ¬p.paused ∧ p.pending.length ≠ 0 then p.pending.foldl Page.append { p with pending := [] } else p

/-- A click on `clearBtn`. -/
def Page.clear (p : Page ε) : Page ε := { p with rows := [], empty := true }

/-- The server's side of a page, and the page. -/
structure Tab (ε : Type) where
  server : State ε
  page : Page ε

inductive Act (ε : Type) where
  | line (a : Line ε)
  | pause
  | clear

/-- What a step of the server sends the page. -/
def State.sends (s : State ε) : Line ε → List (Row ε)
  | .server .events => if s.stage = .opened then s.store.recent 0 200 else []
  | .server .deliver => s.queue.take 1
  | _ => []

def Tab.next (t : Tab ε) : Act ε → Tab ε
  | .line a => ⟨t.server.nextLine a, (t.server.sends a).foldl Page.append t.page⟩
  | .pause => { t with page := t.page.pause }
  | .clear => { t with page := t.page.clear }

def Tab.step (t : Tab ε) (a : Act ε) : Tab ε × Unit := (t.next a, ())

/-- A page is opened on a stored history. -/
def Tab.init (history : Store ε) : Tab ε := ⟨.init history, .init⟩

/-! ## The last rows -/

theorem trim_eq (max : Nat) (rows : List (Row ε)) : trim max rows = rows.rtake max := by
  induction rows with
  | nil => rw [trim, List.rtake_nil]
  | cons r rs ih =>
    rw [trim]
    split
    · rename_i hlt
      rw [ih, List.rtake, List.rtake]
      rw [List.length_cons] at hlt
      obtain ⟨k, hk⟩ : ∃ k, rs.length + 1 - max = k + 1 := ⟨rs.length - max, by omega⟩
      rw [List.length_cons, hk, List.drop_succ_cons]
      congr 1
      omega
    · rename_i hle
      rw [List.rtake, Nat.sub_eq_zero_of_le (Nat.le_of_not_lt hle), List.drop_zero]

/-- Dropping before more is added drops nothing that would have stayed. -/
theorem rtake_rtake_append {α : Type} (n : Nat) (xs ys : List α) : (xs.rtake n ++ ys).rtake n = (xs ++ ys).rtake n := by
  simp only [List.rtake_eq_reverse_take_reverse, List.reverse_append, List.reverse_reverse, List.take_append,
    List.take_take, List.length_reverse]
  rw [Nat.min_eq_left (Nat.sub_le _ _)]

/-- The rows of a page are the last of `shown`. -/
structure Page.Shows (p : Page ε) (shown : List (Row ε)) : Prop where
  rows : p.rows = shown.rtake maxRows
  pending : p.paused = false → p.pending = []
  empty : p.empty = true ↔ p.rows = []

theorem Page.shows_init : (Page.init : Page ε).Shows [] := ⟨by simp [Page.init], fun _ => rfl, by simp [Page.init]⟩

theorem Page.append_paused {p : Page ε} (h : p.paused = true) (r : Row ε) :
    p.append r = { p with pending := p.pending ++ [r] } := if_pos h

theorem Page.append_running {p : Page ε} (h : p.paused = false) (r : Row ε) :
    p.append r = { p with rows := trim maxRows (p.rows ++ [r]), empty := false } := if_neg (by simp [h])

theorem Page.appends_paused {p : Page ε} (h : p.paused = true) (rs : List (Row ε)) :
    rs.foldl Page.append p = { p with pending := p.pending ++ rs } := by
  induction rs generalizing p with
  | nil => simp
  | cons r rs ih =>
    rw [List.foldl_cons, Page.append_paused h]
    simpa using ih (p := { p with pending := p.pending ++ [r] }) h

/-- A page that is not paused shows what is appended. -/
theorem Page.Shows.appends {p : Page ε} {shown : List (Row ε)} (h : p.Shows shown) (hp : p.paused = false) (rs : List (Row ε)) :
    (rs.foldl Page.append p).Shows (shown ++ rs) ∧ (rs.foldl Page.append p).pending = [] ∧
      (rs.foldl Page.append p).paused = false := by
  induction rs generalizing p shown with
  | nil => simpa using ⟨h, h.pending hp, hp⟩
  | cons r rs ih =>
    have hr : (p.append r).Shows (shown ++ [r]) := by
      rw [Page.append_running hp]
      refine ⟨?_, h.pending, ?_⟩
      · rw [trim_eq, h.rows, rtake_rtake_append]
      · have hne : trim maxRows (p.rows ++ [r]) ≠ [] := by
          rw [trim_eq, maxRows, List.rtake_concat_succ]
          simp
        simp [hne]
    have hpaused : (p.append r).paused = false := by rw [Page.append_running hp]; exact hp
    simpa using ih hr hpaused

/-- What a click on `pauseBtn` does: hold back, or show what was held back. -/
theorem Page.Shows.pause {p : Page ε} {shown : List (Row ε)} (h : p.Shows shown) :
    ∃ more, p.pending = more ++ p.pause.pending ∧ p.pause.Shows (shown ++ more) := by
  cases hp : p.paused with
  | false =>
    refine ⟨[], ?_, ?_⟩
    · simp [Page.pause, hp]
    · simpa [Page.pause, hp] using ⟨h.rows, nofun, h.empty⟩
  | true =>
    refine ⟨p.pending, ?_⟩
    have hrun := Page.Shows.appends (p := { p with paused := false, pending := [] }) ⟨h.rows, fun _ => rfl, h.empty⟩ rfl
      p.pending
    by_cases hnil : p.pending = []
    · simpa [Page.pause, hp, hnil] using ⟨h.rows, fun _ => rfl, h.empty⟩
    · have hpause : p.pause = p.pending.foldl Page.append { p with paused := false, pending := [] } := by
        simp [Page.pause, hp, hnil]
      rw [hpause]
      simp [hrun]

/-- What a page does with what it is sent: the oldest of it is shown, the rest held back. -/
theorem Page.Shows.receives {p : Page ε} {shown : List (Row ε)} (h : p.Shows shown) (rs : List (Row ε)) :
    ∃ more, p.pending ++ rs = more ++ (rs.foldl Page.append p).pending ∧ (rs.foldl Page.append p).Shows (shown ++ more) := by
  cases hp : p.paused with
  | false =>
    obtain ⟨hshows, hpending, -⟩ := h.appends hp rs
    exact ⟨rs, by rw [h.pending hp, hpending]; simp, hshows⟩
  | true =>
    refine ⟨[], ?_, ?_⟩
    · rw [Page.appends_paused hp]
      rfl
    · rw [Page.appends_paused hp, List.append_nil]
      exact ⟨h.rows, by simp [hp], h.empty⟩

/-! ## The server's side -/

/-- What is sent is what the page is given. -/
theorem State.Inv.appended_next {s : State ε} (h : s.Inv) (a : Line ε) : (s.nextLine a).appended = s.appended ++ s.sends a := by
  cases a with
  | server e =>
    cases e with
    | insert ev => simp [State.nextLine, State.next, State.sends]
    | events =>
      by_cases hstage : s.stage = .opened
      · rw [State.nextLine, next_events hstage, h.appended hstage]
        simp [State.sends, hstage]
      · simp [State.nextLine, State.next, State.sends, hstage]
    | stream => by_cases hstage : s.stage = .loaded <;> simp [State.nextLine, State.next, State.sends, hstage]
    | deliver => cases hqueue : s.queue <;> simp [State.nextLine, State.next, State.sends, hqueue]
  | fails => by_cases hstage : s.stage = .opened <;> simp [State.nextLine, State.sends, hstage]
  | drops => by_cases hstage : s.stage = .streaming <;> simp [State.nextLine, State.sends, hstage]

theorem Tab.inv_next {t : Tab ε} (h : t.server.Inv) (a : Act ε) : (t.next a).server.Inv := by
  cases a with
  | line a => exact h.nextLine a
  | pause => exact h
  | clear => exact h

/-- The step loses no event: the queue has room, the snapshot is whole and nothing comes while there is no subscription. -/
def Tab.Keeps (t : Tab ε) : Act ε → Prop
  | .line a => t.server.Lossless a
  | _ => True

theorem Tab.complete_next {t : Tab ε} (h : t.server.Inv) (hc : t.server.Complete) {a : Act ε} (hk : t.Keeps a) :
    (t.next a).server.Complete := by
  cases a with
  | line a => exact (complete_line h a).2 ⟨hc, hk⟩
  | pause => exact hc
  | clear => exact hc

/-! ## The page over a run -/

/-- Everything sent since `old`: the rows shown, then those held back. -/
def Tab.Has (old shown : List (Row ε)) (t : Tab ε) : Prop :=
  t.server.appended = old ++ shown ++ t.page.pending ∧ t.page.Shows shown

theorem Tab.Has.next {old shown : List (Row ε)} {t : Tab ε} (h : t.Has old shown) (hs : t.server.Inv) {a : Act ε}
    (ha : a ≠ .clear) :
    ∃ more, (t.next a).Has old (shown ++ more) := by
  obtain ⟨happended, hshows⟩ := h
  cases a with
  | line a =>
    obtain ⟨more, hmore, hshows'⟩ := hshows.receives (t.server.sends a)
    refine ⟨more, ?_, hshows'⟩
    have hsent := hs.appended_next a
    rw [happended, List.append_assoc, hmore] at hsent
    simpa [Tab.next] using hsent
  | pause =>
    obtain ⟨more, hmore, hshows'⟩ := hshows.pause
    refine ⟨more, ?_, hshows'⟩
    rw [hmore] at happended
    simpa [Tab.next] using happended
  | clear => exact absurd rfl ha

theorem Tab.inv_run {t : Tab ε} (h : t.server.Inv) (as : List (Act ε)) : (run Tab.step t as).1.server.Inv := by
  induction as generalizing t with
  | nil => exact h
  | cons a as ih => exact ih (Tab.inv_next h a)

theorem Tab.complete_run {t : Tab ε} (h : t.server.Inv) (hc : t.server.Complete) {as : List (Act ε)}
    (hk : Holds Tab.step Tab.Keeps t as) : (run Tab.step t as).1.server.Complete := by
  induction as generalizing t with
  | nil => exact hc
  | cons a as ih => exact ih (Tab.inv_next h a) (Tab.complete_next h hc hk.1) hk.2

theorem Tab.Has.run {old shown : List (Row ε)} {t : Tab ε} (h : t.Has old shown) (hs : t.server.Inv) {as : List (Act ε)}
    (has : Act.clear ∉ as) : ∃ more, (run Tab.step t as).1.Has old (shown ++ more) := by
  induction as generalizing t shown with
  | nil => exact ⟨[], by simpa using h⟩
  | cons a as ih =>
    obtain ⟨hne, has⟩ := not_or.1 (mt List.mem_cons.2 has)
    obtain ⟨more, hmore⟩ := h.next hs (Ne.symm hne)
    obtain ⟨more', hrun⟩ := ih hmore (Tab.inv_next hs a) has
    exact ⟨more ++ more', by rw [← List.append_assoc]; exact hrun⟩

theorem Tab.has_run {t : Tab ε} (h : ∃ old shown, t.Has old shown) (hs : t.server.Inv) (as : List (Act ε)) :
    ∃ old shown, (run Tab.step t as).1.Has old shown := by
  induction as generalizing t with
  | nil => exact h
  | cons a as ih =>
    refine ih ?_ (Tab.inv_next hs a)
    obtain ⟨old, shown, h⟩ := h
    by_cases ha : a = .clear
    · obtain ⟨happended, hshows⟩ := h
      refine ⟨old ++ shown, [], ?_⟩
      rw [ha]
      exact ⟨by simpa [Tab.step, Tab.next, Page.clear] using happended, by simp [Tab.step, Tab.next, Page.clear],
        hshows.pending, by simp [Tab.step, Tab.next, Page.clear]⟩
    · obtain ⟨more, hmore⟩ := h.next hs ha
      exact ⟨old, shown ++ more, hmore⟩

theorem nil_of_rtake {shown : List (Row ε)} (h : shown.rtake maxRows = []) : shown = [] := by
  rw [List.rtake, List.drop_eq_nil_iff, maxRows] at h
  apply List.eq_nil_of_length_eq_zero
  omega

/-- In every run, from any moment when the table was empty (the start, or a
clear) and until it is cleared again: the rows are the last 500 of what came
since, in the order of their ids, each once; a pause only holds rows back. A run
that loses no event has everything that is stored. -/
theorem page_shows (history : Store ε) (before after : List (Act ε))
    (hempty : (run Tab.step (Tab.init history) before).1.page.rows = []) (hclear : Act.clear ∉ after) :
    let b := (run Tab.step (Tab.init history) before).1
    let t := (run Tab.step b after).1
    ∃ old shown, b.server.appended = old ++ b.page.pending ∧ t.server.appended = old ++ shown ++ t.page.pending ∧
      t.page.rows = shown.rtake maxRows ∧ (t.page.paused = false → t.page.pending = []) ∧
      (t.page.empty = true ↔ t.page.rows = []) ∧
      (t.page.rows ++ t.page.pending ++ t.server.queue).Sublist t.server.store.rows ∧
      (Holds Tab.step Tab.Keeps (Tab.init history) (before ++ after) → t.server.stage ≠ .opened →
        t.server.store.rows = old ++ shown ++ t.page.pending ++ t.server.queue) := by
  intro b t
  have hinit : (Tab.init history).server.Inv := State.inv_init history
  obtain ⟨old, shown₀, happended, hshows⟩ := Tab.has_run ⟨[], [], rfl, Page.shows_init⟩ hinit before
  have hshown₀ : shown₀ = [] := nil_of_rtake (hshows.rows.symm.trans hempty)
  subst hshown₀
  have hb : b.Has old [] := ⟨happended, hshows⟩
  obtain ⟨shown, hsent, ht⟩ := hb.run (Tab.inv_run hinit before) hclear
  have hinv : t.server.Inv := Tab.inv_run (Tab.inv_run hinit before) after
  rw [List.nil_append] at hsent ht
  refine ⟨old, shown, by simpa using hb.1, hsent, ht.rows, ht.pending, ht.empty, ?_, ?_⟩
  · refine List.Sublist.trans ?_ hinv.seen
    rw [State.seen, hsent, ht.rows]
    simp only [List.append_assoc]
    exact ((List.drop_sublist _ _).append (List.Sublist.refl _)).trans (List.sublist_append_right _ _)
  · intro hkeeps hne
    have hrun : t = (run Tab.step (Tab.init history) (before ++ after)).1 := by rw [run_append]
    have hcomplete : t.server.Complete := by
      rw [hrun]
      exact Tab.complete_run hinit (absurd rfl) hkeeps
    rw [← hcomplete hne, State.seen, hsent]

/-- An event is held back over a clear and shown after the pause. -/
theorem page_shows_paused :
    let before : List (Act Nat) := [.line (.server (.insert 7)), .line (.server .events), .pause, .clear]
    let after : List (Act Nat) := [.line (.server .stream), .line (.server (.insert 8)), .line (.server .deliver), .pause]
    let b := (run Tab.step (Tab.init Store.empty) before).1
    let t := (run Tab.step b after).1
    t.page.rows = [⟨2, 8⟩] ∧ ∃ old shown, b.server.appended = old ++ b.page.pending ∧
      t.server.store.rows = old ++ shown ++ t.page.pending ++ t.server.queue := by
  intro before after b t
  obtain ⟨old, shown, hold, -, -, -, -, -, hall⟩ := page_shows Store.empty before after rfl (by simp [after])
  refine ⟨by decide, old, shown, hold, hall ?_ (by decide)⟩
  simp [before, after, Holds, Tab.Keeps, Tab.step, Tab.next, Tab.init, State.Lossless, State.Room, State.NoGap, State.nextLine,
    State.next, State.init, Store.insert, Store.empty, queueMax]

end CalcBridge.Console
