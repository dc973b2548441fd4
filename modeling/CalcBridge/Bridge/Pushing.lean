import CalcBridge.Bridge.Pages
import CalcBridge.LinkLib.Attempts
/-!
# Pushes that fail (`src/bridge.py`, `_push_paginated_reply`)

The pushes of a reply are a plan: the pages in the order of their slots, then
the count. The bridge tries it until one push fails, whatever the frame was
and however each push ends.
-/
open LinkLib LinkLib.Text LinkLib.Attempts CalcBridge.Tokens CalcBridge.Vartypes

namespace CalcBridge.Bridge

/-- `_push_one_str`'s call of `send_var`. -/
def pagePush (x : Bytes × Str) : VarPush := ⟨tString, x.1, asciiToStrPayload x.2, 0x73⟩

/-- `_push_pagecount`'s. -/
def countPush (n : Nat) : VarPush := ⟨tReal, pagecountName, encodeReal (.ofNat n), 0x73⟩

/-- The pages a frame has room for. -/
def pagesToPush (frame : Bytes) : List Str := (parsePagesFrame frame).take maxPages

/-- Page `i` in slot `i`, and then the count. -/
def pushPlan (frame : Bytes) : List VarPush :=
  (pageStrNames.zip (pagesToPush frame)).map pagePush ++ [countPush (pagesToPush frame).length]

/-- The push went through. -/
def Succeeds (env : Nat → SendVarResult) (i : Nat) : Bool := env i = .returned true

theorem trySendVar_eq (env : Nat → SendVarResult) (p : VarPush) (log : List VarPush) :
    trySendVar env p log = (Succeeds env log.length, log ++ [p]) := by
  unfold trySendVar Succeeds
  cases env log.length with
  | returned ok => cases ok <;> rfl
  | raised => rfl

theorem pushPages_eq_tryAll (env : Nat → SendVarResult) (l : List (Bytes × Str)) (log : List VarPush) :
    pushPages env l log = tryAll (Succeeds env) (l.map pagePush) log := by
  induction l generalizing log with
  | nil => rfl
  | cons x l ih =>
    obtain ⟨name8, page⟩ := x
    rw [pushPages, pushOneStr, trySendVar_eq]
    dsimp only
    rw [ih]
    rfl

theorem parsePagesFrame_ne_nil (frame : Bytes) : parsePagesFrame frame ≠ [] := by
  have hpages : ∀ pages : List Str, (if pages = [] then [[]] else pages) ≠ [] := by
    intro pages
    split
    · exact List.cons_ne_nil _ _
    · assumption
  unfold parsePagesFrame
  split
  · split
    · exact List.cons_ne_nil _ _
    · exact hpages _
  · exact List.cons_ne_nil _ _

/-- `_push_paginated_reply` tries the plan. -/
theorem pushPaginatedReply_eq (env : Nat → SendVarResult) (frame : Bytes) :
    pushPaginatedReply env frame = tryAll (Succeeds env) (pushPlan frame) [] := by
  have hcount (log : List VarPush) : pushPagecount env (pagesToPush frame).length log =
      tryAll (Succeeds env) [countPush (pagesToPush frame).length] log := by
    rw [pushPagecount, trySendVar_eq, tryAll]
    cases Succeeds env log.length <;> rfl
  rw [pushPlan, tryAll_append, ← pushPages_eq_tryAll, ← hcount, pushPaginatedReply]
  dsimp only
  rw [if_neg (parsePagesFrame_ne_nil frame), ← pagesToPush]
  cases hpages : pushPages env (pageStrNames.zip (pagesToPush frame)) [] with
  | mk ok log => cases ok <;> rfl

/-- For every frame and every way the pushes end: the pages go to Str3..Str9,
Str0 in order and then the count to N, up to the first push that fails. All of
it went through exactly when the bridge says so, and the count is pushed only
after all the pages it counts. -/
theorem push_reply_attempts (env : Nat → SendVarResult) (frame : Bytes) :
    let pages := (parsePagesFrame frame).take 8
    let plan := ((pageStrNames.zip pages).map fun x => (⟨tString, x.1, asciiToStrPayload x.2, 0x73⟩ : VarPush)) ++
      [⟨tReal, pagecountName, encodeReal (.ofNat pages.length), 0x73⟩]
    let r := pushPaginatedReply env frame
    pageStrNames.map Except.ok = [3, 4, 5, 6, 7, 8, 9, 0].map strName ∧ 1 ≤ pages.length ∧ pages.length ≤ 8 ∧
    parseRealParts (encodeReal (.ofNat pages.length)) = (1, 0, pages.length * 10 ^ 13) ∧
    r.2 <+: plan ∧ (∀ i, i + 1 < r.2.length → env i = .returned true) ∧
    (r.1 = false → ∃ i, r.2.length = i + 1 ∧ env i ≠ .returned true) ∧
    (r.1 = true ↔ r.2 = plan ∧ ∀ i < plan.length, env i = .returned true) ∧
    ∀ p ∈ r.2, p.typeId = tReal → r.2 = plan ∧ ∀ i < pages.length, env i = .returned true := by
  intro pages plan r
  have hpos : 1 ≤ pages.length := by
    have := List.length_pos_iff.2 (parsePagesFrame_ne_nil frame)
    simp only [pages, List.length_take]
    omega
  have h8 : pages.length ≤ 8 := List.length_take_le 8 _
  have htried : Tried (Succeeds env) plan 0 r.2 r.1 := by
    have hr : r = tryAll (Succeeds env) plan [] := pushPaginatedReply_eq env frame
    rw [hr]
    exact tried_from_start plan
  have hok (i : Nat) : Succeeds env (0 + i) = true ↔ env i = .returned true := by
    rw [Nat.zero_add]
    exact decide_eq_true_iff
  refine ⟨rfl, hpos, h8, pagecount_real hpos h8, htried.prefix_plan, ?_, ?_, ?_, ?_⟩
  · intro i hi
    exact (hok i).1 (htried.before_last i hi)
  · intro hall
    obtain ⟨i, hi, hfail⟩ := htried.failed hall
    exact ⟨i, hi, fun h => Bool.false_ne_true (hfail.symm.trans ((hok i).2 h))⟩
  · rw [htried.all_iff]
    exact and_congr_right' (forall₂_congr fun i _ => hok i)
  · intro p hp hreal
    have hcount : ¬ r.2 <+: (pageStrNames.zip pages).map pagePush := by
      intro hpages
      -- A page's push is no real.
      obtain ⟨x, -, rfl⟩ := List.mem_map.1 (hpages.subset hp)
      exact absurd hreal (show ¬ tString = tReal by decide)
    obtain ⟨hdone, hsucceed⟩ := htried.last_after hcount
    refine ⟨hdone, fun i hi => (hok i).1 (hsucceed i ?_)⟩
    rw [List.length_map, List.length_zip, Nat.min_eq_right (Nat.le_trans h8 (by decide))]
    exact hi

end CalcBridge.Bridge
