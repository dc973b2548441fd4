import Mathlib.Logic.Relation
import Mathlib.Data.List.Basic
/-!
# Programs of lines with labels

A program is a list of lines: actions, labels, jumps, an `If` that skips the
next line, and `Repeat` blocks whose test is made at their `End`. What an
action does and when a test holds are parameters. A configuration holds the
lines left, so a jump is a search for its label in the whole program.
-/

namespace LinkLib.Lines

inductive Line (L A C : Type) where
  | act (a : A)
  | lbl (l : L)
  | goto (l : L)
  /-- Runs the next line when the test holds and skips it when not. -/
  | whenNext (c : C)
  | repeatUntil (c : C)
  | endBlock
  | ret
  deriving DecidableEq, Repr

/-- What the actions and tests do. An action that cannot go on says why. -/
structure Meaning (A C σ ω : Type) where
  exec : A → σ → Except ω σ
  test : C → σ → Bool

/-- The lines left, the open blocks with their tests and bodies, and the state. -/
structure Config (L A C σ : Type) where
  code : List (Line L A C)
  blocks : List (C × List (Line L A C))
  state : σ

inductive Stop (ω : Type) where
  | returned
  | noLabel
  | noBlock
  | because (why : ω)
  deriving DecidableEq, Repr

variable {L A C σ ω : Type} [DecidableEq L]

/-- The lines after the first `lbl l`. -/
def findLabel (l : L) : List (Line L A C) → Option (List (Line L A C))
  | [] => none
  | .lbl l' :: rest => if l' = l then some rest else findLabel l rest
  | _ :: rest => findLabel l rest

def step (m : Meaning A C σ ω) (prog : List (Line L A C)) (c : Config L A C σ) :
    Except (Stop ω) (Config L A C σ) :=
  match c.code with
  | [] => .error .returned
  | .act a :: rest =>
    match m.exec a c.state with
    | .ok s => .ok ⟨rest, c.blocks, s⟩
    | .error why => .error (.because why)
  | .lbl _ :: rest => .ok ⟨rest, c.blocks, c.state⟩
  | .goto l :: _ =>
    match findLabel l prog with
    | some code => .ok ⟨code, c.blocks, c.state⟩
    | none => .error .noLabel
  | .whenNext b :: rest => .ok ⟨if m.test b c.state then rest else rest.drop 1, c.blocks, c.state⟩
  | .repeatUntil b :: rest => .ok ⟨rest, (b, rest) :: c.blocks, c.state⟩
  | .endBlock :: rest =>
    match c.blocks with
    | [] => .error .noBlock
    | (b, body) :: blocks =>
      if m.test b c.state then .ok ⟨rest, blocks, c.state⟩ else .ok ⟨body, (b, body) :: blocks, c.state⟩
  | .ret :: _ => .error .returned

/-- The run from `c` passes through `c'`. -/
def Reaches (m : Meaning A C σ ω) (prog : List (Line L A C)) : Config L A C σ → Config L A C σ → Prop :=
  Relation.ReflTransGen fun c c' => step m prog c = .ok c'

/-- The run from `c` stops with `o` in state `s`. -/
def Ends (m : Meaning A C σ ω) (prog : List (Line L A C)) (c : Config L A C σ) (o : Stop ω) (s : σ) : Prop :=
  ∃ c', Reaches m prog c c' ∧ step m prog c' = .error o ∧ c'.state = s

variable {m : Meaning A C σ ω} {prog : List (Line L A C)}

theorem Reaches.trans {a b c : Config L A C σ} (h : Reaches m prog a b) (h' : Reaches m prog b c) :
    Reaches m prog a c := Relation.ReflTransGen.trans h h'

theorem Reaches.head {a b c : Config L A C σ} (h : step m prog a = .ok b) (h' : Reaches m prog b c) :
    Reaches m prog a c := Relation.ReflTransGen.head h h'

theorem Reaches.refl (a : Config L A C σ) : Reaches m prog a a := Relation.ReflTransGen.refl

theorem Reaches.ends {a b : Config L A C σ} {o : Stop ω} {s : σ} (h : Reaches m prog a b)
    (h' : Ends m prog b o s) : Ends m prog a o s := by
  obtain ⟨c, hc, hs⟩ := h'
  exact ⟨c, h.trans hc, hs⟩

/-- A run stops in one way only. -/
theorem ends_unique {c : Config L A C σ} {o o' : Stop ω} {s s' : σ} (h : Ends m prog c o s)
    (h' : Ends m prog c o' s') : o = o' ∧ s = s' := by
  obtain ⟨d, hd, ho, rfl⟩ := h
  obtain ⟨d', hd', ho', rfl⟩ := h'
  induction hd using Relation.ReflTransGen.head_induction_on with
  | refl =>
    cases Relation.ReflTransGen.cases_head hd' with
    | inl he =>
      subst he
      rw [ho] at ho'
      cases ho'
      exact ⟨rfl, rfl⟩
    | inr hx =>
      obtain ⟨x, hx, -⟩ := hx
      rw [ho] at hx
      cases hx
  | head hab hbc ih =>
    cases Relation.ReflTransGen.cases_head hd' with
    | inl he =>
      subst he
      rw [hab] at ho'
      cases ho'
    | inr hx =>
      obtain ⟨x, hx, hr⟩ := hx
      rw [hab] at hx
      cases hx
      exact ih hr

/-! ## One line -/

section One
variable {rest : List (Line L A C)} {bl : List (C × List (Line L A C))} {s : σ}

theorem act_run {a : A} {s' : σ} (h : m.exec a s = .ok s') :
    Reaches m prog ⟨.act a :: rest, bl, s⟩ ⟨rest, bl, s'⟩ :=
  .head (by simp only [step, h]) (.refl _)

theorem act_stops {a : A} {why : ω} (h : m.exec a s = .error why) :
    Ends m prog ⟨.act a :: rest, bl, s⟩ (.because why) s :=
  ⟨_, .refl _, by simp only [step, h], rfl⟩

theorem lbl_run (l : L) : Reaches m prog ⟨.lbl l :: rest, bl, s⟩ ⟨rest, bl, s⟩ := .head rfl (.refl _)

theorem goto_run {l : L} {code : List (Line L A C)} (h : findLabel l prog = some code) :
    Reaches m prog ⟨.goto l :: rest, bl, s⟩ ⟨code, bl, s⟩ :=
  .head (by simp only [step, h]) (.refl _)

theorem when_run (b : C) :
    Reaches m prog ⟨.whenNext b :: rest, bl, s⟩ ⟨if m.test b s then rest else rest.drop 1, bl, s⟩ :=
  .head rfl (.refl _)

theorem ret_ends : Ends m prog ⟨.ret :: rest, bl, s⟩ .returned s := ⟨_, .refl _, rfl, rfl⟩

end One

/-! ## Several lines -/

/-- The actions one after the other. -/
def execAll (m : Meaning A C σ ω) (as : List A) (s : σ) : Except ω σ := as.foldlM (fun s a => m.exec a s) s

omit [DecidableEq L] in
theorem execAll_cons {a : A} {as : List A} {s s' : σ} (h : m.exec a s = .ok s') :
    execAll m (a :: as) s = execAll m as s' := by
  simp only [execAll, List.foldlM_cons, h, bind, Except.bind]

omit [DecidableEq L] in
theorem execAll_append {as bs : List A} {s s' : σ} (h : execAll m as s = .ok s') :
    execAll m (as ++ bs) s = execAll m bs s' := by
  simp only [execAll] at h ⊢
  simp only [List.foldlM_append, h, bind, Except.bind]

/-- Actions in a row compose. -/
theorem acts_run {as : List A} {rest : List (Line L A C)} {bl : List (C × List (Line L A C))} {s s' : σ}
    (h : execAll m as s = .ok s') :
    Reaches m prog ⟨as.map .act ++ rest, bl, s⟩ ⟨rest, bl, s'⟩ := by
  induction as generalizing s with
  | nil =>
    cases h
    exact .refl _
  | cons a as ih =>
    cases ha : m.exec a s with
    | error why =>
      simp only [execAll, List.foldlM_cons, ha, bind, Except.bind, reduceCtorEq] at h
    | ok t =>
      rw [execAll_cons ha] at h
      exact (act_run ha).trans (ih h)

/-- A row of `If test` / `Goto label` pairs jumps at the first test that holds. -/
theorem dispatch_run {table : List (C × L)} {b : C} {l : L} {code rest : List (Line L A C)}
    {bl : List (C × List (Line L A C))} {s : σ} (hfirst : table.find? (fun e => m.test e.1 s) = some (b, l))
    (hl : findLabel l prog = some code) :
    Reaches m prog ⟨(table.flatMap fun e => [.whenNext e.1, .goto e.2]) ++ rest, bl, s⟩ ⟨code, bl, s⟩ := by
  induction table with
  | nil => cases hfirst
  | cons e table ih =>
    refine (when_run e.1).trans ?_
    rw [List.find?_cons] at hfirst
    split at hfirst
    · rename_i ht
      cases hfirst
      simp only [ht, if_true]
      exact goto_run hl
    · rename_i ht
      simp only [ht, Bool.false_eq_true, if_false]
      exact ih hfirst

/-- The rounds of `Repeat b` over actions: each round but the last leaves the
test false. -/
inductive Rounds (m : Meaning A C σ ω) (as : List A) (b : C) : σ → σ → Prop
  | last {s s' : σ} (h : execAll m as s = .ok s') (ht : m.test b s' = true) : Rounds m as b s s'
  | more {s s' s'' : σ} (h : execAll m as s = .ok s') (ht : m.test b s' = false)
      (hr : Rounds m as b s' s'') : Rounds m as b s s''

/-- The body of a `Repeat` over actions, up to its `End`. -/
def loopBody (as : List A) (rest : List (Line L A C)) : List (Line L A C) := as.map .act ++ .endBlock :: rest

theorem round_again {as : List A} {b : C} {rest : List (Line L A C)} {bl : List (C × List (Line L A C))} {s s' : σ}
    (h : execAll m as s = .ok s') (ht : m.test b s' = false) :
    Reaches m prog ⟨loopBody as rest, (b, loopBody as rest) :: bl, s⟩
      ⟨loopBody as rest, (b, loopBody as rest) :: bl, s'⟩ := by
  refine (acts_run h).trans (.head ?_ (.refl _))
  simp [step, ht]

theorem rounds_run {as : List A} {b : C} {rest : List (Line L A C)} {bl : List (C × List (Line L A C))} {s s' : σ}
    (h : Rounds m as b s s') :
    Reaches m prog ⟨loopBody as rest, (b, loopBody as rest) :: bl, s⟩ ⟨rest, bl, s'⟩ := by
  induction h with
  | last h ht =>
    refine (acts_run h).trans (.head ?_ (.refl _))
    simp [step, ht]
  | more h ht hr ih => exact (round_again h ht).trans ih

/-! ## Lines in front -/

def IsLbl : Line L A C → Prop
  | .lbl _ => True
  | _ => False

theorem findLabel_behind {front : List (Line L A C)} (h : ∀ x ∈ front, ¬ IsLbl x) (l : L) :
    findLabel l (front ++ prog) = findLabel l prog := by
  induction front with
  | nil => rfl
  | cons x front ih =>
    have hx := h x (by simp)
    have := ih fun y hy => h y (by simp [hy])
    cases x with
    | lbl l' => exact absurd trivial hx
    | act a | goto a | whenNext a | repeatUntil a | endBlock | ret => exact this

theorem step_behind {front : List (Line L A C)} (h : ∀ x ∈ front, ¬ IsLbl x) (c : Config L A C σ) :
    step m (front ++ prog) c = step m prog c := by
  simp only [step, findLabel_behind h]

/-- Lines without labels in front of a program do not change its runs. -/
theorem ends_behind {front : List (Line L A C)} (h : ∀ x ∈ front, ¬ IsLbl x) {c : Config L A C σ} {o : Stop ω} {s : σ} :
    Ends m (front ++ prog) c o s ↔ Ends m prog c o s := by
  simp only [Ends, Reaches, step_behind h]

end LinkLib.Lines
