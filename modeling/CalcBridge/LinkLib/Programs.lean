import CalcBridge.LinkLib.Confluence
/-!
# Two programs that talk to each other

A `Proc` sends and receives messages, sleeps, and shows things to the outside.
`on` runs one against any link. A `Net` is two of them with a queue towards
each: a send succeeds, no message is lost or overtaken, and one that came is
kept until it is read. Its steps commute, so that one run decides about all of
them.
-/
open Relation LinkLib.Confluence

namespace LinkLib.Programs

/-- A program with messages `μ`, shown things `ω` and result `ρ`. `recv t` waits
at most `t` ms, and gives `none` when nothing came. -/
inductive Proc (μ ω ρ : Type) where
  | ret (r : ρ)
  | out (w : ω) (next : Proc μ ω ρ)
  | send (m : μ) (next : Bool → Proc μ ω ρ)
  | recv (t : Nat) (next : Option μ → Proc μ ω ρ)
  | sleep (ms : Nat) (next : Proc μ ω ρ)

variable {μ ω ρ ρ' σ : Type}

def Proc.bind : Proc μ ω ρ → (ρ → Proc μ ω ρ') → Proc μ ω ρ'
  | .ret r, f => f r
  | .out w next, f => .out w (next.bind f)
  | .send m next, f => .send m fun ok => (next ok).bind f
  | .recv t next, f => .recv t fun m => (next m).bind f
  | .sleep ms next, f => .sleep ms (next.bind f)

/-- The same program, showing `f w` for `w`. -/
def Proc.relabel {ω' : Type} (f : ω → ω') : Proc μ ω ρ → Proc μ ω' ρ
  | .ret r => .ret r
  | .out w next => .out (f w) (next.relabel f)
  | .send m next => .send m fun ok => (next ok).relabel f
  | .recv t next => .recv t fun m => (next m).relabel f
  | .sleep ms next => .sleep ms (next.relabel f)

/-- Send, and end with `fail` when that does not work. -/
def Proc.ifSent (fail : ρ) (m : μ) (next : Proc μ ω ρ) : Proc μ ω ρ := .send m fun ok => if ok then next else .ret fail

/-- Receive, and end with `fail` when nothing comes. -/
def Proc.ifGot (fail : ρ) (t : Nat) (next : μ → Proc μ ω ρ) : Proc μ ω ρ :=
  .recv t fun
    | none => .ret fail
    | some m => next m

/-! ## On a link -/

/-- Run a program on a link with these two operations. -/
def Proc.on (recv : Nat → σ → Option μ × σ) (send : μ → σ → Bool × σ) : Proc μ ω ρ → σ → ρ × σ
  | .ret r, s => (r, s)
  | .out _ next, s => next.on recv send s
  | .send m next, s => (next (send m s).1).on recv send (send m s).2
  | .recv t next, s => (next (recv t s).1).on recv send (recv t s).2
  | .sleep _ next, s => next.on recv send s

theorem Proc.on_bind (recv : Nat → σ → Option μ × σ) (send : μ → σ → Bool × σ) (p : Proc μ ω ρ) (f : ρ → Proc μ ω ρ')
    (s : σ) :
    (p.bind f).on recv send s = (f (p.on recv send s).1).on recv send (p.on recv send s).2 := by
  induction p generalizing s with
  | ret r => rfl
  | out w next ih => exact ih s
  | send m next ih => exact ih _ _
  | recv t next ih => exact ih _ _
  | sleep ms next ih => exact ih s

/-! ## Against each other -/

/-- A program that starts `body` again whenever it returns `true`, with the
messages that have come for it and what it has shown. -/
structure Node (μ ω : Type) where
  proc : Proc μ ω Bool
  body : Proc μ ω Bool
  inbox : List μ
  outs : List ω

/-- What a program can do by itself, and the messages it sends, of which each
succeeds. With a clock it sleeps until its time is over, without one for as long
as it likes; a receive takes the first message that has come, or waits for one. -/
def Node.step (clock : Bool) (n : Node μ ω) : Option (Node μ ω × List μ) :=
  match n.proc with
  | .ret true => some ({ n with proc := n.body }, [])
  | .ret false => none
  | .out w next => some ({ n with proc := next, outs := n.outs ++ [w] }, [])
  | .send m next => some ({ n with proc := next true }, [m])
  | .recv _ next =>
    match n.inbox with
    | [] => none
    | m :: ms => some ({ n with proc := next (some m), inbox := ms }, [])
  | .sleep ms next => if clock ∧ 0 < ms then none else some ({ n with proc := next }, [])

structure Net (μ ω : Type) where
  a : Node μ ω
  b : Node μ ω

def Node.deliver (n : Node μ ω) (ms : List μ) : Node μ ω := { n with inbox := n.inbox ++ ms }

/-- One end takes a step. -/
inductive Net.Moves (clock : Bool) : Net μ ω → Net μ ω → Prop where
  | a {n n' o : Node μ ω} {ms : List μ} (h : n.step clock = some (n', ms)) : Moves clock ⟨n, o⟩ ⟨n', o.deliver ms⟩
  | b {n o o' : Node μ ω} {ms : List μ} (h : o.step clock = some (o', ms)) : Moves clock ⟨n, o⟩ ⟨n.deliver ms, o'⟩

/-- What has come for a program makes no difference to a step it can take without it. -/
theorem Node.step_deliver {clock : Bool} {n n' : Node μ ω} {ms : List μ} (h : n.step clock = some (n', ms)) (more : List μ) :
    (n.deliver more).step clock = some (n'.deliver more, ms) := by
  obtain ⟨proc, body, inbox, outs⟩ := n
  cases proc with
  | ret r =>
    cases r with
    | true => cases h; rfl
    | false => cases h
  | out w next => cases h; rfl
  | send m next => cases h; rfl
  | recv t next =>
    cases inbox with
    | nil => cases h
    | cons m rest => cases h; rfl
  | sleep ms' next =>
    by_cases hms : clock ∧ 0 < ms'
    · simp [Node.step, hms] at h
    · simp only [Node.step, if_neg hms, Option.some.injEq, Prod.mk.injEq] at h
      obtain ⟨rfl, rfl⟩ := h
      simp only [Node.deliver, Node.step, if_neg hms]

theorem moves_diamond (clock : Bool) : Diamond (Net.Moves (μ := μ) (ω := ω) clock) := by
  intro s c d hc hd
  cases hc with
  | a h =>
    cases hd with
    | a h' =>
      rw [h] at h'
      cases h'
      exact .inl rfl
    | b h' => exact .inr ⟨_, .b (Node.step_deliver h' _), .a (Node.step_deliver h _)⟩
  | b h =>
    cases hd with
    | a h' => exact .inr ⟨_, .a (Node.step_deliver h' _), .b (Node.step_deliver h _)⟩
    | b h' =>
      rw [h] at h'
      cases h'
      exact .inl rfl

/-! ## Time -/

/-- The program gives up waiting. -/
def Node.expire (n : Node μ ω) : Option (Node μ ω) :=
  match n.proc with
  | .recv 0 next => some { n with proc := next none }
  | _ => none

/-- A millisecond passes. -/
def Node.wait (n : Node μ ω) : Option (Node μ ω) :=
  match n.proc with
  | .recv (t + 1) next => some { n with proc := .recv t next }
  | .sleep (ms + 1) next => some { n with proc := .sleep ms next }
  | _ => none

/-- When neither end can move: a wait that is over is given up, and else a
millisecond passes for both. -/
def Net.tick (s : Net μ ω) : Option (Net μ ω) :=
  match s.a.expire, s.b.expire with
  | some a, _ => some ⟨a, s.b⟩
  | none, some b => some ⟨s.a, b⟩
  | none, none =>
    match s.a.wait, s.b.wait with
    | none, none => none
    | a, b => some ⟨a.getD s.a, b.getD s.b⟩

/-- A step with a clock. A message that is sent in time is received, also in the
last millisecond: time passes only when neither end can move. -/
inductive Net.Timed : Net μ ω → Net μ ω → Prop where
  | move {s s' : Net μ ω} (h : s.Moves true s') : Timed s s'
  | tick {s s' : Net μ ω} (hstill : ∀ d, ¬ s.Moves true d) (h : s.tick = some s') : Timed s s'

/-- With a clock, too, steps in another order meet again, and by moves: no two ways lead past a tick. -/
theorem timed_meets : MeetsBy (Net.Timed (μ := μ) (ω := ω)) (Net.Moves true) := by
  intro s c d hc hd
  cases hc with
  | move h =>
    cases hd with
    | move h' => exact moves_diamond true h h'
    | tick hstill => exact absurd h (hstill _)
  | tick hstill h =>
    cases hd with
    | move h' => exact absurd h' (hstill _)
    | tick _ h' =>
      rw [h] at h'
      cases h'
      exact .inl rfl

/-- The program does nothing but wait, for `k` ms. -/
inductive Node.Passes (k : Nat) : Node μ ω → Node μ ω → Prop where
  | recv (t : Nat) (next : Option μ → Proc μ ω Bool) (body : Proc μ ω Bool) (outs : List ω) :
      Passes k ⟨.recv (k + t) next, body, [], outs⟩ ⟨.recv t next, body, [], outs⟩
  | sleep (ms : Nat) (next body : Proc μ ω Bool) (inbox : List μ) (outs : List ω) :
      Passes k ⟨.sleep (k + ms) next, body, inbox, outs⟩ ⟨.sleep ms next, body, inbox, outs⟩
  | ended (body : Proc μ ω Bool) (inbox : List μ) (outs : List ω) :
      Passes k ⟨.ret false, body, inbox, outs⟩ ⟨.ret false, body, inbox, outs⟩

/-- The first of several milliseconds of waiting. -/
theorem Node.Passes.first {k : Nat} {n n' : Node μ ω} (h : n.Passes (k + 1) n') :
    n.step true = none ∧ n.expire = none ∧ (n.wait.getD n).Passes k n' ∧
      (n.proc ≠ .ret false → n.wait ≠ none ∧ (n.wait.getD n).proc ≠ .ret false) := by
  cases h with
  | recv t next body outs =>
    rw [Nat.add_right_comm]
    exact ⟨rfl, rfl, .recv t next body outs, fun _ => ⟨nofun, nofun⟩⟩
  | sleep ms next body inbox outs =>
    rw [Nat.add_right_comm]
    exact ⟨by simp [Node.step], rfl, .sleep ms next body inbox outs, fun _ => ⟨nofun, nofun⟩⟩
  | ended body inbox outs => exact ⟨rfl, rfl, .ended body inbox outs, fun h => absurd rfl h⟩

theorem Node.Passes.zero {n n' : Node μ ω} (h : n.Passes 0 n') : n = n' := by
  cases h <;> simp

/-- Neither end can move. -/
theorem Net.still {n o : Node μ ω} (hn : n.step true = none) (ho : o.step true = none) (d : Net μ ω) :
    ¬ Net.Moves true ⟨n, o⟩ d := by
  intro h
  cases h with
  | a h => rw [hn] at h; cases h
  | b h => rw [ho] at h; cases h

/-- Time passes for both ends while they only wait. -/
theorem Net.timed_pass {k : Nat} {n n' o o' : Node μ ω} (hn : n.Passes k n') (ho : o.Passes k o')
    (hlive : o.proc ≠ .ret false) :
    ReflTransGen Net.Timed ⟨n, o⟩ ⟨n', o'⟩ := by
  induction k generalizing n o with
  | zero => rw [hn.zero, ho.zero]
  | succ k ih =>
    obtain ⟨hnstep, hnexp, hnpass, -⟩ := hn.first
    obtain ⟨hostep, hoexp, hopass, howait⟩ := ho.first
    -- Neither end gives up before its wait is over.
    have htick : Net.tick ⟨n, o⟩ = some ⟨n.wait.getD n, o.wait.getD o⟩ := by
      simp only [Net.tick, hnexp, hoexp]
      split
      · rename_i ho'
        exact absurd ho' (howait hlive).1
      · rfl
    exact .head (.tick (Net.still hnstep hostep) htick) (ih hnpass hopass (howait hlive).2)

/-! ## What was shown stays shown -/

theorem Node.step_outs {clock : Bool} {n n' : Node μ ω} {ms : List μ} (h : n.step clock = some (n', ms)) :
    n.outs <+: n'.outs := by
  obtain ⟨proc, body, inbox, outs⟩ := n
  cases proc with
  | ret r =>
    cases r with
    | true => cases h; exact List.prefix_refl _
    | false => cases h
  | out w next => cases h; exact List.prefix_append _ _
  | send m next => cases h; exact List.prefix_refl _
  | recv t next =>
    cases inbox with
    | nil => cases h
    | cons m rest => cases h; exact List.prefix_refl _
  | sleep ms' next =>
    by_cases hms : clock ∧ 0 < ms'
    · simp [Node.step, hms] at h
    · simp only [Node.step, if_neg hms, Option.some.injEq, Prod.mk.injEq] at h
      obtain ⟨rfl, -⟩ := h
      exact List.prefix_refl _

/-- Both ends have shown at least this much. -/
def Net.Shown (s s' : Net μ ω) : Prop := s.a.outs <+: s'.a.outs ∧ s.b.outs <+: s'.b.outs

theorem Net.Moves.shown {clock : Bool} {s s' : Net μ ω} (h : s.Moves clock s') : s.Shown s' := by
  cases h with
  | a h => exact ⟨Node.step_outs h, List.prefix_refl _⟩
  | b h => exact ⟨List.prefix_refl _, Node.step_outs h⟩

theorem Node.expire_outs {n n' : Node μ ω} (h : n.expire = some n') : n'.outs = n.outs := by
  unfold Node.expire at h
  split at h <;> cases h
  rfl

theorem Node.wait_outs (n : Node μ ω) : (n.wait.getD n).outs = n.outs := by
  unfold Node.wait
  split <;> rfl

theorem Net.tick_outs {s s' : Net μ ω} (h : s.tick = some s') : s'.a.outs = s.a.outs ∧ s'.b.outs = s.b.outs := by
  unfold Net.tick at h
  split at h
  · rename_i a _ ha
    cases h
    exact ⟨Node.expire_outs ha, rfl⟩
  · rename_i b _ hb
    cases h
    exact ⟨rfl, Node.expire_outs hb⟩
  · split at h
    · cases h
    · cases h
      exact ⟨Node.wait_outs _, Node.wait_outs _⟩

theorem Net.Timed.shown {s s' : Net μ ω} (h : s.Timed s') : s.Shown s' := by
  cases h with
  | move h => exact h.shown
  | tick _ h =>
    obtain ⟨ha, hb⟩ := Net.tick_outs h
    rw [Net.Shown, ha, hb]
    exact ⟨List.prefix_refl _, List.prefix_refl _⟩

/-- What each step keeps showing, a run does. -/
theorem shown_of_reaches {r : Net μ ω → Net μ ω → Prop} (hr : ∀ {s s'}, r s s' → s.Shown s') {s s' : Net μ ω}
    (h : ReflTransGen r s s') : s.Shown s' := by
  induction h with
  | refl => exact ⟨List.prefix_refl _, List.prefix_refl _⟩
  | tail _ hstep ih => exact ⟨ih.1.trans (hr hstep).1, ih.2.trans (hr hstep).2⟩

/-- Without a clock: when one run comes to an end, every run is a part of one to
that end, has shown no more, and is not longer than it. -/
theorem agree_of_reaches {s e : Net μ ω} (hs : ReflTransGen (Net.Moves false) s e) (hend : Ended (Net.Moves false) e) :
    (∃ n, ∀ k d, Run (Net.Moves false) k s d → k ≤ n) ∧
      ∀ d, ReflTransGen (Net.Moves false) s d → d.Shown e ∧ (Ended (Net.Moves false) d → d = e) := by
  obtain ⟨n, hn⟩ := exists_run hs
  refine ⟨⟨n, fun k d hk => ?_⟩, fun d hd => ?_⟩
  · obtain ⟨m, rfl, -⟩ := (moves_diamond false).to_end hn hend hk
    exact Nat.le_add_right k m
  · obtain ⟨k, hk⟩ := exists_run hd
    obtain ⟨m, -, hm⟩ := (moves_diamond false).to_end hn hend hk
    exact ⟨shown_of_reaches Net.Moves.shown hm.reaches, (moves_diamond false).end_unique hs hend hd⟩

/-- An end that waits for a message that has not come, or has finished, cannot move. -/
theorem Net.ended_of_none {n o : Node μ ω} (hn : n.step false = none) (ho : o.step false = none) :
    Ended (Net.Moves false) (⟨n, o⟩ : Net μ ω) := by
  intro d h
  cases h with
  | a h => rw [hn] at h; cases h
  | b h => rw [ho] at h; cases h

end LinkLib.Programs
