import Mathlib.Logic.Function.Iterate
/-!
# Programs that poll

A program performs operations on a machine, one at a time, and waits in loops
that need not end. A run is the sequence of its steps, so that what holds at
every moment and whether the program returns are both about runs.
-/

namespace LinkLib.Polling

/-- A program over operations `Op` with answers `Ans`. `poll` repeats its body
until the body gives a value. -/
inductive Prog (Op : Type) (Ans : Op → Type) : Type → Type 1 where
  | ret {α : Type} (a : α) : Prog Op Ans α
  | op {α : Type} (o : Op) (next : Ans o → Prog Op Ans α) : Prog Op Ans α
  | poll {α β : Type} (body : Prog Op Ans (Option β)) (next : β → Prog Op Ans α) : Prog Op Ans α

variable {Op : Type} {Ans : Op → Type} {α β γ σ : Type}

namespace Prog

def bind {α β : Type} : Prog Op Ans α → (α → Prog Op Ans β) → Prog Op Ans β
  | ret a, g => g a
  | op o next, g => op o fun x => (next x).bind g
  | poll body next, g => poll body fun b => (next b).bind g

instance : Monad (Prog Op Ans) where
  pure := ret
  bind := bind

/-- One operation, for its answer. -/
def perform (o : Op) : Prog Op Ans (Ans o) := op o ret

/-- The loop alone. -/
def loop (body : Prog Op Ans (Option β)) : Prog Op Ans β := poll body ret

/-- After a turn of a loop: leave it, or go round again. -/
def again (body : Prog Op Ans (Option β)) (next : β → Prog Op Ans α) : Option β → Prog Op Ans α
  | none => poll body next
  | some b => next b

theorem bind_assoc {α β γ : Type} (p : Prog Op Ans α) (g : α → Prog Op Ans β) (k : β → Prog Op Ans γ) :
    (p.bind g).bind k = p.bind fun a => (g a).bind k := by
  induction p with
  | ret a => rfl
  | op o next ih => exact congrArg (op o) (funext fun x => ih x g)
  | poll body next _ ih => exact congrArg (poll body) (funext fun b => ih b g)

/-- The operation that comes next. -/
def head : Prog Op Ans α → Option Op
  | op o _ => some o
  | _ => none

end Prog

open Prog

/-! ## Runs -/

/-- `M` holds, the next operation meets `C`, and `Q` holds if the program has returned. -/
def Now (C : Op → σ → Prop) (M : σ → Prop) (Q : α → σ → Prop) (c : Prog Op Ans α × σ) : Prop :=
  M c.2 ∧ (∀ o, c.1.head = some o → C o c.2) ∧ ∀ a, c.1 = ret a → Q a c.2

section Runs

variable (h : (o : Op) → σ → Ans o × σ)

/-- A step performs an operation, or enters a turn of a loop. A program that
has returned stays as it is. -/
def step : Prog Op Ans α × σ → Prog Op Ans α × σ
  | (ret a, s) => (ret a, s)
  | (op o next, s) => (next (h o s).1, (h o s).2)
  | (poll body next, s) => (body.bind (again body next), s)

def after (n : Nat) (p : Prog Op Ans α) (s : σ) : Prog Op Ans α × σ := (step h)^[n] (p, s)

/-- The program returns `a` in state `t`, after finitely many steps. -/
def Returns (p : Prog Op Ans α) (s : σ) (a : α) (t : σ) : Prop := ∃ n, after h n p s = (ret a, t)

def Halts (p : Prog Op Ans α) (s : σ) : Prop := ∃ a t, Returns h p s a t

/-- Along the run, `M` holds at every moment, every operation meets `C` when it
is performed, and `Q` holds when the program returns. -/
def Along (C : Op → σ → Prop) (M : σ → Prop) (Q : α → σ → Prop) (p : Prog Op Ans α) (s : σ) : Prop :=
  ∀ n, Now C M Q (after h n p s)

abbrev Safe (M : σ → Prop) (Q : α → σ → Prop) (p : Prog Op Ans α) (s : σ) : Prop := Along h (fun _ _ => True) M Q p s

abbrev Each (C : Op → σ → Prop) (p : Prog Op Ans α) (s : σ) : Prop := Along h C (fun _ => True) (fun _ _ => True) p s

end Runs

variable {h : (o : Op) → σ → Ans o × σ}

theorem after_succ (n : Nat) (p : Prog Op Ans α) (s : σ) :
    after h (n + 1) p s = after h n (step h (p, s)).1 (step h (p, s)).2 := rfl

theorem after_succ' (n : Nat) (p : Prog Op Ans α) (s : σ) : after h (n + 1) p s = step h (after h n p s) :=
  Function.iterate_succ_apply' ..

@[simp] theorem after_ret (n : Nat) (a : α) (s : σ) : after h n (ret a) s = (ret a, s) := by
  induction n with
  | zero => rfl
  | succ n ih => exact ih

theorem after_add (m n : Nat) (p : Prog Op Ans α) (s : σ) :
    after h (m + n) p s = after h n (after h m p s).1 (after h m p s).2 := by
  rw [Nat.add_comm]
  exact Function.iterate_add_apply ..

theorem Returns.unique {p : Prog Op Ans α} {s t t' : σ} {a a' : α} (hp : Returns h p s a t) (hp' : Returns h p s a' t') :
    a' = a ∧ t' = t := by
  obtain ⟨n, hn⟩ := hp
  obtain ⟨m, hm⟩ := hp'
  have hnm : after h (n + m) p s = (ret a, t) := by
    rw [after_add, hn]
    exact after_ret m a t
  rw [Nat.add_comm, after_add, hm, after_ret] at hnm
  cases hnm
  exact ⟨rfl, rfl⟩

/-- While it has not returned, a program steps in front of what comes after it. -/
theorem step_bind {p : Prog Op Ans α} (hp : ∀ a, p ≠ ret a) (g : α → Prog Op Ans β) (s : σ) :
    step h (p.bind g, s) = ((step h (p, s)).1.bind g, (step h (p, s)).2) := by
  cases p with
  | ret a => exact absurd rfl (hp a)
  | op o next => rfl
  | poll body next =>
    have hagain : again body (fun b => (next b).bind g) = fun r => (again body next r).bind g := by
      funext r
      cases r <;> rfl
    show (body.bind (again body fun b => (next b).bind g), s) = ((body.bind (again body next)).bind g, s)
    rw [bind_assoc, hagain]

/-- A step of a composed run is one of the first program, or one of the second after the first has returned. -/
theorem after_bind (p : Prog Op Ans α) (g : α → Prog Op Ans β) (s : σ) (n : Nat) :
    after h n (p.bind g) s = ((after h n p s).1.bind g, (after h n p s).2) ∨
      ∃ m a t, m ≤ n ∧ after h m p s = (ret a, t) ∧ after h n (p.bind g) s = after h (n - m) (g a) t := by
  induction n with
  | zero => exact Or.inl rfl
  | succ n ih =>
    rcases ih with hbind | ⟨m, a, t, hm, hret, hbind⟩
    · by_cases hp : ∀ a, (after h n p s).1 ≠ ret a
      · refine Or.inl ?_
        rw [after_succ', hbind, step_bind hp, after_succ']
      · simp only [not_forall, ne_eq, not_not] at hp
        obtain ⟨a, ha⟩ := hp
        refine Or.inr ⟨n, a, (after h n p s).2, Nat.le_succ n, Prod.ext ha rfl, ?_⟩
        rw [after_succ', hbind, ha, Nat.add_sub_cancel_left]
        rfl
    · refine Or.inr ⟨m, a, t, Nat.le_succ_of_le hm, hret, ?_⟩
      rw [after_succ', hbind, Nat.succ_sub hm, ← after_succ']

theorem bind_eq_ret {p : Prog Op Ans α} {g : α → Prog Op Ans β} {b : β} (hp : p.bind g = ret b) :
    ∃ a, p = ret a ∧ g a = ret b := by
  cases p with
  | ret a => exact ⟨a, rfl, hp⟩
  | op o next => cases hp
  | poll body next => cases hp

/-- When a program has returned, what comes after it starts. -/
theorem Returns.bind_starts {p : Prog Op Ans α} {s t : σ} {a : α} (hp : Returns h p s a t) (g : α → Prog Op Ans β) :
    ∃ n, after h n (p.bind g) s = (g a, t) := by
  obtain ⟨n, hn⟩ := hp
  induction n generalizing p s with
  | zero =>
    cases hn
    exact ⟨0, rfl⟩
  | succ n ih =>
    by_cases hret : ∃ a', p = ret a'
    · obtain ⟨a', rfl⟩ := hret
      rw [after_ret] at hn
      cases hn
      exact ⟨0, rfl⟩
    · obtain ⟨m, hm⟩ := ih hn
      refine ⟨m + 1, ?_⟩
      rw [after_succ, step_bind fun a' ha' => hret ⟨a', ha'⟩]
      exact hm

/-! ## What a program returns -/

theorem returns_step {p : Prog Op Ans α} {s t : σ} {a : α} :
    Returns h p s a t ↔ Returns h (step h (p, s)).1 (step h (p, s)).2 a t := by
  constructor
  · rintro ⟨n, hn⟩
    refine ⟨n, ?_⟩
    rw [← after_succ, after_succ', hn]
    rfl
  · rintro ⟨n, hn⟩
    exact ⟨n + 1, hn⟩

theorem returns_ret {a b : α} {s t : σ} : Returns h (ret a) s b t ↔ b = a ∧ t = s := by
  constructor
  · rintro ⟨n, hn⟩
    rw [after_ret] at hn
    cases hn
    exact ⟨rfl, rfl⟩
  · rintro ⟨rfl, rfl⟩
    exact ⟨0, rfl⟩

theorem returns_op {o : Op} {next : Ans o → Prog Op Ans α} {s t : σ} {a : α} :
    Returns h (op o next) s a t ↔ Returns h (next (h o s).1) (h o s).2 a t := returns_step

theorem returns_poll {body : Prog Op Ans (Option β)} {next : β → Prog Op Ans α} {s t : σ} {a : α} :
    Returns h (poll body next) s a t ↔ Returns h (body.bind (again body next)) s a t := returns_step

theorem returns_bind {p : Prog Op Ans α} {g : α → Prog Op Ans β} {s u : σ} {b : β} :
    Returns h (p.bind g) s b u ↔ ∃ a t, Returns h p s a t ∧ Returns h (g a) t b u := by
  constructor
  · rintro ⟨n, hn⟩
    rcases after_bind (h := h) p g s n with hbind | ⟨m, a, t, -, hret, hbind⟩
    · rw [hbind] at hn
      obtain ⟨a, ha, hg⟩ := bind_eq_ret (congrArg Prod.fst hn)
      have hu : (after h n p s).2 = u := congrArg Prod.snd hn
      exact ⟨a, u, ⟨n, Prod.ext ha hu⟩, 0, Prod.ext hg rfl⟩
    · exact ⟨a, t, ⟨m, hret⟩, n - m, hbind ▸ hn⟩
  · rintro ⟨a, t, hp, n, hn⟩
    obtain ⟨m, hm⟩ := hp.bind_starts g
    refine ⟨m + n, ?_⟩
    rw [after_add, hm]
    exact hn

theorem halts_op {o : Op} {next : Ans o → Prog Op Ans α} {s : σ} :
    Halts h (op o next) s ↔ Halts h (next (h o s).1) (h o s).2 := by
  simp only [Halts, returns_op]

theorem halts_bind {p : Prog Op Ans α} {g : α → Prog Op Ans β} {s : σ} :
    Halts h (p.bind g) s ↔ ∃ a t, Returns h p s a t ∧ Halts h (g a) t := by
  constructor
  · rintro ⟨b, u, hb⟩
    obtain ⟨a, t, hp, hg⟩ := returns_bind.1 hb
    exact ⟨a, t, hp, b, u, hg⟩
  · rintro ⟨a, t, hp, b, u, hg⟩
    exact ⟨b, u, returns_bind.2 ⟨a, t, hp, hg⟩⟩

/-! ## What holds along a run -/

section Along

variable {C : Op → σ → Prop} {M : σ → Prop} {Q : α → σ → Prop}

theorem Along.returns {p : Prog Op Ans α} {s t : σ} {a : α} (hp : Along h C M Q p s) (hret : Returns h p s a t) : Q a t := by
  obtain ⟨n, hn⟩ := hret
  have := (hp n).2.2 a (congrArg Prod.fst hn)
  rwa [hn] at this

theorem Along.mono {Q' : α → σ → Prop} {p : Prog Op Ans α} {s : σ} (hp : Along h C M Q p s) (hQ : ∀ a t, Q a t → Q' a t) :
    Along h C M Q' p s := fun n => ⟨(hp n).1, (hp n).2.1, fun a ha => hQ a _ ((hp n).2.2 a ha)⟩

theorem along_ret {a : α} {s : σ} : Along h C M Q (ret a) s ↔ M s ∧ Q a s := by
  constructor
  · intro hs
    exact ⟨(hs 0).1, (hs 0).2.2 a rfl⟩
  · rintro ⟨hM, hQ⟩ n
    rw [after_ret]
    refine ⟨hM, nofun, ?_⟩
    rintro b ⟨⟩
    exact hQ

/-- The first step, and the run from there. -/
theorem along_step {p : Prog Op Ans α} (hp : ∀ a, p ≠ ret a) {s : σ} :
    Along h C M Q p s ↔ M s ∧ (∀ o, p.head = some o → C o s) ∧ Along h C M Q (step h (p, s)).1 (step h (p, s)).2 := by
  constructor
  · intro hs
    exact ⟨(hs 0).1, (hs 0).2.1, fun n => hs (n + 1)⟩
  · rintro ⟨hM, hC, hs⟩ n
    cases n with
    | zero => exact ⟨hM, hC, fun a ha => absurd ha (hp a)⟩
    | succ n => exact hs n

theorem along_op {o : Op} {next : Ans o → Prog Op Ans α} {s : σ} :
    Along h C M Q (op o next) s ↔ M s ∧ C o s ∧ Along h C M Q (next (h o s).1) (h o s).2 := by
  rw [along_step nofun]
  simp only [head, Option.some.injEq, forall_eq']
  rfl

theorem head_bind {p : Prog Op Ans α} {g : α → Prog Op Ans β} {o : Op} (hp : p.head = some o) :
    (p.bind g).head = some o := by
  cases p with
  | op o' next => exact hp
  | ret a => cases hp
  | poll body next => cases hp

theorem Now.bind {M : σ → Prop} {Q : β → σ → Prop} {p : Prog Op Ans α} {g : α → Prog Op Ans β} {s : σ}
    (hp : Now C M (fun a t => Now C M Q (g a, t)) (p, s)) : Now C M Q (p.bind g, s) := by
  cases p with
  | ret a => exact hp.2.2 a rfl
  | op o next => exact ⟨hp.1, hp.2.1, nofun⟩
  | poll body next => exact ⟨hp.1, nofun, nofun⟩

/-- What holds along the first program, and along the second from where the first returns. -/
theorem Along.bind {M : σ → Prop} {Q : β → σ → Prop} {p : Prog Op Ans α} {g : α → Prog Op Ans β} {s : σ}
    (hp : Along h C M (fun a t => Along h C M Q (g a) t) p s) : Along h C M Q (p.bind g) s := by
  intro n
  rcases after_bind (h := h) p g s n with hbind | ⟨m, a, t, -, hret, hbind⟩
  · rw [hbind]
    exact Now.bind ⟨(hp n).1, (hp n).2.1, fun a ha => (hp n).2.2 a ha 0⟩
  · rw [hbind]
    exact hp.returns ⟨m, hret⟩ (n - m)

theorem each_op {o : Op} {next : Ans o → Prog Op Ans α} {s : σ} :
    Each h C (op o next) s ↔ C o s ∧ Each h C (next (h o s).1) (h o s).2 := by
  rw [Each, along_op, true_and]

theorem each_bind {p : Prog Op Ans α} {g : α → Prog Op Ans β} {s : σ} :
    Each h C (p.bind g) s ↔ Each h C p s ∧ ∀ a t, Returns h p s a t → Each h C (g a) t := by
  constructor
  · intro hs
    refine ⟨?_, ?_⟩
    · intro n
      refine ⟨trivial, ?_, fun _ _ => trivial⟩
      intro o ho
      rcases after_bind (h := h) p g s n with hbind | ⟨m, a, t, hm, hret, -⟩
      · have := (hs n).2.1 o
        rw [hbind] at this
        exact this (head_bind ho)
      · obtain ⟨k, rfl⟩ := Nat.exists_eq_add_of_le hm
        rw [after_add, hret, after_ret] at ho
        cases ho
    · rintro a t hret n
      obtain ⟨m, hm⟩ := hret.bind_starts g
      have := hs (m + n)
      rwa [after_add, hm] at this
  · rintro ⟨hp, hg⟩
    apply Along.bind
    intro n
    exact ⟨trivial, (hp n).2.1, fun a ha => hg a _ ⟨n, Prod.ext ha rfl⟩⟩

/-- What every operation keeps gives the condition on each of them. -/
theorem each_of_kept {I : σ → Prop} (hkeep : ∀ o s, I s → I (h o s).2) (hC : ∀ o s, I s → C o s) {s : σ} (hs : I s)
    (p : Prog Op Ans α) : Each h C p s := by
  intro n
  have hI : I (after h n p s).2 := by
    induction n generalizing p s with
    | zero => exact hs
    | succ n ih =>
      rw [after_succ]
      cases p with
      | ret a => exact ih hs _
      | op o next => exact ih (hkeep o s hs) _
      | poll body next => exact ih hs _
  exact ⟨trivial, fun o _ => hC o _ hI, fun _ _ => trivial⟩

/-- The rule for loops: `I` holds whenever the loop goes round again. -/
theorem Along.poll {M : σ → Prop} {Q : α → σ → Prop} {I : σ → Prop} {body : Prog Op Ans (Option β)}
    {next : β → Prog Op Ans α}
    (hbody : ∀ s, I s → Along h C M (fun r t => r.elim (I t) fun b => Along h C M Q (next b) t) body s) {s : σ} (hs : I s) :
    Along h C M Q (poll body next) s := by
  intro n
  induction n using Nat.strongRecOn generalizing s with
  | ind n ih =>
    cases n with
    | zero => exact ⟨(hbody s hs 0).1, nofun, nofun⟩
    | succ n =>
      show Now C M Q (after h n (body.bind (again body next)) s)
      rcases after_bind (h := h) body (again body next) s n with hbind | ⟨m, r, t, hm, hret, hbind⟩
      · rw [hbind]
        refine Now.bind ⟨(hbody s hs n).1, (hbody s hs n).2.1, ?_⟩
        intro r hr
        have hQ := (hbody s hs n).2.2 r hr
        cases r with
        | none => exact ⟨(hbody s hs n).1, nofun, nofun⟩
        | some b => exact hQ 0
      · rw [hbind]
        have hQ := (hbody s hs).returns ⟨m, hret⟩
        cases r with
        | none => exact ih (n - m) (by omega) hQ
        | some b => exact hQ (n - m)

end Along

/-! ## Loops with a body that returns -/

section Loop

variable {body : Prog Op Ans (Option β)} {turn : σ → Option β × σ} (hturn : ∀ s, Returns h body s (turn s).1 (turn s).2)
include hturn

/-- A turn that gives a value leaves the loop with it. -/
theorem returns_loop_some {s : σ} {b : β} (hb : (turn s).1 = some b) : Returns h (loop body) s b (turn s).2 := by
  apply returns_poll.2 (returns_bind.2 ⟨_, _, hturn s, ?_⟩)
  rw [hb]
  exact returns_ret.2 ⟨rfl, rfl⟩

/-- Any other goes round again. -/
theorem returns_loop_none {s t : σ} {b : β} (hnone : (turn s).1 = none) (hret : Returns h (loop body) (turn s).2 b t) :
    Returns h (loop body) s b t := by
  apply returns_poll.2 (returns_bind.2 ⟨_, _, hturn s, ?_⟩)
  rw [hnone]
  exact hret

/-- A loop that returns has made a turn that gives a value. -/
theorem exists_turn {s t : σ} {b : β} {k : Nat} (hk : after h k (loop body) s = (ret b, t)) :
    ∃ n, (turn ((fun s => (turn s).2)^[n] s)).1 ≠ none := by
  induction k using Nat.strongRecOn generalizing s with
  | ind k ih =>
    cases k with
    | zero => cases hk
    | succ k =>
      have hk : after h k (body.bind (again body ret)) s = (ret b, t) := hk
      by_cases hnone : (turn s).1 = none
      · rcases after_bind (h := h) body (again body ret) s k with hbind | ⟨m, r, u, hm, hret, hbind⟩
        · rw [hbind] at hk
          obtain ⟨r, hr, hagain⟩ := bind_eq_ret (congrArg Prod.fst hk)
          rw [((hturn s).unique ⟨k, Prod.ext hr rfl⟩).1, hnone] at hagain
          cases hagain
        · obtain ⟨rfl, rfl⟩ := (hturn s).unique ⟨m, hret⟩
          rw [hbind, hnone] at hk
          obtain ⟨n, hn⟩ := ih (k - m) (by omega) hk
          exact ⟨n + 1, hn⟩
      · exact ⟨0, hnone⟩

/-- A loop returns when one of its turns gives a value. -/
theorem halts_loop {s : σ} : Halts h (loop body) s ↔ ∃ n, (turn ((fun s => (turn s).2)^[n] s)).1 ≠ none := by
  constructor
  · rintro ⟨b, t, k, hk⟩
    exact exists_turn hturn hk
  · rintro ⟨n, hn⟩
    induction n generalizing s with
    | zero =>
      obtain ⟨b, hb⟩ := Option.ne_none_iff_exists'.1 hn
      exact ⟨b, _, returns_loop_some hturn hb⟩
    | succ n ih =>
      cases hb : (turn s).1 with
      | some b => exact ⟨b, _, returns_loop_some hturn hb⟩
      | none =>
        obtain ⟨b, t, ht⟩ := ih hn
        exact ⟨b, t, returns_loop_none hturn hb ht⟩

/-- What every turn keeps holds when the loop returns. -/
theorem Returns.loop_inv {I : σ → Prop} (hI : ∀ s, I s → I (turn s).2) {s t : σ} {b : β} (hs : I s)
    (hret : Returns h (loop body) s b t) : I t := by
  have halong : Along h (fun _ _ => True) (fun _ => True) (fun _ t => I t) (loop body) s := by
    apply Along.poll (I := I) _ hs
    intro s hs n
    refine ⟨trivial, fun _ _ => trivial, ?_⟩
    intro r hr
    have ht : (after h n body s).2 = (turn s).2 := ((hturn s).unique ⟨n, Prod.ext hr rfl⟩).2
    rw [ht]
    cases r with
    | none => exact hI s hs
    | some b => exact along_ret.2 ⟨trivial, hI s hs⟩
  exact halong.returns hret

end Loop

theorem each_loop {C : Op → σ → Prop} {body : Prog Op Ans (Option β)} (hbody : ∀ s, Each h C body s) (s : σ) :
    Each h C (loop body) s := by
  apply Along.poll (I := fun _ => True) _ trivial
  intro s _
  apply (hbody s).mono
  intro r t _
  cases r with
  | none => exact trivial
  | some b => exact along_ret.2 ⟨trivial, trivial⟩

end LinkLib.Polling
