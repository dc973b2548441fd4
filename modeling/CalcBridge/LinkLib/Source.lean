import Mathlib.Data.List.Basic
/-!
# Reading from a stream that may have nothing yet

A non-blocking source is the list of what its reads will find. `fill` is the
loop that tops a buffer up to `n` items, however they are cut into reads. For
any reader that neither loses nor invents items, the buffer followed by what
is still unread does not change.
-/

namespace LinkLib.Source

variable {α σ : Type}

/-- What a source holds next. `data []` is the end of the stream, for good. -/
inductive Chunk (α : Type) where
  | data (xs : List α)
  | none
  | error (errno : Nat)
  deriving DecidableEq, Repr

/-- What one read returns. `chunk []` is the end of the stream. -/
inductive Read (α : Type) where
  | chunk (xs : List α)
  | none
  | error (errno : Nat)
  deriving DecidableEq, Repr

/-- `read(n)`: at most `n` items of what is there. A source that has run out
has nothing yet. -/
def read (n : Nat) : List (Chunk α) → Read α × List (Chunk α)
  | [] => (.none, [])
  | .none :: src => (.none, src)
  | .error e :: src => (.error e, src)
  | .data [] :: src => (.chunk [], .data [] :: src)
  | .data (x :: xs) :: src =>
    (.chunk ((x :: xs).take n), if (x :: xs).drop n = [] then src else .data ((x :: xs).drop n) :: src)

/-- The items still to come. -/
def items : List (Chunk α) → List α
  | [] => []
  | .data xs :: src => xs ++ items src
  | _ :: src => items src

/-- How many reads still find nothing before the source runs out. -/
def stalls : List (Chunk α) → Nat
  | [] => 0
  | .data _ :: src => stalls src
  | _ :: src => stalls src + 1

/-! ## Filling a buffer -/

inductive Stop where
  | done
  | none
  | eof
  | error (errno : Nat)
  deriving DecidableEq, Repr

/-- Top `acc` up to `n` items. -/
def fill (rd : Nat → σ → Read α × σ) (n : Nat) (acc : List α) (s : σ) : Stop × List α × σ :=
  if acc.length < n then
    match rd (n - acc.length) s with
    | (.none, s') => (.none, acc, s')
    | (.error e, s') => (.error e, acc, s')
    | (.chunk xs, s') => if xs = [] then (.eof, acc, s') else fill rd n (acc ++ xs) s'
  else (.done, acc, s)
  termination_by n - acc.length
  decreasing_by
    have := List.length_pos_iff.2 ‹¬ xs = []›
    simp only [List.length_append]
    omega

/-- A reader that hands over the unread items in order, at most as many as
asked for, and whose misses run out. -/
structure Lossless (rd : Nat → σ → Read α × σ) (unread : σ → List α) (misses : σ → Nat) : Prop where
  chunk : ∀ {n : Nat} {s s' : σ} {xs : List α}, 0 < n → rd n s = (.chunk xs, s') →
    unread s = xs ++ unread s' ∧ xs.length ≤ n ∧ misses s' = misses s
  none : ∀ {n : Nat} {s s' : σ}, rd n s = (.none, s') →
    unread s' = unread s ∧ misses s' ≤ misses s ∧ (misses s' < misses s ∨ unread s = [])
  error : ∀ {n e : Nat} {s s' : σ}, rd n s = (.error e, s') → unread s' = unread s ∧ misses s' < misses s

/-- No end of stream, and no error but the ones in `soft`, from a state that meets `P`. -/
structure Patient (rd : Nat → σ → Read α × σ) (soft : List Nat) (P : σ → Prop) : Prop where
  keeps : ∀ {n : Nat} {s s' : σ} {r : Read α}, P s → rd n s = (r, s') → P s'
  chunk : ∀ {n : Nat} {s s' : σ}, 0 < n → P s → rd n s ≠ (.chunk [], s')
  error : ∀ {n e : Nat} {s s' : σ}, P s → rd n s = (.error e, s') → e ∈ soft

section Fill
variable {rd : Nat → σ → Read α × σ} {unread : σ → List α} {misses : σ → Nat}

/-! One turn of the loop. -/

theorem fill_full {n : Nat} {acc : List α} {s : σ} (h : ¬ acc.length < n) : fill rd n acc s = (.done, acc, s) := by
  rw [fill, if_neg h]

theorem fill_miss {n : Nat} {acc : List α} {s s' : σ} (h : acc.length < n) (hr : rd (n - acc.length) s = (.none, s')) :
    fill rd n acc s = (.none, acc, s') := by
  rw [fill, if_pos h, hr]

theorem fill_fail {n e : Nat} {acc : List α} {s s' : σ} (h : acc.length < n)
    (hr : rd (n - acc.length) s = (.error e, s')) : fill rd n acc s = (.error e, acc, s') := by
  rw [fill, if_pos h, hr]

theorem fill_eof {n : Nat} {acc : List α} {s s' : σ} (h : acc.length < n)
    (hr : rd (n - acc.length) s = (.chunk [], s')) : fill rd n acc s = (.eof, acc, s') := by
  rw [fill, if_pos h, hr]
  exact if_pos rfl

theorem fill_more {n : Nat} {acc xs : List α} {s s' : σ} (h : acc.length < n) (hne : xs ≠ [])
    (hr : rd (n - acc.length) s = (.chunk xs, s')) : fill rd n acc s = fill rd n (acc ++ xs) s' := by
  rw [fill, if_pos h, hr]
  exact if_neg hne

/-- Nothing is lost on the way. -/
theorem fill_conserves (hl : Lossless rd unread misses) (n : Nat) (acc : List α) (s : σ) :
    (fill rd n acc s).2.1 ++ unread (fill rd n acc s).2.2 = acc ++ unread s := by
  induction acc, s using fill.induct rd n with
  | case1 acc s hlt s' hr => rw [fill_miss hlt hr, (hl.none hr).1]
  | case2 acc s hlt e s' hr => rw [fill_fail hlt hr, (hl.error hr).1]
  | case3 acc s hlt s' hr =>
    have hu := (hl.chunk (by omega) hr).1
    rw [fill_eof hlt hr, hu, List.nil_append]
  | case4 acc s hlt xs s' hr hne ih => rw [fill_more hlt hne hr, ih, (hl.chunk (by omega) hr).1, List.append_assoc]
  | case5 acc s hge => rw [fill_full hge]

/-- The buffer does not overrun. -/
theorem fill_length_le (hl : Lossless rd unread misses) {n : Nat} {acc : List α} (h : acc.length ≤ n) (s : σ) :
    (fill rd n acc s).2.1.length ≤ n := by
  induction acc, s using fill.induct rd n with
  | case1 acc s hlt s' hr => rwa [fill_miss hlt hr]
  | case2 acc s hlt e s' hr => rwa [fill_fail hlt hr]
  | case3 acc s hlt s' hr => rwa [fill_eof hlt hr]
  | case4 acc s hlt xs s' hr hne ih =>
    have hlen := (hl.chunk (by omega) hr).2.1
    rw [fill_more hlt hne hr]
    exact ih (by rw [List.length_append]; omega)
  | case5 acc s hge => rwa [fill_full hge]

/-- The loop is done exactly when the buffer is full. -/
theorem fill_done_iff (rd : Nat → σ → Read α × σ) (n : Nat) (acc : List α) (s : σ) :
    (fill rd n acc s).1 = .done ↔ n ≤ (fill rd n acc s).2.1.length := by
  induction acc, s using fill.induct rd n with
  | case1 acc s hlt s' hr => rw [fill_miss hlt hr]; simpa using hlt
  | case2 acc s hlt e s' hr => rw [fill_fail hlt hr]; simpa using hlt
  | case3 acc s hlt s' hr => rw [fill_eof hlt hr]; simpa using hlt
  | case4 acc s hlt xs s' hr hne ih => rw [fill_more hlt hne hr, ih]
  | case5 acc s hge => rw [fill_full hge]; simpa using hge

/-- Misses do not grow, and a loop that stops short of the end has used one up
or left nothing unread. -/
theorem fill_misses (hl : Lossless rd unread misses) (n : Nat) (acc : List α) (s : σ) :
    misses (fill rd n acc s).2.2 ≤ misses s ∧
      ((fill rd n acc s).1 = .done ∨ (fill rd n acc s).1 = .eof ∨
        misses (fill rd n acc s).2.2 < misses s ∨ unread (fill rd n acc s).2.2 = []) := by
  induction acc, s using fill.induct rd n with
  | case1 acc s hlt s' hr =>
    obtain ⟨hu, hle, hor⟩ := hl.none hr
    rw [fill_miss hlt hr]
    exact ⟨hle, .inr (.inr (hor.imp_right fun h => hu.trans h))⟩
  | case2 acc s hlt e s' hr =>
    rw [fill_fail hlt hr]
    exact ⟨Nat.le_of_lt (hl.error hr).2, .inr (.inr (.inl (hl.error hr).2))⟩
  | case3 acc s hlt s' hr =>
    rw [fill_eof hlt hr]
    exact ⟨Nat.le_of_eq (hl.chunk (by omega) hr).2.2, .inr (.inl rfl)⟩
  | case4 acc s hlt xs s' hr hne ih =>
    rw [fill_more hlt hne hr, ← (hl.chunk (by omega) hr).2.2]
    exact ih
  | case5 acc s hge =>
    rw [fill_full hge]
    exact ⟨Nat.le_refl _, .inl rfl⟩

/-- A patient reader fills the buffer or has nothing yet. -/
theorem fill_patient {soft : List Nat} {P : σ → Prop} (hp : Patient rd soft P) (n : Nat) (acc : List α) {s : σ}
    (hs : P s) :
    P (fill rd n acc s).2.2 ∧ ((fill rd n acc s).1 = .done ∨ (fill rd n acc s).1 = .none ∨
      ∃ e ∈ soft, (fill rd n acc s).1 = .error e) := by
  induction acc, s using fill.induct rd n with
  | case1 acc s hlt s' hr => rw [fill_miss hlt hr]; exact ⟨hp.keeps hs hr, .inr (.inl rfl)⟩
  | case2 acc s hlt e s' hr => rw [fill_fail hlt hr]; exact ⟨hp.keeps hs hr, .inr (.inr ⟨e, hp.error hs hr, rfl⟩)⟩
  | case3 acc s hlt s' hr => exact absurd hr (hp.chunk (by omega) hs)
  | case4 acc s hlt xs s' hr hne ih => rw [fill_more hlt hne hr]; exact ih (hp.keeps hs hr)
  | case5 acc s hge => rw [fill_full hge]; exact ⟨hs, .inl rfl⟩

/-- Filling a buffer from a patient reader: it is full, or the reader has nothing yet. -/
theorem fill_outcome (hl : Lossless rd unread misses) {soft : List Nat} {P : σ → Prop} (hp : Patient rd soft P) {n : Nat}
    {acc : List α} (hacc : acc.length ≤ n) {s : σ} (hs : P s) :
    ∃ stop acc' s', fill rd n acc s = (stop, acc', s') ∧ acc' ++ unread s' = acc ++ unread s ∧ P s' ∧
      misses s' ≤ misses s ∧
      ((stop = .done ∧ acc'.length = n) ∨ ((stop = .none ∨ ∃ e ∈ soft, stop = .error e) ∧ acc'.length < n ∧
        (misses s' < misses s ∨ unread s' = []))) := by
  have hcons := fill_conserves hl n acc s
  obtain ⟨hle, hmiss⟩ := fill_misses hl n acc s
  obtain ⟨hs', hstop⟩ := fill_patient hp n acc hs
  have hdone := fill_done_iff rd n acc s
  have hlen := fill_length_le hl hacc s
  refine ⟨_, _, _, rfl, hcons, hs', hle, ?_⟩
  by_cases hd : (fill rd n acc s).1 = .done
  · exact .inl ⟨hd, Nat.le_antisymm hlen (hdone.1 hd)⟩
  · have hsoft := hstop.resolve_left hd
    refine .inr ⟨hsoft, Nat.lt_of_not_le fun h => hd (hdone.2 h), ?_⟩
    rcases hmiss with h | h | h
    · exact absurd h hd
    · rcases hsoft with hn | ⟨e, -, he⟩
      · rw [hn] at h; cases h
      · rw [he] at h; cases h
    · exact h

end Fill

/-! ## The source itself -/

@[simp] theorem items_data (xs : List α) (src : List (Chunk α)) : items (.data xs :: src) = xs ++ items src := rfl

/-- Reading a source hands over its items in order. -/
theorem read_lossless : Lossless (@read α) items stalls where
  chunk {n s s' xs} hn hr := by
    cases s with
    | nil => cases hr
    | cons c src =>
      cases c with
      | none => cases hr
      | error e => cases hr
      | data ys =>
        cases ys with
        | nil => cases hr; simp
        | cons y ys =>
          simp only [read, Prod.mk.injEq, Read.chunk.injEq] at hr
          obtain ⟨rfl, rfl⟩ := hr
          refine ⟨?_, by rw [List.length_take]; exact Nat.min_le_left _ _, ?_⟩
          · split
            · rename_i hd
              rw [items_data]
              conv_lhs => rw [← List.take_append_drop n (y :: ys), hd, List.append_nil]
            · rw [items_data, items_data, ← List.append_assoc, List.take_append_drop]
          · split <;> rfl
  none {n s s'} hr := by
    cases s with
    | nil => cases hr; exact ⟨rfl, Nat.le_refl _, .inr rfl⟩
    | cons c src =>
      cases c with
      | none => cases hr; exact ⟨rfl, Nat.le_succ _, .inl (Nat.lt_succ_self _)⟩
      | error e => cases hr
      | data ys => cases ys <;> cases hr
  error {n e s s'} hr := by
    cases s with
    | nil => cases hr
    | cons c src =>
      cases c with
      | none => cases hr
      | error e => cases hr; exact ⟨rfl, Nat.lt_succ_self _⟩
      | data ys => cases ys <;> cases hr

/-- The source has no end, and no error but the ones in `soft`. -/
def Open (soft : List Nat) (src : List (Chunk α)) : Prop := ∀ c ∈ src, c ≠ .data [] ∧ ∀ e, c = .error e → e ∈ soft

theorem read_patient (soft : List Nat) : Patient (@read α) soft (Open soft) where
  keeps {n s s' r} hs hr := by
    cases s with
    | nil => cases hr; exact hs
    | cons c src =>
      have htail : Open soft src := fun c' hc' => hs c' (List.mem_cons_of_mem _ hc')
      cases c with
      | none => cases hr; exact htail
      | error e => cases hr; exact htail
      | data ys =>
        cases ys with
        | nil => cases hr; exact hs
        | cons y ys =>
          simp only [read, Prod.mk.injEq] at hr
          obtain ⟨-, rfl⟩ := hr
          split
          · exact htail
          · rename_i hd
            intro c' hc'
            rcases List.mem_cons.1 hc' with rfl | hc'
            · exact ⟨by simpa using hd, fun e he => by cases he⟩
            · exact htail c' hc'
  chunk {n s s'} hn hs hr := by
    cases s with
    | nil => cases hr
    | cons c src =>
      cases c with
      | none => cases hr
      | error e => cases hr
      | data ys =>
        cases ys with
        | nil => exact (hs _ (by simp)).1 rfl
        | cons y ys =>
          simp only [read, Prod.mk.injEq, Read.chunk.injEq, List.take_eq_nil_iff] at hr
          rcases hr.1 with h | h
          · omega
          · cases h
  error {n e s s'} hs hr := by
    cases s with
    | nil => cases hr
    | cons c src =>
      cases c with
      | none => cases hr
      | error e' => cases hr; exact (hs _ (by simp)).2 e rfl
      | data ys => cases ys <;> cases hr

/-! ## A blocking source -/

/-- Bytes in any pieces, and then the end of the stream. -/
def Ends : List (Chunk α) → Prop
  | [.data []] => True
  | .data (_ :: _) :: src => Ends src
  | _ => False

theorem read_ends {src : List (Chunk α)} (h : Ends src) (n : Nat) :
    ∃ xs src', read n src = (.chunk xs, src') ∧ Ends src' ∧ (0 < n → xs = [] → items src' = []) := by
  match src, h with
  | [.data []], h => exact ⟨[], _, rfl, h, fun _ _ => rfl⟩
  | .data (x :: xs) :: src, h =>
    refine ⟨_, _, rfl, ?_, ?_⟩
    · split
      · exact h
      · rename_i hd
        obtain ⟨y, ys, hy⟩ := List.exists_cons_of_ne_nil hd
        rw [hy]
        exact h
    · intro hn hnil
      rcases List.take_eq_nil_iff.1 hnil with hz | hz
      · omega
      · cases hz

/-- Filling a buffer from a blocking source: it is full, or the stream has ended. -/
theorem fill_ends (n : Nat) {acc : List α} (hacc : acc.length ≤ n) {src : List (Chunk α)} (h : Ends src) :
    ∃ stop acc' src', fill read n acc src = (stop, acc', src') ∧ acc' ++ items src' = acc ++ items src ∧ Ends src' ∧
      ((stop = .done ∧ acc'.length = n) ∨ (stop = .eof ∧ acc'.length < n ∧ items src' = [])) := by
  have hor : Ends (fill read n acc src).2.2 ∧ ((fill read n acc src).1 = .done ∨
      ((fill read n acc src).1 = .eof ∧ items (fill read n acc src).2.2 = [])) := by
    -- A source that ends never misses and never fails, so the first two cases cannot come.
    induction acc, src using fill.induct read n with
    | case1 acc src hlt src' hr =>
      obtain ⟨xs, src'', he, -⟩ := read_ends h (n - acc.length)
      rw [hr] at he
      cases he
    | case2 acc src hlt e src' hr =>
      obtain ⟨xs, src'', he, -⟩ := read_ends h (n - acc.length)
      rw [hr] at he
      cases he
    | case3 acc src hlt src' hr =>
      obtain ⟨xs, src'', he, hends, hnil⟩ := read_ends h (n - acc.length)
      rw [hr] at he
      cases he
      rw [fill_eof hlt hr]
      exact ⟨hends, .inr ⟨rfl, hnil (by omega) rfl⟩⟩
    | case4 acc src hlt xs src' hr hne ih =>
      obtain ⟨xs', src'', he, hends, -⟩ := read_ends h (n - acc.length)
      rw [hr] at he
      cases he
      have hlen := (read_lossless.chunk (by omega) hr).2.1
      rw [fill_more hlt hne hr]
      exact ih (by rw [List.length_append]; omega) hends
    | case5 acc src hge =>
      rw [fill_full hge]
      exact ⟨h, .inl rfl⟩
  have hdone := fill_done_iff read n acc src
  have hlen := fill_length_le read_lossless hacc src
  refine ⟨_, _, _, rfl, fill_conserves read_lossless n acc src, hor.1, ?_⟩
  rcases hor.2 with hd | ⟨he, hnil⟩
  · exact .inl ⟨hd, Nat.le_antisymm hlen (hdone.1 hd)⟩
  · refine .inr ⟨he, Nat.lt_of_not_le ?_, hnil⟩
    intro hle
    rw [hdone.2 hle] at he
    cases he

end LinkLib.Source
