import CalcBridge.LinkLib.Source
/-!
# Reading until something was read

`readUntil` takes one item at a time until `stop` holds of what it has, within
a number of rounds and a cap on the length. It reads nothing past the item
that made `stop` hold. `indexOf` finds a word in what was read.
-/

namespace LinkLib.Source

variable {α : Type}

inductive Until where
  | found
  | timeout
  | eof
  | error (errno : Nat)
  | tooLarge
  deriving DecidableEq, Repr

/-- How the reading ended, what was read and what is left of the source. -/
def readUntil (stop : List α → Bool) (cap : Nat) : Nat → List α → List (Chunk α) → Until × List α × List (Chunk α)
  | 0, buf, src => if stop buf then (.found, buf, src) else (.timeout, buf, src)
  | rounds + 1, buf, src =>
    if stop buf then (.found, buf, src)
    else
      match read 1 src with
      | (.none, src) => readUntil stop cap rounds buf src
      | (.error e, src) => (.error e, buf, src)
      | (.chunk [], src) => (.eof, buf, src)
      | (.chunk xs, src) =>
        if cap < (buf ++ xs).length then (.tooLarge, buf ++ xs, src) else readUntil stop cap rounds (buf ++ xs) src

variable {stop : List α → Bool} {cap : Nat}

/-- `taken` is the shortest continuation of `buf` of which `stop` holds. -/
structure FirstStop (stop : List α → Bool) (buf taken : List α) : Prop where
  stops : stop (buf ++ taken) = true
  before : ∀ k < taken.length, stop (buf ++ taken.take k) = false

theorem FirstStop.nil {buf : List α} (h : stop buf = true) : FirstStop stop buf [] :=
  ⟨by rwa [List.append_nil], fun k hk => absurd hk (Nat.not_lt_zero k)⟩

theorem FirstStop.cons_iff {buf taken : List α} {x : α} (h : stop buf = false) :
    FirstStop stop buf (x :: taken) ↔ FirstStop stop (buf ++ [x]) taken := by
  constructor
  · rintro ⟨hs, hb⟩
    refine ⟨by simpa using hs, fun k hk => ?_⟩
    simpa using hb (k + 1) (by simpa using hk)
  · rintro ⟨hs, hb⟩
    refine ⟨by simpa using hs, fun k hk => ?_⟩
    cases k with
    | zero => simpa using h
    | succ k => simpa using hb k (by simpa using hk)

/-- One item is read, or none. -/
theorem read_one {src src' : List (Chunk α)} {xs : List α} (h : read 1 src = (.chunk xs, src')) :
    xs = [] ∨ ∃ x, xs = [x] ∧ items src = x :: items src' := by
  obtain ⟨hu, hlen, -⟩ := read_lossless.chunk (Nat.one_pos) h
  match xs, hlen with
  | [], _ => exact .inl rfl
  | [x], _ => exact .inr ⟨x, rfl, hu⟩

/-- What was found is the shortest, and the rest of the stream is left. -/
theorem readUntil_found {rounds : Nat} {buf out : List α} {src left : List (Chunk α)}
    (h : readUntil stop cap rounds buf src = (.found, out, left)) :
    ∃ taken, out = buf ++ taken ∧ items src = taken ++ items left ∧ FirstStop stop buf taken ∧
      (taken ≠ [] → out.length ≤ cap) := by
  have hdone {buf : List α} {src : List (Chunk α)} (hs : stop buf = true) :
      ∃ taken, buf = buf ++ taken ∧ items src = taken ++ items src ∧ FirstStop stop buf taken ∧
        (taken ≠ [] → buf.length ≤ cap) := ⟨[], by simp, rfl, .nil hs, fun hn => absurd rfl hn⟩
  induction rounds generalizing buf src with
  | zero =>
    rw [readUntil] at h
    split at h
    · cases h
      exact hdone ‹_›
    · cases h
  | succ rounds ih =>
    rw [readUntil] at h
    split at h
    · cases h
      exact hdone ‹_›
    · rename_i hs
      have hs : stop buf = false := by simpa using hs
      split at h
      · rename_i src' hr
        obtain ⟨taken, hout, hitems, hrest⟩ := ih h
        exact ⟨taken, hout, (read_lossless.none hr).1 ▸ hitems, hrest⟩
      · cases h
      · cases h
      · rename_i xs src' hne hr
        obtain hnil | ⟨x, rfl, hitems⟩ := read_one hr
        · exact (hne hnil).elim
        · split at h
          · cases h
          · rename_i hcap
            obtain ⟨taken, hout, hrest, hfirst, hle⟩ := ih h
            refine ⟨x :: taken, by simpa using hout, by rw [hitems, hrest]; rfl, (FirstStop.cons_iff hs).2 hfirst, ?_⟩
            intro _
            cases taken with
            | nil =>
              rw [hout, List.append_nil]
              omega
            | cons y taken => exact hle (List.cons_ne_nil _ _)

/-- What is left of a source is as patient as the source. -/
theorem readUntil_keeps {soft : List Nat} (rounds : Nat) {buf : List α} {src : List (Chunk α)} (hopen : Open soft src) :
    Open soft (readUntil stop cap rounds buf src).2.2 := by
  induction rounds generalizing buf src with
  | zero =>
    rw [readUntil]
    split <;> exact hopen
  | succ rounds ih =>
    have hkeeps {r : Read α} {src' : List (Chunk α)} (hr : read 1 src = (r, src')) : Open soft src' :=
      (read_patient soft).keeps hopen hr
    rw [readUntil]
    split
    · exact hopen
    · split <;> rename_i hr
      · exact ih (hkeeps hr)
      · exact hkeeps hr
      · exact hkeeps hr
      · split
        · exact hkeeps hr
        · exact ih (hkeeps hr)

/-- The first `k` items come without an error and without an end before them. -/
def Clean (k : Nat) : List (Chunk α) → Prop
  | [] => True
  | .none :: src => k = 0 ∨ Clean k src
  | .error _ :: _ => k = 0
  | .data xs :: src => k = 0 ∨ xs ≠ [] ∧ Clean (k - xs.length) src

theorem Clean.none {k : Nat} {src src' : List (Chunk α)} (h : Clean (k + 1) src) (hr : read 1 src = (.none, src')) :
    Clean (k + 1) src' := by
  cases src with
  | nil => cases hr; exact h
  | cons c src =>
    cases c with
    | none => cases hr; exact h.resolve_left (Nat.succ_ne_zero k)
    | error e => cases hr
    | data xs => cases xs <;> cases hr

theorem Clean.chunk {k : Nat} {src src' : List (Chunk α)} {xs : List α} (h : Clean (k + 1) src)
    (hr : read 1 src = (.chunk xs, src')) : xs ≠ [] ∧ Clean k src' := by
  cases src with
  | nil => cases hr
  | cons c src =>
    cases c with
    | none => cases hr
    | error e => cases hr
    | data ys =>
      have hdata : ys ≠ [] ∧ Clean (k + 1 - ys.length) src := h.resolve_left (Nat.succ_ne_zero k)
      obtain ⟨y, ys, rfl⟩ := List.exists_cons_of_ne_nil hdata.1
      simp only [read, Prod.mk.injEq, Read.chunk.injEq] at hr
      obtain ⟨rfl, rfl⟩ := hr
      have hclean : Clean (k - ys.length) src := by simpa using hdata.2
      refine ⟨List.cons_ne_nil _ _, ?_⟩
      cases ys with
      | nil => exact hclean
      | cons z ys => exact .inr ⟨List.cons_ne_nil _ _, hclean⟩

theorem Clean.error {k e : Nat} {src src' : List (Chunk α)} (h : Clean (k + 1) src) : read 1 src ≠ (.error e, src') := by
  intro hr
  cases src with
  | nil => cases hr
  | cons c src =>
    cases c with
    | none => cases hr
    | error e => cases h
    | data xs => cases xs <;> cases hr

/-- How many reads find nothing before the first `k` items are out. -/
def stallsBefore : Nat → List (Chunk α) → Nat
  | 0, _ => 0
  | _ + 1, [] => 0
  | k + 1, .data xs :: src => stallsBefore (k + 1 - xs.length) src
  | k + 1, _ :: src => stallsBefore (k + 1) src + 1

theorem stallsBefore_none {k : Nat} {src src' : List (Chunk α)} (hr : read 1 src = (.none, src')) (hmore : items src ≠ []) :
    stallsBefore (k + 1) src = stallsBefore (k + 1) src' + 1 := by
  cases src with
  | nil => exact absurd rfl hmore
  | cons c src =>
    cases c with
    | none => cases hr; rfl
    | error e => cases hr
    | data xs => cases xs <;> cases hr

theorem stallsBefore_chunk {k : Nat} {src src' : List (Chunk α)} {x : α} (hr : read 1 src = (.chunk [x], src')) :
    stallsBefore (k + 1) src = stallsBefore k src' := by
  cases src with
  | nil => cases hr
  | cons c src =>
    cases c with
    | none => cases hr
    | error e => cases hr
    | data ys =>
      cases ys with
      | nil => cases hr
      | cons y ys =>
        simp only [read, Prod.mk.injEq] at hr
        obtain ⟨-, rfl⟩ := hr
        have hfirst : stallsBefore (k + 1) (.data (y :: ys) :: src) = stallsBefore (k - ys.length) src := by
          rw [stallsBefore, List.length_cons, Nat.add_sub_add_right]
        rw [hfirst]
        cases ys with
        | nil => rfl
        | cons z ys =>
          cases k with
          | zero => rw [Nat.zero_sub, stallsBefore, stallsBefore]
          | succ k => rfl

/-- With enough rounds for the items and the misses before them, what is there is found. -/
theorem readUntil_finds {taken later : List α} (rounds : Nat) {buf : List α} {src : List (Chunk α)}
    (hfirst : FirstStop stop buf taken) (hitems : items src = taken ++ later) (hclean : Clean taken.length src)
    (hcap : (buf ++ taken).length ≤ cap) (hrounds : taken.length + stallsBefore taken.length src ≤ rounds) :
    ∃ left, readUntil stop cap rounds buf src = (.found, buf ++ taken, left) ∧ items left = later := by
  induction rounds generalizing buf taken src with
  | zero =>
    obtain rfl : taken = [] := List.length_eq_zero_iff.1 (by omega)
    have hs := hfirst.stops
    rw [List.append_nil] at hs ⊢
    exact ⟨src, by rw [readUntil, if_pos hs], hitems⟩
  | succ rounds ih =>
    cases taken with
    | nil =>
      have hs := hfirst.stops
      rw [List.append_nil] at hs ⊢
      exact ⟨src, by rw [readUntil, if_pos hs], hitems⟩
    | cons x taken =>
      have hs : stop buf = false := by simpa using hfirst.before 0 (by simp)
      have hmore : items src ≠ [] := by simp [hitems]
      rw [List.length_cons] at hclean hrounds
      rw [readUntil, if_neg (by simp [hs])]
      split
      · rename_i src' hr
        rw [stallsBefore_none hr hmore] at hrounds
        exact ih hfirst ((read_lossless.none hr).1.trans hitems) (hclean.none hr) hcap (by rw [List.length_cons]; omega)
      · exact absurd ‹_› hclean.error
      · exact absurd rfl (hclean.chunk ‹_›).1
      · rename_i xs src' hne hr
        obtain ⟨y, rfl, hy⟩ := (read_one hr).resolve_left fun hnil => hne hnil
        rw [hitems] at hy
        obtain ⟨rfl, hlater⟩ := List.cons.inj hy
        have hlen : (buf ++ [x]).length ≤ cap := by
          simp only [List.length_append, List.length_cons, List.length_nil] at hcap ⊢
          omega
        rw [if_neg (by omega)]
        rw [stallsBefore_chunk hr] at hrounds
        obtain ⟨left, hrun, hleft⟩ := ih ((FirstStop.cons_iff hs).1 hfirst) hlater.symm (hclean.chunk hr).2
          (by simpa using hcap) (by omega)
        exact ⟨left, by simpa using hrun, hleft⟩

/-! ## Words -/

section Words
variable [DecidableEq α]

/-- The first place where `word` stands in `s`. -/
def indexOf (word s : List α) : Option Nat := (List.range (s.length + 1)).find? fun i => word.isPrefixOf (s.drop i)

theorem indexOf_eq_some {word s : List α} {i : Nat} :
    indexOf word s = some i ↔ i ≤ s.length ∧ word <+: s.drop i ∧ ∀ j < i, ¬ word <+: s.drop j := by
  simp only [indexOf, List.find?_range_eq_some, List.isPrefixOf_iff_prefix, List.mem_range, Nat.lt_succ_iff,
    Bool.not_eq_true', Bool.eq_false_iff, ne_eq]
  tauto

theorem indexOf_end {word s : List α} {i : Nat} (h : indexOf word s = some i) : i + word.length ≤ s.length := by
  obtain ⟨hi, hw, -⟩ := indexOf_eq_some.1 h
  have := hw.length_le
  rw [List.length_drop] at this
  omega

/-- A word found in the front of a text is found there in the text. -/
theorem indexOf_append {word s : List α} {i : Nat} (h : indexOf word s = some i) (t : List α) :
    indexOf word (s ++ t) = some i := by
  have hend := indexOf_end h
  obtain ⟨hi, hw, hfirst⟩ := indexOf_eq_some.1 h
  refine indexOf_eq_some.2 ⟨by rw [List.length_append]; omega, ?_, fun j hj hp => hfirst j hj ?_⟩
  · rw [List.drop_append_of_le_length hi]
    exact hw.trans (List.prefix_append _ _)
  · rw [List.drop_append_of_le_length (by omega)] at hp
    exact List.prefix_of_prefix_length_le hp (List.prefix_append _ _) (by rw [List.length_drop]; omega)

/-- The word is read whole: the shortest start of a text that holds it ends with it. -/
theorem firstStop_word {word s : List α} {i : Nat} (h : indexOf word s = some i) :
    FirstStop (fun b => (indexOf word b).isSome) [] (s.take (i + word.length)) := by
  have hend := indexOf_end h
  obtain ⟨hi, hw, hfirst⟩ := indexOf_eq_some.1 h
  constructor
  · have : indexOf word (s.take (i + word.length)) = some i := by
      refine indexOf_eq_some.2 ⟨by rw [List.length_take]; omega, ?_, fun j hj hp => hfirst j hj ?_⟩
      · rw [List.drop_take, Nat.add_sub_cancel_left]
        exact List.prefix_iff_eq_take.1 hw ▸ List.prefix_rfl
      · rw [List.drop_take] at hp
        exact hp.trans (List.take_prefix _ _)
    rw [List.nil_append, this]
    rfl
  · intro k hk
    rw [List.length_take] at hk
    rw [List.nil_append, List.take_take, Nat.min_eq_left (by omega), Option.isSome_eq_false_iff,
      Option.isNone_iff_eq_none]
    cases hj : indexOf word (s.take k) with
    | none => rfl
    | some j =>
      have hle := indexOf_end hj
      have happ := indexOf_append hj (s.drop k)
      rw [List.take_append_drop, h, Option.some.injEq] at happ
      rw [List.length_take] at hle
      omega

/-- What is the shortest start that holds the word ends at its first place. -/
theorem firstStop_end {word taken : List α}
    (h : FirstStop (fun b => (indexOf word b).isSome) [] taken) (later : List α) :
    ∃ i, indexOf word taken = some i ∧ indexOf word (taken ++ later) = some i ∧ taken.length = i + word.length := by
  obtain ⟨i, hi⟩ := Option.isSome_iff_exists.1 h.stops
  rw [List.nil_append] at hi
  refine ⟨i, hi, indexOf_append hi later, Nat.le_antisymm (Nat.le_of_not_lt fun hlt => ?_) (indexOf_end hi)⟩
  have hb := h.before (i + word.length) hlt
  have hs := (firstStop_word hi).stops
  rw [hb] at hs
  cases hs

end Words

end LinkLib.Source
