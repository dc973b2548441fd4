import Mathlib.Data.List.Induction
/-!
# A one-place buffer, seen from its history

Entries of a history may set a latch and may clear it (an entry that does
both sets first). `held` computes the value after the history with the number
of the entry that set it, and `offered` what a clearing entry finds; `Latest`
and `Offers` say the same about the history itself. A value that was set is
taken by one clear, or still held, or was overwritten.
-/

namespace LinkLib.Latch

variable {α τ : Type} (set : α → Option τ) (clear : α → Bool)

/-- The latch once entry number `n` has set it. -/
def offer (n : Nat) (x : α) (cur : Option (Nat × τ)) : Option (Nat × τ) := ((set x).map (n, ·)).or cur

/-- One entry, on the number of entries so far and the latch. -/
def push (st : Nat × Option (Nat × τ)) (x : α) : Nat × Option (Nat × τ) :=
  (st.1 + 1, if clear x then none else offer set st.1 x st.2)

def held (h : List α) : Option (Nat × τ) := (h.foldl (push set clear) (0, none)).2

/-- The latest value set since the last clear, by `x` itself or before it. -/
def offered (h : List α) (x : α) : Option (Nat × τ) := offer set h.length x (held set clear h)

/-- Entry `i` set `v`, and nothing from there on cleared or overwrote it. -/
structure Latest (h : List α) (i : Nat) (v : τ) : Prop where
  sets : ∃ x, h[i]? = some x ∧ set x = some v
  uncleared : ∀ j x, i ≤ j → h[j]? = some x → clear x = false
  last : ∀ j x, i < j → h[j]? = some x → set x = none

/-- At entry `k` the latch shows the value `v` of entry `i`: the latest one
set up to `k`, with no clear before `k`. -/
structure Offers (h : List α) (k i : Nat) (v : τ) : Prop where
  le : i ≤ k
  sets : ∃ x, h[i]? = some x ∧ set x = some v
  uncleared : ∀ j x, i ≤ j → j < k → h[j]? = some x → clear x = false
  last : ∀ j x, i < j → j ≤ k → h[j]? = some x → set x = none

/-- The clearing entry `k` takes the value `v` that entry `i` set. -/
structure Taken (h : List α) (k i : Nat) (v : τ) : Prop where
  clears : ∃ x, h[k]? = some x ∧ clear x = true
  offers : Offers set clear h k i v

/-- A later entry set the latch again before any clear. -/
def Overwritten (h : List α) (i : Nat) : Prop :=
  ∃ j y, i < j ∧ h[j]? = some y ∧ set y ≠ none ∧ ∀ l z, i ≤ l → l < j → h[l]? = some z → clear z = false

variable {set clear}

theorem push_count (h : List α) : (h.foldl (push set clear) (0, none)).1 = h.length := by
  induction h using List.reverseRecOn with
  | nil => rfl
  | append_singleton h x ih => simp [push, ih]

@[simp] theorem held_nil : held set clear [] = none := rfl

theorem held_snoc (h : List α) (x : α) :
    held set clear (h ++ [x]) = if clear x then none else offered set clear h x := by
  simp only [held, offered, List.foldl_append, List.foldl_cons, List.foldl_nil, push, push_count]

theorem lt_length_of_getElem? {h : List α} {i : Nat} {x : α} (hx : h[i]? = some x) : i < h.length :=
  (List.getElem?_eq_some_iff.1 hx).1

theorem getElem?_snoc_old {h : List α} {i : Nat} {y : α} (x : α) (hy : h[i]? = some y) : (h ++ [x])[i]? = some y := by
  rw [List.getElem?_append_left (lt_length_of_getElem? hy), hy]

/-- An entry of `h ++ [x]` is an entry of `h` or `x` itself. -/
theorem getElem?_snoc_cases {h : List α} {x y : α} {i : Nat} (hy : (h ++ [x])[i]? = some y) :
    i < h.length ∧ h[i]? = some y ∨ i = h.length ∧ y = x := by
  rcases Nat.lt_trichotomy i h.length with hi | hi | hi
  · exact .inl ⟨hi, by rwa [List.getElem?_append_left hi] at hy⟩
  · subst hi; simp at hy; exact .inr ⟨rfl, hy.symm⟩
  · rw [List.getElem?_eq_none (by simp; omega)] at hy; cases hy

/-! ## The fold and the history -/

theorem latest_snoc_set {h : List α} {x : α} {w : τ} (hc : clear x = false) (hs : set x = some w) (i : Nat) (v : τ) :
    Latest set clear (h ++ [x]) i v ↔ i = h.length ∧ v = w := by
  constructor
  · rintro ⟨⟨y, hy, hv⟩, -, hlast⟩
    rcases getElem?_snoc_cases hy with ⟨hi, -⟩ | ⟨hi, rfl⟩
    · have := hlast h.length x hi (by simp)
      rw [hs] at this
      cases this
    · rw [hs] at hv
      exact ⟨hi, (Option.some.inj hv).symm⟩
  · rintro ⟨rfl, rfl⟩
    refine ⟨⟨x, by simp, hs⟩, ?_, ?_⟩
    · intro j y hj hy
      rcases getElem?_snoc_cases hy with ⟨hlt, -⟩ | ⟨-, rfl⟩
      · omega
      · exact hc
    · intro j y hj hy
      have := lt_length_of_getElem? hy
      simp at this
      omega

theorem latest_snoc_keep {h : List α} {x : α} (hc : clear x = false) (hs : set x = none) (i : Nat) (v : τ) :
    Latest set clear (h ++ [x]) i v ↔ Latest set clear h i v := by
  constructor
  · rintro ⟨⟨y, hy, hv⟩, hclear, hset⟩
    refine ⟨?_, fun j z hj hz => hclear j z hj (getElem?_snoc_old x hz),
      fun j z hj hz => hset j z hj (getElem?_snoc_old x hz)⟩
    rcases getElem?_snoc_cases hy with ⟨-, hy⟩ | ⟨-, rfl⟩
    · exact ⟨y, hy, hv⟩
    · rw [hs] at hv; cases hv
  · rintro ⟨⟨y, hy, hv⟩, hclear, hset⟩
    refine ⟨⟨y, getElem?_snoc_old x hy, hv⟩, fun j z hj hz => ?_, fun j z hj hz => ?_⟩
    · rcases getElem?_snoc_cases hz with ⟨-, hz⟩ | ⟨-, rfl⟩
      · exact hclear j z hj hz
      · exact hc
    · rcases getElem?_snoc_cases hz with ⟨-, hz⟩ | ⟨-, rfl⟩
      · exact hset j z hj hz
      · exact hs

/-- The latch holds what the history says is the latest uncleared value. -/
theorem held_iff (h : List α) (i : Nat) (v : τ) : held set clear h = some (i, v) ↔ Latest set clear h i v := by
  induction h using List.reverseRecOn with
  | nil =>
    refine ⟨fun hh => by simp at hh, ?_⟩
    intro hl
    obtain ⟨x, hx, -⟩ := hl.sets
    simp at hx
  | append_singleton h x ih =>
    rw [held_snoc]
    cases hc : clear x with
    | true =>
      simp only [if_true, reduceCtorEq, false_iff]
      intro hl
      obtain ⟨y, hy, -⟩ := hl.sets
      have hi := lt_length_of_getElem? hy
      have := hl.uncleared h.length x (by simp at hi; omega) (by simp)
      simp [hc] at this
    | false =>
      simp only [Bool.false_eq_true, if_false, offered, offer]
      cases hs : set x with
      | some w =>
        rw [latest_snoc_set hc hs]
        simp [eq_comm]
      | none =>
        rw [latest_snoc_keep hc hs, ← ih]
        simp

/-- What entry `k` shows when it sets nothing is the latest value before it. -/
theorem offers_iff_latest {h : List α} {k : Nat} {x : α} (hk : h[k]? = some x) (hs : set x = none) (i : Nat) (v : τ) :
    Offers set clear h k i v ↔ Latest set clear (h.take k) i v := by
  have htake : ∀ {j : Nat} {y : α}, j < k → h[j]? = some y → (h.take k)[j]? = some y := by
    intro j y hj hy
    rw [List.getElem?_take_of_lt hj, hy]
  have hback : ∀ {j : Nat} {y : α}, (h.take k)[j]? = some y → j < k ∧ h[j]? = some y := by
    intro j y hy
    have hj : j < k := by have := lt_length_of_getElem? hy; simp at this; omega
    exact ⟨hj, by rwa [List.getElem?_take_of_lt hj] at hy⟩
  -- Entry `k` sets nothing itself, so the history may as well stop before it.
  constructor
  · rintro ⟨hik, ⟨y, hy, hv⟩, hclear, hlast⟩
    have hne : i ≠ k := by
      rintro rfl
      rw [hk] at hy; cases hy; rw [hs] at hv; cases hv
    refine ⟨⟨y, htake (by omega) hy, hv⟩, ?_, ?_⟩
    · intro j z hj hz
      exact hclear j z hj (hback hz).1 (hback hz).2
    · intro j z hj hz
      exact hlast j z hj (Nat.le_of_lt (hback hz).1) (hback hz).2
  · intro hl
    obtain ⟨y, hy, hv⟩ := hl.sets
    obtain ⟨hik, hy⟩ := hback hy
    refine ⟨Nat.le_of_lt hik, ⟨y, hy, hv⟩, fun j z hj hjk hz => hl.uncleared j z hj (htake hjk hz),
      ?_⟩
    intro j z hj hjk hz
    rcases Nat.lt_or_eq_of_le hjk with hlt | rfl
    · exact hl.last j z hj (htake hlt hz)
    · rw [hk] at hz; cases hz; exact hs

/-- An entry that sets the latch shows its own value. -/
theorem offers_iff_self {h : List α} {k : Nat} {x : α} {w : τ} (hk : h[k]? = some x) (hs : set x = some w) (i : Nat)
    (v : τ) : Offers set clear h k i v ↔ i = k ∧ v = w := by
  constructor
  · rintro ⟨hik, ⟨y, hy, hv⟩, -, hlast⟩
    rcases Nat.lt_or_eq_of_le hik with hlt | rfl
    · have := hlast k x hlt (Nat.le_refl k) hk
      rw [hs] at this
      cases this
    · rw [hk] at hy; cases hy
      rw [hs] at hv
      exact ⟨rfl, (Option.some.inj hv).symm⟩
  · rintro ⟨rfl, rfl⟩
    exact ⟨Nat.le_refl i, ⟨x, hk, hs⟩, fun j y hj hjk _ => by omega, fun j y hj hjk _ => by omega⟩

/-- What a fold over the entries before `k` and entry `k` itself offers is
what the history says. -/
theorem offered_iff {h : List α} {k : Nat} {x : α} (hk : h[k]? = some x) (i : Nat) (v : τ) :
    offered set clear (h.take k) x = some (i, v) ↔ Offers set clear h k i v := by
  have hlen : (h.take k).length = k := by have := lt_length_of_getElem? hk; simp; omega
  cases hs : set x with
  | some w =>
    rw [offers_iff_self hk hs]
    simp [offered, offer, hs, hlen, eq_comm]
  | none =>
    rw [offers_iff_latest hk hs, ← held_iff]
    simp [offered, offer, hs]

/-- An empty latch: every value set so far has been cleared since. -/
theorem cleared_of_held_none {h : List α} (hh : held set clear h = none) {j : Nat} {x : α} (hx : h[j]? = some x)
    (hs : set x ≠ none) : ∃ l y, j ≤ l ∧ h[l]? = some y ∧ clear y = true := by
  induction h using List.reverseRecOn with
  | nil => simp at hx
  | append_singleton h z ih =>
    have hj : j ≤ h.length := by have := lt_length_of_getElem? hx; simp at this; omega
    rw [held_snoc] at hh
    split at hh
    · exact ⟨h.length, z, hj, by simp, ‹_›⟩
    · simp only [offered, offer, Option.or_eq_none_iff, Option.map_eq_none_iff] at hh
      rcases getElem?_snoc_cases hx with ⟨-, hx⟩ | ⟨-, rfl⟩
      · obtain ⟨l, y, hl, hy, hc⟩ := ih hh.2 hx
        exact ⟨l, y, hl, getElem?_snoc_old z hy, hc⟩
      · exact absurd hh.1 hs

/-- An entry that is offered nothing: every value set up to it has been
cleared before it. -/
theorem cleared_of_offered_none {h : List α} {k : Nat} {x : α} (hk : h[k]? = some x)
    (ho : offered set clear (h.take k) x = none) {j : Nat} {y : α} (hj : j ≤ k) (hy : h[j]? = some y)
    (hs : set y ≠ none) : ∃ l z, j ≤ l ∧ l < k ∧ h[l]? = some z ∧ clear z = true := by
  simp only [offered, offer, Option.or_eq_none_iff, Option.map_eq_none_iff] at ho
  rcases Nat.lt_or_eq_of_le hj with hlt | rfl
  · obtain ⟨l, z, hl, hz, hc⟩ := cleared_of_held_none ho.2 (by rwa [List.getElem?_take_of_lt hlt]) hs
    have hlk : l < k := by have := lt_length_of_getElem? hz; simp at this; omega
    exact ⟨l, z, hl, hlk, by rwa [List.getElem?_take_of_lt hlk] at hz, hc⟩
  · rw [hk] at hy; cases hy
    exact absurd ho.1 hs

/-! ## The fate of a value -/

/-- No value is taken twice. -/
theorem taken_unique {h : List α} {k k' i : Nat} {v v' : τ} (ht : Taken set clear h k i v)
    (ht' : Taken set clear h k' i v') : k = k' := by
  have key : ∀ {a b : Nat} {u w : τ}, a < b → Taken set clear h a i u → Taken set clear h b i w → False := by
    intro a b u w hab ha hb
    obtain ⟨x, hx, hc⟩ := ha.clears
    have := hb.offers.uncleared a x ha.offers.le hab hx
    rw [hc] at this
    cases this
  rcases Nat.lt_trichotomy k k' with hlt | heq | hlt
  · exact (key hlt ht ht').elim
  · exact heq
  · exact (key hlt ht' ht).elim

theorem Offers.mono {h : List α} {k i : Nat} {v : τ} (ho : Offers set clear h k i v) (hk : k < h.length) (x : α) :
    Offers set clear (h ++ [x]) k i v := by
  obtain ⟨y, hy, hv⟩ := ho.sets
  refine ⟨ho.le, ⟨y, getElem?_snoc_old x hy, hv⟩, fun j z hj hjk hz => ?_, fun j z hj hjk hz => ?_⟩
  · rw [List.getElem?_append_left (by omega)] at hz; exact ho.uncleared j z hj hjk hz
  · rw [List.getElem?_append_left (by omega)] at hz; exact ho.last j z hj hjk hz

theorem Taken.mono {h : List α} {k i : Nat} {v : τ} (ht : Taken set clear h k i v) (x : α) :
    Taken set clear (h ++ [x]) k i v := by
  obtain ⟨y, hy, hc⟩ := ht.clears
  exact ⟨⟨y, getElem?_snoc_old x hy, hc⟩, ht.offers.mono (lt_length_of_getElem? hy) x⟩

theorem Overwritten.mono {h : List α} {i : Nat} (ho : Overwritten set clear h i) (x : α) :
    Overwritten set clear (h ++ [x]) i := by
  obtain ⟨j, y, hij, hy, hs, hno⟩ := ho
  have hj := lt_length_of_getElem? hy
  refine ⟨j, y, hij, getElem?_snoc_old x hy, hs, fun l z hl hlj hz => hno l z hl hlj ?_⟩
  rwa [List.getElem?_append_left (by omega)] at hz

/-- An entry that finds `v` in the latch and clears it takes `v`; one that
does neither keeps it. -/
theorem taken_or_latest {h : List α} {y : α} {i : Nat} {v : τ}
    (ho : offered set clear h y = some (i, v)) :
    (∃ k, Taken set clear (h ++ [y]) k i v) ∨ Latest set clear (h ++ [y]) i v := by
  have hy : (h ++ [y])[h.length]? = some y := by simp
  cases hc : clear y with
  | true => exact .inl ⟨h.length, ⟨y, hy, hc⟩, (offered_iff hy i v).1 (by simpa using ho)⟩
  | false => exact .inr ((held_iff _ i v).1 (by rw [held_snoc, hc]; simpa using ho))

/-- Every value that was set is taken by a clear, still held, or overwritten. -/
theorem fate {h : List α} {i : Nat} {x : α} {v : τ} (hx : h[i]? = some x) (hs : set x = some v) :
    (∃ k, Taken set clear h k i v) ∨ Latest set clear h i v ∨ Overwritten set clear h i := by
  induction h using List.reverseRecOn with
  | nil => simp at hx
  | append_singleton h y ih =>
    rcases getElem?_snoc_cases hx with ⟨hi, hx⟩ | ⟨rfl, rfl⟩
    · rcases ih hx with ⟨k, hk⟩ | hheld | hover
      · exact .inl ⟨k, hk.mono y⟩
      · -- Still held before `y`: `y` overwrites it, or takes it, or keeps it.
        cases hsy : set y with
        | some w =>
          refine .inr (.inr ⟨h.length, y, hi, by simp, by simp [hsy], ?_⟩)
          intro l z hl hlj hz
          rw [List.getElem?_append_left hlj] at hz
          exact hheld.uncleared l z hl hz
        | none =>
          have ho : offered set clear h y = some (i, v) := by
            simp [offered, offer, hsy, (held_iff h i v).2 hheld]
          rcases taken_or_latest ho with ht | hl
          · exact .inl ht
          · exact .inr (.inl hl)
      · exact .inr (.inr (hover.mono y))
    · have ho : offered set clear h x = some (h.length, v) := by simp [offered, offer, hs]
      rcases taken_or_latest ho with ht | hl
      · exact .inl ht
      · exact .inr (.inl hl)

end LinkLib.Latch
