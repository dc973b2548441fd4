import CalcBridge.Wire.Timed
/-!
# The traced readers (`src/wire.py`)

`recv_n_traced` reads as `recv_n` does and gives up at an edge that both lines
show. The levels and the clock are any.
-/
open LinkLib LinkLib.Polling

namespace CalcBridge.Wire.Timed

/-! ## Reading `n` bytes -/

/-- `idle()`. -/
def idle : Call Unit := do
  release .tip
  release .ring

/-- `for i in range(n)`: the bytes up to the first that does not come. -/
def recvAll (recv : Call (Option UInt8)) : Nat → Call Bytes
  | 0 => return []
  | n + 1 => do
    match ← recv with
    | none => return []
    | some b =>
      let bs ← recvAll recv n
      return b :: bs

/-- `recv_n`, without its prints. -/
def recvN (n timeoutMs : Nat) : Call Bytes := do
  idle
  recvAll (recvByte timeoutMs) n

/-- `recv_n_traced`, without its prints. -/
def recvNTraced (n timeoutMs : Nat) : Call Bytes := do
  idle
  recvAll (recvByteTraced timeoutMs) n

variable {α β : Type}

/-- What `traced` finds `plain` finds, and `traced` returns wherever `plain` does: with the same, or with nothing. -/
structure Traces (traced plain : Call (Option α)) : Prop where
  found : ∀ {w a t}, Returns World.perform traced w (some a) t → Returns World.perform plain w (some a) t
  returns : ∀ {w r t}, Returns World.perform plain w r t →
    Returns World.perform traced w r t ∨ ∃ t', Returns World.perform traced w none t'

theorem Traces.refl (p : Call (Option α)) : Traces p p := ⟨id, Or.inl⟩

theorem returns_orNone {p : Call (Option α)} {g : α → Call (Option β)} {w u : World} {r : Option β} :
    Returns World.perform (orNone p g) w r u ↔
      (r = none ∧ Returns World.perform p w none u) ∨
        ∃ a t, Returns World.perform p w (some a) t ∧ Returns World.perform (g a) t r u := by
  refine returns_bind.trans ⟨?_, ?_⟩
  · rintro ⟨_ | a, t, hp, hg⟩
    · obtain ⟨rfl, rfl⟩ := returns_ret.1 hg
      exact Or.inl ⟨rfl, hp⟩
    · exact Or.inr ⟨a, t, hp, hg⟩
  · rintro (⟨rfl, hp⟩ | ⟨a, t, hp, hg⟩)
    · exact ⟨none, u, hp, returns_ret.2 ⟨rfl, rfl⟩⟩
    · exact ⟨some a, t, hp, hg⟩

theorem Traces.orNone {p q : Call (Option α)} {f g : α → Call (Option β)} (hp : Traces p q) (hg : ∀ a, Traces (f a) (g a)) :
    Traces (orNone p f) (orNone q g) := by
  constructor
  · intro w b u h
    rcases returns_orNone.1 h with ⟨hb, -⟩ | ⟨a, t, ha, hb⟩
    · cases hb
    · exact returns_orNone.2 (.inr ⟨a, t, hp.found ha, (hg a).found hb⟩)
  · intro w r u h
    rcases returns_orNone.1 h with ⟨rfl, hnone⟩ | ⟨a, t, ha, hr⟩
    · rcases hp.returns hnone with hsame | ⟨t', hstop⟩
      · exact Or.inl (returns_orNone.2 (.inl ⟨rfl, hsame⟩))
      · exact Or.inr ⟨t', returns_orNone.2 (.inl ⟨rfl, hstop⟩)⟩
    · rcases hp.returns ha with hsame | ⟨t', hstop⟩
      · rcases (hg a).returns hr with hsame' | ⟨t', hstop⟩
        · exact Or.inl (returns_orNone.2 (.inr ⟨a, t, hsame, hsame'⟩))
        · exact Or.inr ⟨t', returns_orNone.2 (.inr ⟨a, t, hsame, hstop⟩)⟩
      · exact Or.inr ⟨t', returns_orNone.2 (.inl ⟨rfl, hstop⟩)⟩

/-! ## Bits and bytes -/

/-- What follows the first edge, in `recv_bit` and in the traced loop. -/
def afterEdge : Option (Bool × Bool) → Call (Option Bool)
  | none => return none
  | some (t, _) =>
    if t = false then do
      acknowledge false
      return some false
    else do
      acknowledge true
      return some true

def afterEdgeTraced : Option (Bool × Bool) → Call (Option Bool)
  | none => return none
  | some (t, r) =>
    if t = false ∧ r = true then do
      acknowledge false
      return some false
    else if r = false ∧ t = true then do
      acknowledge true
      return some true
    else return none

theorem recvBit_eq (timeoutMs : Nat) : recvBit timeoutMs =
    (ticksMs.bind fun start => (edge (Ticks.ticksAdd start timeoutMs)).bind afterEdge) := rfl

theorem recvBitTraced_eq (timeoutMs : Nat) : recvBitTraced timeoutMs =
    (ticksMs.bind fun start => (edge (Ticks.ticksAdd start timeoutMs)).bind afterEdgeTraced) := rfl

/-- Behind the same edge the two do the same, unless it is on both lines. -/
theorem afterEdgeTraced_cases (e : Option (Bool × Bool)) :
    afterEdgeTraced e = afterEdge e ∨ afterEdgeTraced e = Pure.pure none := by
  rcases e with _ | ⟨_ | _, _ | _⟩
  · exact Or.inl rfl
  · exact Or.inr rfl
  · exact Or.inl rfl
  · exact Or.inl rfl
  · exact Or.inr rfl

theorem Traces.bind {p : Call α} {f g : α → Call (Option β)} (h : ∀ a, Traces (f a) (g a)) : Traces (p.bind f) (p.bind g) := by
  constructor
  · intro w b u hret
    obtain ⟨a, t, ha, hb⟩ := returns_bind.1 hret
    exact returns_bind.2 ⟨a, t, ha, (h a).found hb⟩
  · intro w r u hret
    obtain ⟨a, t, ha, hr⟩ := returns_bind.1 hret
    rcases (h a).returns hr with hsame | ⟨t', hstop⟩
    · exact Or.inl (returns_bind.2 ⟨a, t, ha, hsame⟩)
    · exact Or.inr ⟨t', returns_bind.2 ⟨a, t, ha, hstop⟩⟩

theorem traces_bit (timeoutMs : Nat) : Traces (recvBitTraced timeoutMs) (recvBit timeoutMs) := by
  rw [recvBitTraced_eq, recvBit_eq]
  refine .bind fun start => .bind fun e => ?_
  rcases afterEdgeTraced_cases e with h | h
  · rw [h]
    exact .refl _
  · rw [h]
    refine ⟨?_, fun _ => Or.inr ⟨_, returns_ret.2 ⟨rfl, rfl⟩⟩⟩
    intro w a t hret
    cases (returns_ret.1 hret).1

theorem traces_byte (timeoutMs : Nat) : Traces (recvByteTraced timeoutMs) (recvByte timeoutMs) := by
  have hbits : ∀ is b, Traces (recvBits (recvBitTraced timeoutMs) is b) (recvBits (recvBit timeoutMs) is b) := by
    intro is
    induction is with
    | nil => exact fun b => .refl _
    | cons i is ih => exact fun b => (traces_bit timeoutMs).orNone fun bit => ih _
  exact hbits _ _

/-! ## Rows of bytes -/

theorem returns_recvAll_succ {recv : Call (Option UInt8)} {n : Nat} {w u : World} {out : Bytes} :
    Returns World.perform (recvAll recv (n + 1)) w out u ↔
      (out = [] ∧ Returns World.perform recv w none u) ∨
        ∃ b t bs, Returns World.perform recv w (some b) t ∧ Returns World.perform (recvAll recv n) t bs u ∧ out = b :: bs := by
  refine returns_bind.trans ⟨?_, ?_⟩
  · rintro ⟨_ | b, t, hb, hrest⟩
    · obtain ⟨rfl, rfl⟩ := returns_ret.1 hrest
      exact Or.inl ⟨rfl, hb⟩
    · obtain ⟨bs, t', hbs, hout⟩ := returns_bind.1 hrest
      obtain ⟨rfl, rfl⟩ := returns_ret.1 hout
      exact Or.inr ⟨b, t, bs, hb, hbs, rfl⟩
  · rintro (⟨rfl, hnone⟩ | ⟨b, t, bs, hb, hbs, rfl⟩)
    · exact ⟨none, u, hnone, returns_ret.2 ⟨rfl, rfl⟩⟩
    · exact ⟨some b, t, hb, returns_bind.2 ⟨bs, u, hbs, returns_ret.2 ⟨rfl, rfl⟩⟩⟩

/-- All `n` bytes of the traced reader are those of the plain one. -/
theorem Traces.recvAll_full {p q : Call (Option UInt8)} (h : Traces p q) {n : Nat} {w t : World} {out : Bytes}
    (hret : Returns World.perform (recvAll p n) w out t) (hlen : out.length = n) : Returns World.perform (recvAll q n) w out t := by
  induction n generalizing w out with
  | zero => exact hret
  | succ n ih =>
    rcases returns_recvAll_succ.1 hret with ⟨rfl, -⟩ | ⟨b, u, bs, hb, hbs, rfl⟩
    · cases hlen
    · exact returns_recvAll_succ.2 (.inr ⟨b, u, bs, h.found hb, ih hbs (Nat.succ.inj hlen), rfl⟩)

/-- Where the plain reader returns the traced one does, with the same bytes or with a shorter front of them. -/
theorem Traces.recvAll_front {p q : Call (Option UInt8)} (h : Traces p q) {n : Nat} {w t : World} {out : Bytes}
    (hret : Returns World.perform (recvAll q n) w out t) :
    ∃ out' t', Returns World.perform (recvAll p n) w out' t' ∧ (out' = out ∧ t' = t ∨ out'.length < n ∧ out' <+: out) := by
  induction n generalizing w out with
  | zero => exact ⟨out, t, hret, Or.inl ⟨rfl, rfl⟩⟩
  | succ n ih =>
    have hstops : ∀ {t'}, Returns World.perform p w none t' → ∃ out' t', Returns World.perform (recvAll p (n + 1)) w out' t' ∧
        (out' = out ∧ t' = t ∨ out'.length < n + 1 ∧ out' <+: out) := fun hnone =>
      ⟨[], _, returns_recvAll_succ.2 (.inl ⟨rfl, hnone⟩), Or.inr ⟨Nat.succ_pos n, List.nil_prefix⟩⟩
    rcases returns_recvAll_succ.1 hret with ⟨rfl, hnone⟩ | ⟨b, u, bs, hb, hbs, rfl⟩
    · rcases h.returns hnone with hsame | ⟨t', hstop⟩
      · exact ⟨[], t, returns_recvAll_succ.2 (.inl ⟨rfl, hsame⟩), Or.inl ⟨rfl, rfl⟩⟩
      · exact hstops hstop
    · rcases h.returns hb with hsame | ⟨t', hstop⟩
      · obtain ⟨bs', t', hbs', hcase⟩ := ih hbs
        refine ⟨b :: bs', t', returns_recvAll_succ.2 (.inr ⟨b, u, bs', hsame, hbs', rfl⟩), ?_⟩
        rcases hcase with ⟨rfl, rfl⟩ | ⟨hlt, hfront⟩
        · exact Or.inl ⟨rfl, rfl⟩
        · exact Or.inr ⟨Nat.succ_lt_succ hlt, (List.cons_prefix_cons).2 ⟨rfl, hfront⟩⟩
      · exact hstops hstop

/-! ## The whole calls -/

theorem Clean.recvAll {recv : Call (Option UInt8)} (h : Clean recv) (n : Nat) : Clean (recvAll recv n) := by
  induction n with
  | zero => exact Clean.pure []
  | succ n ih =>
    apply Takes.bind h
    rintro (_ | b)
    · exact Clean.pure []
    · exact Takes.bind ih fun bs => Clean.pure _

/-- Whatever was pulled before, `idle()` releases it. -/
theorem returns_idle_bind {q : Call α} {w t : World} {a : α} :
    Returns World.perform (idle >>= fun _ => q) w a t ↔ Returns World.perform q { w with pins := Pins.idle } a t :=
  returns_op.trans returns_op

theorem pins_idle_of_returns {q : Call α} (hq : Clean q) {w t : World} {a : α}
    (h : Returns World.perform (idle >>= fun _ => q) w a t) : t.pins = Pins.idle :=
  (hq.released rfl).2 a t (returns_idle_bind.1 h)

/-- The traced reader leaves both lines released. When it reads all `n` bytes,
`recv_n` reads the same and both end in the same place; and where `recv_n`
returns, it returns, with those bytes or with a shorter front of them. -/
theorem traced_agrees (n timeoutMs : Nat) (w : World) :
    (∀ out t, Returns World.perform (recvNTraced n timeoutMs) w out t →
      t.pins = Pins.idle ∧ (out.length = n → Returns World.perform (recvN n timeoutMs) w out t)) ∧
    ∀ out t, Returns World.perform (recvN n timeoutMs) w out t → t.pins = Pins.idle ∧
      ∃ out' t', Returns World.perform (recvNTraced n timeoutMs) w out' t' ∧
        (out' = out ∧ t' = t ∨ out'.length < n ∧ out' <+: out) := by
  have hbyte := traces_byte timeoutMs
  refine ⟨?_, ?_⟩
  · intro out t h
    refine ⟨pins_idle_of_returns ((clean_recvBits (clean_recvBitTraced timeoutMs) _ _).recvAll n) h, ?_⟩
    intro hlen
    exact returns_idle_bind.2 (hbyte.recvAll_full (returns_idle_bind.1 h) hlen)
  · intro out t h
    refine ⟨pins_idle_of_returns ((clean_recvBits (clean_recvBit timeoutMs) _ _).recvAll n) h, ?_⟩
    obtain ⟨out', t', hret, hcase⟩ := hbyte.recvAll_front (returns_idle_bind.1 h)
    exact ⟨out', t', returns_idle_bind.2 hret, hcase⟩

end CalcBridge.Wire.Timed
