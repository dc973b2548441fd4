import CalcBridge.SendListen
/-!
# Senders without EOT

After a DATA packet `listen_loop` reads one more packet for at most 500 ms, in
case it is the EOT. A TI-82 sends none, and when its next RTS comes that early
it is read for the EOT: nobody answers it.
-/
open Relation LinkLib LinkLib.Programs LinkLib.Confluence

namespace CalcBridge.Transfer

/-- `send_var` as a TI-82 does it: nothing follows the ACK of the DATA packet. -/
def sendVarNoEot (m : UInt8) (v : Outgoing) : Program (Except String Bool) :=
  Program.sendRts m 0x82 (v.header 82) v.data 5000

/-- `send_var` itself is such a sender towards a TI-82. -/
theorem sendVarTo_ti82 (v : Outgoing) : sendVarTo 0x82 v = sendVarNoEot (pcIdFor 0x82) v := by
  rw [sendVarTo_eq]
  rfl

abbrev TimedReaches : Net Packet Shown → Net Packet Shown → Prop := ReflTransGen Net.Timed

theorem Reaches.timed {s d : Net Packet Shown} (h : Reaches true s d) : TimedReaches s d :=
  h.lift id fun _ _ => .move

section NoEot
variable (onReq : Option (UInt8 → Bytes → Option Bytes)) (m : UInt8)

/-- `listen_loop` with no filters and no time limit. -/
abbrev endless : Listen := unfiltered onReq 0

/-- The calls `vs` are still to be made, and `listen_loop` waits for an opener. -/
def awaits (vs : List (Nat × Outgoing)) (t : Nat) (oa ob : List Shown) : Net Packet Shown :=
  ⟨sender (sendAll (sendVarNoEot m) vs) [] oa, listener (endless onReq) (awaitingOpener (endless onReq) t) [] ob⟩

/-- The same, but `listen_loop` has just acknowledged the DATA packet of `v`. -/
def drains (v : Outgoing) (vs : List (Nat × Outgoing)) (oa ob : List Shown) : Net Packet Shown :=
  ⟨sender (sendAll (sendVarNoEot m) vs) [] oa,
    listener (endless onReq) (draining (endless onReq) (v.header 82) v.data 500) [] ob⟩

/-! ## A listener that nobody talks to -/

/-- A turn without an opener is over, and the next one begins. -/
theorem silent_turn {n : Node Packet Shown} (hstep : n.step true = none) (hexpire : n.expire = none) (ob : List Shown) :
    TimedReaches ⟨n, listener (endless onReq) (awaitingOpener (endless onReq) 0) [] ob⟩
      ⟨n.deliver [], listener (endless onReq) (awaitingOpener (endless onReq) 60000) [] ob⟩ := by
  refine .head (b := ⟨n, listener (endless onReq) (.ret true) [] ob⟩) (.tick (Net.still hstep rfl) ?_) ?_
  · simp only [Net.tick, hexpire]
    rfl
  · exact .single (.move (.b rfl))

/-- A sleep comes to its end, with as many silent turns as it takes. -/
theorem sleep_over (ms t : Nat) (next : Program Bool) (oa ob : List Shown) :
    ∃ t', TimedReaches ⟨sender (.sleep ms next) [] oa, listener (endless onReq) (awaitingOpener (endless onReq) t) [] ob⟩
      ⟨sender next [] oa, listener (endless onReq) (awaitingOpener (endless onReq) t') [] ob⟩ := by
  -- The turns do not matter: whatever time is left, one more millisecond can pass.
  induction ms generalizing t with
  | zero => exact ⟨t, .single (.move (.a rfl))⟩
  | succ ms ih =>
    have hpass : ∀ t, TimedReaches
        ⟨sender (.sleep (ms + 1) next) [] oa, listener (endless onReq) (awaitingOpener (endless onReq) (t + 1)) [] ob⟩
        ⟨sender (.sleep ms next) [] oa, listener (endless onReq) (awaitingOpener (endless onReq) t) [] ob⟩ := fun t => by
      rw [Nat.add_comm ms, Nat.add_comm t]
      exact Net.timed_pass (.sleep ms next _ [] oa) (.recv t _ _ ob) nofun
    cases t with
    | zero =>
      obtain ⟨t', ht'⟩ := ih 59999
      exact ⟨t', (silent_turn onReq rfl rfl ob).trans ((hpass 59999).trans ht')⟩
    | succ t =>
      obtain ⟨t', ht'⟩ := ih t
      exact ⟨t', (hpass t).trans ht'⟩

/-! ## One transfer -/

/-- A transfer up to the ACK of its DATA packet. `send_var` has returned then. -/
theorem transfer_drains (pause : Nat) (v : Outgoing) (vs : List (Nat × Outgoing)) (t : Nat) (oa ob : List Shown) :
    TimedReaches (awaits onReq m ((pause, v) :: vs) t oa ob) (drains onReq m v vs (oa ++ [.returned (.ok true)]) ob) := by
  obtain ⟨t', hslept⟩ := sleep_over onReq pause t
    ((sendVarNoEot m v).bind fun r => .out (.returned r) (sendAll (sendVarNoEot m) vs)) oa ob
  apply hslept.trans
  apply (rts_to_ack m 0x82 _ _ _ _ oa ob).timed.trans
  -- The 20 ms before the DATA packet.
  apply (Net.timed_pass (.sleep 0 _ _ [] oa) (.recv 9980 _ _ ob) nofun).trans
  refine .head (.move (.a rfl)) ?_
  apply (data_to_ack m 0x82 _ _ _ _ _ oa ob).timed.trans
  exact .single (.move (.a rfl))

/-- The 500 ms are over without a packet, and `on_var` is called. -/
theorem drained (v : Outgoing) (p : Program Bool) (oa ob : List Shown) (hstep : (sender p [] oa).step true = none)
    (hexpire : (sender p [] oa).expire = none) :
    TimedReaches
      ⟨sender p [] oa, listener (endless onReq) (draining (endless onReq) (v.header 82) v.data 0) [] ob⟩
      ⟨sender p [] oa,
        listener (endless onReq) (awaitingOpener (endless onReq) 60000) [] (ob ++ [.called (v.variable 82)])⟩ := by
  refine .head (.tick (Net.still hstep rfl) ?_) (finished_reaches onReq 0 v 82 p oa ob).timed
  simp only [Net.tick, hexpire]
  rfl

/-- The next call comes late enough. -/
theorem drains_late (v : Outgoing) {x : Nat × Outgoing} (hx : 500 < x.1) (vs : List (Nat × Outgoing)) (oa ob : List Shown) :
    ∃ x', TimedReaches (drains onReq m v (x :: vs) oa ob)
      (awaits onReq m ((x', x.2) :: vs) 60000 oa (ob ++ [.called (v.variable 82)])) := by
  obtain ⟨pause, w⟩ := x
  obtain ⟨late, rfl⟩ : ∃ late, pause = 500 + (late + 1) := ⟨pause - 501, by simp only at hx; omega⟩
  refine ⟨late + 1, .trans (Net.timed_pass (.sleep (late + 1) _ _ [] oa) (.recv 0 _ _ ob) nofun) ?_⟩
  exact drained onReq v _ oa ob rfl rfl

/-- There is no next call. -/
theorem drains_last (v : Outgoing) (oa ob : List Shown) :
    TimedReaches (drains onReq m v [] oa ob) (awaits onReq m [] 60000 oa (ob ++ [.called (v.variable 82)])) :=
  .trans (Net.timed_pass (.ended _ [] oa) (.recv 0 _ _ ob) nofun) (drained onReq v _ oa ob rfl rfl)

/-- The next RTS comes while `listen_loop` still looks for an EOT: 5 s later the call gives up. -/
theorem drains_early (v : Outgoing) {x : Nat × Outgoing} (hx : x.1 ≤ 500) (vs : List (Nat × Outgoing)) (oa ob : List Shown) :
    TimedReaches (drains onReq m v (x :: vs) oa ob)
      (awaits onReq m vs 55000 (oa ++ [.returned (.ok false)]) (ob ++ [.called (v.variable 82)])) := by
  obtain ⟨pause, w⟩ := x
  obtain ⟨left, hleft⟩ := Nat.exists_eq_add_of_le hx
  rw [drains, hleft]
  apply (Net.timed_pass (.sleep 0 _ _ [] oa) (.recv left _ _ ob) nofun).trans
  refine .head (.move (.a rfl)) ?_
  refine .head (.move (.a rfl)) ?_
  refine .head (.move (.b rfl)) ?_
  apply (finished_reaches onReq 0 v 82 _ oa ob).timed.trans
  apply (Net.timed_pass (.recv 0 _ _ oa) (.recv 55000 _ _ _) nofun).trans
  refine .head (.tick (Net.still rfl rfl) rfl) ?_
  exact .single (.move (.a rfl))

/-! ## All transfers -/

def allReturned (vs : List (Nat × Outgoing)) : List Shown := vs.map fun _ => .returned (.ok true)

def allCalled (vs : List (Nat × Outgoing)) : List Shown := vs.map fun x => .called (x.2.variable 82)

theorem late_reach (v : Outgoing) (vs : List (Nat × Outgoing)) (hlate : ∀ x ∈ vs, 500 < x.1) (oa ob : List Shown) :
    TimedReaches (drains onReq m v vs oa ob)
      (awaits onReq m [] 60000 (oa ++ allReturned vs) (ob ++ .called (v.variable 82) :: allCalled vs)) := by
  induction vs generalizing v oa ob with
  | nil => simpa [allReturned, allCalled] using drains_last onReq m v oa ob
  | cons x vs ih =>
    obtain ⟨x', hnext⟩ := drains_late onReq m v (hlate x List.mem_cons_self) vs oa ob
    have hrest := ih x.2 (fun y hy => hlate y (List.mem_cons_of_mem x hy)) (oa ++ [.returned (.ok true)])
      (ob ++ [.called (v.variable 82)])
    simp only [List.append_assoc, List.singleton_append] at hrest
    exact hnext.trans ((transfer_drains onReq m x' x.2 vs 60000 oa _).trans hrest)

/-- The first early call fails. -/
theorem early_fails (v : Outgoing) (vs : List (Nat × Outgoing)) (hearly : ¬ ∀ x ∈ vs, 500 < x.1) (oa ob : List Shown) :
    ∃ d, TimedReaches (drains onReq m v vs oa ob) d ∧ .returned (.ok false) ∈ d.a.outs := by
  -- The calls before the first early one go through.
  induction vs generalizing v oa ob with
  | nil => exact absurd nofun hearly
  | cons x vs ih =>
    by_cases hx : 500 < x.1
    · obtain ⟨x', hnext⟩ := drains_late onReq m v hx vs oa ob
      have hrest : ¬ ∀ y ∈ vs, 500 < y.1 := fun h => hearly (List.forall_mem_cons.2 ⟨hx, h⟩)
      obtain ⟨d, hd, hfalse⟩ := ih x.2 hrest (oa ++ [.returned (.ok true)]) (ob ++ [.called (v.variable 82)])
      exact ⟨d, hnext.trans ((transfer_drains onReq m x' x.2 vs 60000 oa _).trans hd), hfalse⟩
    · exact ⟨_, drains_early onReq m v (Nat.le_of_not_lt hx) vs oa ob, List.mem_append_right _ List.mem_cons_self⟩

/-- The sender has finished, and `listen_loop` waits, turn after turn. -/
inductive Idle (oa ob : List Shown) : Net Packet Shown → Prop where
  | waiting (t : Nat) : Idle oa ob (awaits onReq m [] t oa ob)
  | turn : Idle oa ob ⟨sender (.ret false) [] oa, listener (endless onReq) (.ret true) [] ob⟩

variable {onReq m} in
theorem Idle.step {oa ob : List Shown} {s d : Net Packet Shown} (hs : Idle onReq m oa ob s) (h : s.Timed d) :
    Idle onReq m oa ob d := by
  cases hs with
  | waiting t =>
    cases h with
    | move h => exact absurd h (Net.still rfl rfl d)
    | tick _ h =>
      cases t with
      | zero => cases h; exact .turn
      | succ t => cases h; exact .waiting t
  | turn =>
    cases h with
    | move h =>
      cases h with
      | a h => cases h
      | b h => cases h; exact .waiting 60000
    | tick hstill _ => exact absurd (.b rfl) (hstill _)

variable {onReq m} in
theorem Idle.outs {oa ob : List Shown} {s d : Net Packet Shown} (hs : Idle onReq m oa ob s) (h : TimedReaches s d) :
    d.a.outs = oa ∧ d.b.outs = ob := by
  have hd : Idle onReq m oa ob d := by
    induction h with
    | refl => exact hs
    | tail _ hstep ih => exact ih.step hstep
  cases hd <;> exact ⟨rfl, rfl⟩

/-- The calls return this and `on_var` gets that: nothing else in any run, and
all of it in every run that is long enough. -/
def Delivers (s : Net Packet Shown) (returned called : List Shown) : Prop :=
  ∃ n, (∃ d, Run Net.Timed n s d) ∧ ∀ k d, Run Net.Timed k s d →
    d.a.outs <+: returned ∧ d.b.outs <+: called ∧ (n ≤ k → d.a.outs = returned ∧ d.b.outs = called)

/-- All runs pass through the state that one run comes to, when nothing but the clock is left. -/
theorem delivers_of_reaches {s : Net Packet Shown} {t : Nat} {oa ob : List Shown}
    (h : TimedReaches s (awaits onReq m [] t oa ob)) :
    Delivers s oa ob := by
  obtain ⟨n, hn⟩ := exists_run h
  refine ⟨n, ⟨_, hn⟩, fun k d hk => ?_⟩
  -- Before that state a run has shown no more than it, and after it the same.
  rcases timed_meets.passes (fun _ _ => .move) hn (Net.still rfl rfl) hk with ⟨j, rfl, hj⟩ | ⟨j, rfl, hj⟩
  · obtain ⟨ha, hb⟩ := shown_of_reaches Net.Timed.shown hj.reaches
    refine ⟨ha, hb, fun hle => ?_⟩
    obtain rfl : j = 0 := by omega
    cases hj
    exact ⟨rfl, rfl⟩
  · have hidle : Idle onReq m oa ob (awaits onReq m [] t oa ob) := .waiting t
    obtain ⟨ha, hb⟩ := hidle.outs hj.reaches
    rw [ha, hb]
    exact ⟨List.prefix_refl _, List.prefix_refl _, fun _ => ⟨rfl, rfl⟩⟩

theorem not_delivers_of_failed {s d : Net Packet Shown} (h : TimedReaches s d) (hfalse : .returned (.ok false) ∈ d.a.outs)
    (vs : List (Nat × Outgoing)) (called : List Shown) : ¬ Delivers s (allReturned vs) called := by
  intro ⟨n, _, hruns⟩
  obtain ⟨k, hk⟩ := exists_run h
  have hmem := (hruns k d hk).1.subset hfalse
  simp [allReturned] at hmem

/-- Every call returns True and `on_var` gets every variable, in order, exactly
when each RTS but the first comes more than 500 ms after the ACK before it. -/
theorem delivered_without_eot_iff (vs : List (Nat × Outgoing)) :
    let s : Net Packet Shown := ⟨sender (sendAll (sendVarNoEot m) vs) [] [],
      listener (endless onReq) (Program.listenBody (endless onReq)) [] []⟩
    Delivers s (vs.map fun _ => .returned (.ok true))
      (vs.map fun x => .called ⟨x.2.typeId, x.2.name8, x.2.header 82, x.2.data⟩) ↔ ∀ x ∈ vs.tail, 500 < x.1 := by
  intro s
  cases vs with
  | nil => exact iff_of_true (delivers_of_reaches onReq m (t := 60000) .refl) nofun
  | cons x vs =>
    have hfirst : TimedReaches s (drains onReq m x.2 vs [.returned (.ok true)] []) :=
      transfer_drains onReq m x.1 x.2 vs 60000 [] []
    constructor
    · intro hdel
      by_contra hearly
      obtain ⟨d, hd, hfalse⟩ := early_fails onReq m x.2 vs hearly [.returned (.ok true)] []
      exact not_delivers_of_failed (hfirst.trans hd) hfalse (x :: vs) _ hdel
    · intro hlate
      exact delivers_of_reaches onReq m (hfirst.trans (late_reach onReq m x.2 vs hlate [.returned (.ok true)] []))

end NoEot

/-- A list of one number, `L1`. -/
def l1 : Outgoing := ⟨0x01, [0x5D, 0x00, 0, 0, 0, 0, 0, 0], [1, 0, 0, 0x80, 0x10, 0, 0, 0, 0, 0, 0], rfl, by decide⟩

/-- The second of two variables comes 100 ms after the first. -/
theorem second_rts_unanswered :
    let vs : List (Nat × Outgoing) := [(0, l1), (100, l1)]
    let s : Net Packet Shown := ⟨sender (sendAll (sendVarTo 0x82) vs) [] [],
      listener (endless none) (Program.listenBody (endless none)) [] []⟩
    ¬ Delivers s [.returned (.ok true), .returned (.ok true)] [.called (l1.variable 82), .called (l1.variable 82)] ∧
      ∃ d, TimedReaches s d ∧ d.a.outs = [.returned (.ok true), .returned (.ok false)] ∧
        d.b.outs = [.called (l1.variable 82)] := by
  intro vs s
  have hs : s = awaits none 0x02 vs 60000 [] [] := by
    simp only [s, vs, sendAll, sendVarTo_ti82]
    rfl
  have hreach : TimedReaches s
      (awaits none 0x02 [] 55000 [.returned (.ok true), .returned (.ok false)] [.called (l1.variable 82)]) := by
    rw [hs]
    exact (transfer_drains none 0x02 0 l1 _ 60000 [] []).trans
      (drains_early none 0x02 l1 (x := (100, l1)) (by decide) [] _ [])
  exact ⟨not_delivers_of_failed hreach (List.mem_cons_of_mem _ List.mem_cons_self) vs _, _, hreach, rfl, rfl⟩

end CalcBridge.Transfer
