import CalcBridge.Bastok
import CalcBridge.NumberLists
import CalcBridge.Program8xp
import CalcBridge.Sessions
/-!
# The `put_` calls (`src/transfer.py`, `tools/build_e2e.py`)

Reals, lists and programs go to a `listen_loop` in any row of calls. What
`on_var` is called with reads as what was put, and a put whose name is refused
raises before anything is sent.
-/
open Relation LinkLib LinkLib.Text LinkLib.Decimal LinkLib.Programs LinkLib.Confluence CalcBridge.Vartypes CalcBridge.Program8xp

namespace CalcBridge.Transfer

/-! ## The calls -/

/-- `put_real`. -/
def putReal (letter : Str) (value : Number) (calcMachine : UInt8) : Program (Except String Bool) :=
  match realName letter with
  | .error e => .ret (.error e)
  | .ok name8 => Program.sendVar tReal name8 (encodeReal value) calcMachine 5000

/-- `put_l1`, and `put_l1_83p` for 0x73. -/
def putL1 (values : List Number) (calcMachine : UInt8) : Program (Except String Bool) :=
  Program.sendVar tList (listName82 0) (encodeRealList values) calcMachine 5000

/-- `put_prog`. -/
def putProg (name : Str) (payload : Bytes) (locked : Bool) (calcMachine : UInt8) : Program (Except String Bool) :=
  let typeId := if locked then Vartypes.tProgLocked else Vartypes.tProg
  match progName name with
  | .error e => .ret (.error e)
  | .ok name8 => Program.sendVar typeId name8 payload calcMachine 5000

/-- A number that its nine bytes stand for. -/
structure Exact where
  number : Number
  normal : number.Normal
  fits : number.Fits

/-- What is put. A packet holds 7281 reals and no more. -/
inductive Put where
  | real (letter : Str) (value : Exact)
  | list (values : {values : List Exact // values.length ≤ 7281})
  | prog (name : Str) (payload : Body) (locked : Bool)

def Put.call : Put → Program (Except String Bool)
  | .real letter value => putReal letter value.number 0x73
  | .list values => putL1 (values.1.map Exact.number) 0x73
  | .prog name payload locked => putProg name payload.1 locked 0x73

def Put.program (p : Put) : Proc Packet Report Report := (p.call.relabel Shown.report).bind fun r => .ret (.sent r)

/-- Puts at the REPL, with a pause before each. -/
def putAll : List (Nat × Put) → Proc Packet Report Bool
  | [] => .ret false
  | (pause, p) :: ps => .sleep pause (p.program.bind fun r => .out r (putAll ps))

/-! ## What is sent -/

def Put.typeId : Put → UInt8
  | .real .. => tReal
  | .list _ => tList
  | .prog _ _ locked => if locked then Vartypes.tProgLocked else Vartypes.tProg

def Put.name : Put → Except String Bytes
  | .real letter _ => realName letter
  | .list _ => .ok (listName82 0)
  | .prog name .. => progName name

def Put.data : Put → Bytes
  | .real _ value => encodeReal value.number
  | .list values => encodeRealList (values.1.map Exact.number)
  | .prog _ payload _ => payload.1

theorem realName_eq_ok {letter : Str} {name8 : Bytes} (h : realName letter = .ok name8) :
    ∃ c, letter = [c] ∧ name8 = [UInt8.ofNat c] ++ List.replicate 7 0 := by
  unfold realName at h
  split at h
  · split at h
    · cases h
      exact ⟨_, rfl, rfl⟩
    · cases h
  · cases h

theorem progName_eq_ok {name : Str} {name8 : Bytes} : progName name = .ok name8 ↔ ValidName name ∧ name8 = paddedName name := by
  unfold progName
  split
  · rename_i h
    exact iff_of_false nofun fun hv => h ⟨hv.1.1, hv.1.2.1⟩
  · rename_i hlen
    split
    · rename_i h
      obtain ⟨c, hc, hbad⟩ := h
      exact iff_of_false nofun fun hv => hbad (hv.1.2.2 c hc)
    · rename_i h
      have hvalid : ValidName name := by
        refine ⟨(not_not.1 hlen).1, (not_not.1 hlen).2, ?_⟩
        intro c hc
        by_contra hbad
        exact h ⟨c, hc, hbad⟩
      rw [Except.ok.injEq, eq_comm, and_iff_right hvalid]
      rfl

theorem Put.length_name {p : Put} {name8 : Bytes} (h : p.name = .ok name8) : name8.length = 8 := by
  cases p with
  | real letter value =>
    obtain ⟨c, -, rfl⟩ := realName_eq_ok h
    rfl
  | list values =>
    cases h
    rfl
  | prog name payload locked =>
    obtain ⟨hvalid, rfl⟩ := progName_eq_ok.1 h
    exact length_paddedName hvalid

theorem length_encodeRealList (values : List Number) : (encodeRealList values).length = 2 + 9 * values.length := by
  rw [encodeRealList, List.length_append, List.length_flatMap, List.map_congr_left fun v _ => length_encodeReal v]
  simp [wordBytes, Nat.mul_comm]

theorem Put.length_data (p : Put) : p.data.length ≤ 65535 := by
  cases p with
  | real letter value => simp [Put.data, length_encodeReal]
  | list values =>
    have := values.2
    rw [Put.data, length_encodeRealList, List.length_map]
    omega
  | prog name payload locked => exact payload.2

/-- The variable a put sends, or the text of its ValueError. -/
def Put.variable (p : Put) : Except String Outgoing :=
  match h : p.name with
  | .error e => .error e
  | .ok name8 => .ok ⟨p.typeId, name8, p.data, p.length_name h, p.length_data⟩

theorem Put.call_eq (p : Put) : p.call = match p.name with
    | .error e => .ret (.error e)
    | .ok name8 => Program.sendVar p.typeId name8 p.data 0x73 5000 := by
  cases p <;> rfl

theorem Put.variable_error {p : Put} {e : String} (h : p.variable = .error e) : p.name = .error e := by
  unfold Put.variable at h
  split at h
  · rename_i hname
    cases h
    exact hname
  · cases h

theorem Put.variable_ok {p : Put} {v : Outgoing} (h : p.variable = .ok v) :
    p.name = .ok v.name8 ∧ v.typeId = p.typeId ∧ v.data = p.data := by
  unfold Put.variable at h
  split at h
  · cases h
  · rename_i hname
    cases h
    exact ⟨hname, rfl, rfl⟩

theorem Put.call_error {p : Put} {e : String} (h : p.variable = .error e) : p.call = .ret (.error e) := by
  rw [p.call_eq, Put.variable_error h]

theorem Put.call_ok {p : Put} {v : Outgoing} (h : p.variable = .ok v) : p.call = sendVarTo 0x73 v := by
  obtain ⟨hname, htype, hdata⟩ := Put.variable_ok h
  rw [p.call_eq, hname, sendVarTo, htype, hdata]

/-! ## What arrives -/

/-- How a put ends: with the ValueError of its name, or True. -/
def Put.report (p : Put) : Report := .sent (p.name.map fun _ => true)

/-- What a put has `on_var` called with. -/
def Put.calls (l : Serving) (p : Put) : List Report :=
  match p.variable with
  | .error _ => []
  | .ok v => l.calls (.send v)

/-- The variable reads as what was put. -/
def Put.Reads (v : Variable) : Put → Prop
  | .real letter value =>
    v.typeId = tReal ∧ realName letter = .ok v.name8 ∧ readLiteral (parseRealStr v.data) = some value.number.value
  | .list values =>
    v.typeId = tList ∧ v.name8 = listName82 0 ∧
      ∃ texts, parseRealListStr v.data = some texts ∧ ReadsBack (values.1.map Exact.number) texts
  | .prog name payload locked =>
    v.typeId = (if locked then Vartypes.tProgLocked else Vartypes.tProg) ∧ trimName v.name8 = name.map UInt8.ofNat ∧
      v.data = payload.1

theorem Exact.reads (value : Exact) : readLiteral (parseRealStr (encodeReal value.number)) = some value.number.value := by
  rw [← (Number.real_value_iff value.normal).2 value.fits]
  exact readLiteral_parseRealStr value.number.real

theorem Put.reads {p : Put} {v : Outgoing} (h : p.variable = .ok v) : p.Reads (v.variable 83) := by
  obtain ⟨hname, htype, hdata⟩ := Put.variable_ok h
  cases p with
  | real letter value =>
    refine ⟨htype, hname, ?_⟩
    show readLiteral (parseRealStr v.data) = _
    rw [hdata]
    exact value.reads
  | list values =>
    refine ⟨htype, (Except.ok.inj hname).symm, ?_⟩
    show ∃ texts, parseRealListStr v.data = some texts ∧ _
    rw [hdata]
    refine (list_reads_back_iff _ ?_).2 ⟨?_, ?_⟩
    · intro n hn
      obtain ⟨value, -, rfl⟩ := List.mem_map.1 hn
      exact value.normal
    · have := values.2
      rw [List.length_map]
      omega
    · intro n hn
      obtain ⟨value, -, rfl⟩ := List.mem_map.1 hn
      exact value.fits
  | prog name payload locked =>
    obtain ⟨hvalid, hpadded⟩ := progName_eq_ok.1 hname
    refine ⟨htype, ?_, hdata⟩
    show trimName v.name8 = _
    rw [hpadded, trimName_paddedName hvalid]

theorem put_reaches (l : Serving) (p : Put) (rest : Report → Proc Packet Report Bool) (oa ob : List Report) :
    Leads ⟨caller (p.program.bind rest) [] oa, serving l (Program.listenBody l.cfg) [] ob⟩
      ⟨caller (rest p.report) [] oa, serving l (Program.listenBody l.cfg) [] (ob ++ p.calls l)⟩ := by
  rw [Put.program, Put.report, Put.calls]
  cases h : p.variable with
  | error e =>
    rw [Put.call_error h, Put.variable_error h, List.append_nil]
    exact .refl
  | ok v =>
    rw [Put.call_ok h, (Put.variable_ok h).1]
    exact call_reaches (.send v) rest oa ob

theorem putAll_reaches (l : Serving) (ps : List (Nat × Put)) (oa ob : List Report) :
    Leads ⟨caller (putAll ps) [] oa, serving l (Program.listenBody l.cfg) [] ob⟩
      ⟨caller (.ret false) [] (oa ++ ps.map fun p => p.2.report),
        serving l (Program.listenBody l.cfg) [] (ob ++ ps.flatMap fun p => p.2.calls l)⟩ := by
  induction ps generalizing oa ob with
  | nil => simpa [putAll] using .refl
  | cons p ps ih =>
    obtain ⟨pause, p⟩ := p
    rw [putAll]
    refine .head (.a rfl) ?_
    apply (put_reaches l p _ oa ob).trans
    refine .head (.a rfl) ?_
    have := ih (oa ++ [p.report]) (ob ++ p.calls l)
    rw [List.append_assoc, List.append_assoc] at this
    exact this

/-- The puts so far have ended as `reports` tells and `on_var` was called as
`calls` tells, in every interleaving; every run comes to an end, and there
nothing is left to do. -/
def Arrives (l : Serving) (ps : List (Nat × Put)) (reports calls : List Report) : Prop :=
  let s : Net Packet Report := ⟨caller (putAll ps) [] [], serving l (Program.listenBody l.cfg) [] []⟩
  (∃ n, ∀ k d, Run (Net.Moves false) k s d → k ≤ n) ∧
    ∀ d, Leads s d → d.a.outs <+: reports ∧ d.b.outs <+: calls ∧
      (Ended (Net.Moves false) d → d.a.outs = reports ∧ d.b.outs = calls ∧ d.a.inbox = [] ∧ d.b.inbox = [])

theorem putAll_arrives (l : Serving) (ps : List (Nat × Put)) :
    Arrives l ps (ps.map fun p => p.2.report) (ps.flatMap fun p => p.2.calls l) := by
  obtain ⟨hbound, hall⟩ := agree_of_reaches (putAll_reaches l ps [] []) (Net.ended_of_none rfl rfl)
  refine ⟨hbound, ?_⟩
  intro d hd
  obtain ⟨⟨ha, hb⟩, hend⟩ := hall d hd
  refine ⟨ha, hb, ?_⟩
  intro hended
  rw [hend hended]
  exact ⟨rfl, rfl, rfl, rfl⟩

/-- Whatever is put and whatever the filters of `listen_loop`, every put whose
name is valid returns True and any other raises; `on_var` is called with those
that pass the filters, in order; and the reals, lists and programs it is called
with read as what was put. -/
theorem puts_arrive (l : Serving) (ps : List (Nat × Put)) :
    Arrives l ps (ps.map fun p => p.2.report) (ps.flatMap fun p => p.2.calls l) ∧
      ∀ p ∈ ps, ∀ r ∈ p.2.calls l, ∃ v, r = .called v ∧ p.2.Reads v := by
  refine ⟨putAll_arrives l ps, ?_⟩
  intro p _ r hr
  unfold Put.calls at hr
  split at hr
  · cases hr
  · rename_i v hv
    rw [Serving.calls] at hr
    split at hr
    · rw [List.mem_singleton] at hr
      exact ⟨_, hr, Put.reads hv⟩
    · cases hr

/-- A real to A, one to a, a list of two reals and a program, put to a loop without filters. -/
theorem puts_arrive_four :
    let x : Exact := ⟨.sci false (15 * 10 ^ 12) 0, by decide, by decide⟩
    let y : Exact := ⟨.sci true (25 * 10 ^ 12) (-1), by decide, by decide⟩
    let l : Serving := ⟨none, none, fun _ _ => none, 500⟩
    let ps : List (Nat × Put) := [(0, .real (str "A") x), (5, .real (str "a") y), (0, .list ⟨[x, y], by decide⟩),
      (20, .prog (str "HI") ⟨[2, 0, 0xDE, 0x2A], by decide⟩ false)]
    ∀ d, Leads ⟨caller (putAll ps) [] [], serving l (Program.listenBody l.cfg) [] []⟩ d → Ended (Net.Moves false) d →
      d.a.outs =
        [.sent (.ok true), .sent (.error "letter must be a single uppercase A..Z"), .sent (.ok true), .sent (.ok true)] ∧
      ∃ u v w, d.b.outs = [.called u, .called v, .called w] ∧ readLiteral (parseRealStr u.data) = some x.number.value ∧
        parseRealListStr v.data = some [str "1.5", str "-0.25"] ∧ w.data = [2, 0, 0xDE, 0x2A] := by
  intro x y l ps d hd hended
  obtain ⟨⟨-, hall⟩, hreads⟩ := puts_arrive l ps
  obtain ⟨ha, hb, -⟩ := (hall d hd).2.2 hended
  have hcalled : d.b.outs = [
      .called ((⟨tReal, [0x41, 0, 0, 0, 0, 0, 0, 0], encodeReal x.number, rfl, by decide⟩ : Outgoing).variable 83),
      .called ((⟨tList, listName82 0, encodeRealList [x.number, y.number], rfl, by decide⟩ : Outgoing).variable 83),
      .called ((⟨Vartypes.tProg, [0x48, 0x49, 0, 0, 0, 0, 0, 0], [2, 0, 0xDE, 0x2A], rfl, by decide⟩ : Outgoing).variable 83)] :=
    hb.trans (by rfl)
  obtain ⟨u, hu, -, -, hread⟩ := hreads (0, .real (str "A") x) (by simp [ps]) _ (List.mem_singleton_self _)
  refine ⟨ha.trans (by rfl), _, _, _, hcalled, ?_, by decide +kernel, rfl⟩
  cases hu
  exact hread

/-! ## Programs from their source -/

theorem payload_fits {file : Bytes} {r : Program8xp.Program} (h : parse8xp file = .ok r) : r.payload.length ≤ 65535 := by
  obtain ⟨-, rfl⟩ := parse8xp_eq_ok.1 h
  have hlt : varSize file < 65536 := by
    rw [varSize, field, word, Bytes.or_shiftLeft_8]
    have hlo := (file.getD 57 0).toNat_lt
    have hhi := (file.getD (57 + 1) 0).toNat_lt
    omega
  rw [entry, length_slice]
  omega

/-- What `build_e2e.py push` puts, for a file that `read_8xp` accepts. -/
def pushOf (file : Bytes) : Except Invalid Put :=
  match h : parse8xp file with
  | .error e => .error e
  | .ok r => .ok (.prog r.name ⟨r.payload, payload_fits h⟩ r.locked)

/-- `build_e2e.py push` for each file. One that is refused makes no script. -/
def pushFiles (files : List (Nat × Bytes)) : List (Nat × Put) :=
  files.filterMap fun f => (pushOf f.2).toOption.map (f.1, ·)

/-- A source that `bastok.py` has made a file of. -/
structure Built where
  name : Str
  source : Str
  locked : Bool
  body : Bytes
  file : Bytes
  tokens : Bastok.tokenize source = .ok body
  made : make8xp name body locked = .ok file
  fits : body.length ≤ 65533

theorem Built.length_payload (b : Built) : (wordBytes b.body.length ++ b.body).length ≤ 65535 := by
  have := b.fits
  simp only [wordBytes, List.length_append, List.length_cons, List.length_nil]
  omega

def Built.payload (b : Built) : Body := ⟨wordBytes b.body.length ++ b.body, b.length_payload⟩

def Built.put (b : Built) : Put := .prog b.name b.payload b.locked

/-- The variable that `on_var` should get. -/
def Built.variable (b : Built) : Outgoing where
  typeId := if b.locked then Vartypes.tProgLocked else Vartypes.tProg
  name8 := paddedName b.name
  data := b.payload.1
  name_length := length_paddedName (make8xp_eq_ok.1 b.made).1
  data_length := b.payload.2

theorem Built.pushOf_file (b : Built) : pushOf b.file = .ok b.put := by
  obtain ⟨hvalid, hfile⟩ := make8xp_eq_ok.1 b.made
  have hparse : parse8xp b.file =
      .ok ⟨b.name, if b.locked then Program8xp.tProgLocked else Program8xp.tProg, b.locked, b.payload.1⟩ := by
    rw [hfile]
    exact (parse8xp_container hvalid b.fits b.locked _ _).1
  unfold pushOf
  split
  · rename_i h
    rw [hparse] at h
    cases h
  · rename_i h
    rw [hparse] at h
    cases h
    rfl

theorem Built.put_variable (b : Built) : b.put.variable = .ok b.variable := by
  have hname : b.put.name = .ok (paddedName b.name) := progName_eq_ok.2 ⟨(make8xp_eq_ok.1 b.made).1, rfl⟩
  unfold Put.variable
  split
  · rename_i h
    rw [hname] at h
    cases h
  · rename_i h
    rw [hname] at h
    cases h
    rfl

/-- Programs that are built from their sources and pushed arrive, in order, at
every `listen_loop` whose filters they pass: type, name, and the size and the
tokens of the source. -/
theorem sources_arrive (l : Serving) (bs : List (Nat × Built)) :
    Arrives l (pushFiles (bs.map fun b => (b.1, b.2.file))) (bs.map fun _ => .sent (.ok true))
      (bs.flatMap fun b =>
        if l.cfg.accepts b.2.variable.typeId b.2.variable.name8 then [.called (b.2.variable.variable 83)] else []) := by
  have hputs : pushFiles (bs.map fun b => (b.1, b.2.file)) = bs.map fun b => (b.1, b.2.put) := by
    rw [pushFiles, List.filterMap_map, ← List.filterMap_eq_map]
    apply List.filterMap_congr
    intro b _
    simp only [Function.comp_apply, b.2.pushOf_file]
    rfl
  have hreports : (bs.map fun b => (b.1, b.2.put)).map (fun p => p.2.report) = bs.map fun _ => .sent (.ok true) := by
    rw [List.map_map]
    apply List.map_congr_left
    intro b _
    rw [Function.comp_apply, Put.report, (Put.variable_ok b.2.put_variable).1]
    rfl
  have hcalls : (bs.map fun b => (b.1, b.2.put)).flatMap (fun p => p.2.calls l) = bs.flatMap fun b =>
      if l.cfg.accepts b.2.variable.typeId b.2.variable.name8 then [.called (b.2.variable.variable 83)] else [] := by
    rw [List.flatMap_map]
    apply List.flatMap_congr
    intro b _
    rw [Put.calls, b.2.put_variable]
    rfl
  have harrives := putAll_arrives l (bs.map fun b => (b.1, b.2.put))
  rwa [hreports, hcalls, ← hputs] at harrives

theorem tokenize_clrHome : Bastok.tokenize (str "ClrHome") = .ok [0xE1] := by
  rw [Bastok.tokenize_turn (by decide) (by decide : Bastok.turn (str "ClrHome") = .ok ([0xE1], []))]
  exact ⟨[], Bastok.tokenize_nil, rfl⟩

theorem tokenize_disp : Bastok.tokenize (str "Disp A") = .ok [0xDE, 0x41] := by
  rw [Bastok.tokenize_turn (by decide) (by decide : Bastok.turn (str "Disp A") = .ok ([0xDE], str " A"))]
  refine ⟨[0x41], ?_, rfl⟩
  rw [Bastok.tokenize_turn (by decide) (by decide : Bastok.turn (str " A") = .ok ([], str "A"))]
  refine ⟨[0x41], ?_, rfl⟩
  rw [Bastok.tokenize_turn (by decide) (by decide : Bastok.turn (str "A") = .ok ([0x41], []))]
  exact ⟨[], Bastok.tokenize_nil, rfl⟩

/-- A program of two lines. -/
def show8xp : Built where
  name := str "SHOW"
  source := str "ClrHome\nDisp A"
  locked := false
  body := [0xE1, 0x3F, 0xDE, 0x41]
  file := container (programSection (str "SHOW") [0xE1, 0x3F, 0xDE, 0x41] false).length
    (programSection (str "SHOW") [0xE1, 0x3F, 0xDE, 0x41] false)
    (((programSection (str "SHOW") [0xE1, 0x3F, 0xDE, 0x41] false).map UInt8.toNat).sum &&& 0xFFFF)
  tokens := Bastok.tokenize_split (a := str "ClrHome") (b := str "Disp A").2 ⟨_, _, tokenize_clrHome, tokenize_disp, rfl⟩
  made := make8xp_eq_ok.2 ⟨by decide, rfl⟩
  fits := by decide

/-- One of one line, locked. -/
def clear8xp : Built where
  name := str "CLEAR"
  source := str "ClrHome"
  locked := true
  body := [0xE1]
  file := container (programSection (str "CLEAR") [0xE1] true).length (programSection (str "CLEAR") [0xE1] true)
    (((programSection (str "CLEAR") [0xE1] true).map UInt8.toNat).sum &&& 0xFFFF)
  tokens := tokenize_clrHome
  made := make8xp_eq_ok.2 ⟨by decide, rfl⟩
  fits := by decide

/-- Both of them, pushed to a loop that takes no locked program. -/
theorem sources_arrive_two :
    let l : Serving := ⟨none, some Vartypes.tProg, fun _ _ => none, 500⟩
    let bs : List (Nat × Built) := [(0, clear8xp), (20, show8xp)]
    ∀ d, Leads ⟨caller (putAll (pushFiles (bs.map fun b => (b.1, b.2.file)))) [] [],
        serving l (Program.listenBody l.cfg) [] []⟩ d →
      Ended (Net.Moves false) d → d.a.outs = [.sent (.ok true), .sent (.ok true)] ∧
        ∃ v, d.b.outs = [.called v] ∧ v.typeId = Vartypes.tProg ∧ trimName v.name8 = (str "SHOW").map UInt8.ofNat ∧
          v.data = [4, 0, 0xE1, 0x3F, 0xDE, 0x41] := by
  intro l bs d hd hended
  obtain ⟨ha, hb, -⟩ := ((sources_arrive l bs).2 d hd).2.2 hended
  refine ⟨ha, show8xp.variable.variable 83, hb.trans (by rfl), rfl, by decide, rfl⟩

end CalcBridge.Transfer
