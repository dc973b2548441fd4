import Mathlib.Algebra.Group.Nat.Even
import CalcBridge.LinkLib.Scanner
import CalcBridge.LinkLib.Text
/-!
# The TI-BASIC tokenizer (`tools/bastok.py`)

`tokenize` scans the source from left to right. At every position it skips a
blank, reads a string literal, a keyword or a single character, or raises.
-/
open LinkLib LinkLib.Text

namespace CalcBridge.Bastok

/-! ## Tables -/

/-- `KEYWORDS`, in the order they are tried. -/
def keywords : List (Str × Bytes) :=
  [(str "Asm(", [0xBB, 0x6A]), (str "sub(", [0xBB, 0x0C]), (str "<=", [0x6D]), (str ">=", [0x6E]), (str "!=", [0x6F]),
   (str "ClrHome", [0xE1]), (str "Input", [0xDC]), (str "Pause", [0xD8]), (str "Disp", [0xDE]), (str "prgm", [0x5F]),
   (str "Repeat", [0xD2]), (str "While", [0xD1]), (str "Return", [0xD5]), (str "Then", [0xCF]), (str "Else", [0xD0]),
   (str "Stop", [0xD9]), (str "Goto", [0xD7]), (str "Lbl", [0xD6]), (str "End", [0xD4]), (str "If", [0xCE]),
   (str "Output(", [0xE0]), (str "getKey", [0xAD]), (str "or", [0x3C]), (str "xor", [0x3D]), (str "and", [0x40]),
   (str "Str1", [0xAA, 0x00]), (str "Str2", [0xAA, 0x01]), (str "Str3", [0xAA, 0x02]), (str "Str4", [0xAA, 0x03]),
   (str "Str5", [0xAA, 0x04]), (str "Str6", [0xAA, 0x05]), (str "Str7", [0xAA, 0x06]), (str "Str8", [0xAA, 0x07]),
   (str "Str9", [0xAA, 0x08]), (str "Str0", [0xAA, 0x09]), (str "->", [0x04])]

/-- `PUNCT`. -/
def punct : List (Nat × UInt8) :=
  [(0x28, 0x10), (0x29, 0x11), (0x22, 0x2A), (0x2C, 0x2B), (0x2E, 0x3A), (0x3A, 0x3E), (0x2B, 0x70), (0x2D, 0x71),
   (0x2A, 0x82), (0x2F, 0x83), (0x3D, 0x6A), (0x3C, 0x6B), (0x3E, 0x6C), (0x5E, 0xF0), (0x20, 0x29), (0x3F, 0xAF),
   (0x21, 0x2D)]

abbrev quote : Nat := 0x22
abbrev carriageReturn : Nat := 0x0D

/-- `tEnter`. -/
def enter : UInt8 := 0x3F

/-- Letters and digits encode as themselves. -/
def isIdentity (c : Nat) : Bool := (0x41 ≤ c && c ≤ 0x5A) || (0x30 ≤ c && c ≤ 0x39)

/-! ## The scan -/

/-- A character of a string literal. An unknown one becomes a space. -/
def literalToken (c : Nat) : UInt8 := if isIdentity c then UInt8.ofNat c else (punct.lookup c).getD 0x29

/-- The inner loop and the closing quote after it. A newline closes the literal too, but stays. -/
def literal : Str → Bytes × Str
  | [] => ([], [])
  | c :: cs =>
    if c = quote then ([0x2A], cs)
    else if c = newline then ([], c :: cs)
    else (literalToken c :: (literal cs).1, (literal cs).2)

/-- The ValueError: the character and where it stands in the source. -/
structure UnknownChar where
  ch : Nat
  offset : Nat
  deriving DecidableEq, Repr

/-- The first keyword at the front. -/
def keywordAt (s : Str) : Option (Str × Bytes) := keywords.find? fun kw => kw.1.isPrefixOf s

/-- A keyword, a letter or digit, or punctuation. A failure tells how much was left. -/
def token (ch : Nat) (rest : Str) : Except (Nat × Nat) (Bytes × Str) :=
  match keywordAt (ch :: rest) with
  | some (kw, toks) => .ok (toks, (ch :: rest).drop kw.length)
  | none =>
    if isIdentity ch then .ok ([UInt8.ofNat ch], rest)
    else
      match punct.lookup ch with
      | some tok => .ok ([tok], rest)
      | none => .error (ch, rest.length + 1)

/-- One turn of the loop: what it appends and what is left. -/
def turn : Str → Except (Nat × Nat) (Bytes × Str)
  | [] => .ok ([], [])
  | ch :: rest =>
    -- Part of CRLF; the LF emits the Enter.
    if ch = carriageReturn then .ok ([], rest)
    else if ch = newline then .ok ([enter], rest)
    else if ch = space then .ok ([], rest)
    else if ch = quote then .ok (0x2A :: (literal rest).1, (literal rest).2)
    else token ch rest

def Blank (c : Nat) : Prop := c = carriageReturn ∨ c = space

/-- No quote and no newline. -/
def Plain (body : Str) : Prop := quote ∉ body ∧ newline ∉ body

theorem turn_blank {c : Nat} (hc : Blank c) (rest : Str) : turn (c :: rest) = .ok ([], rest) := by
  rcases hc with rfl | rfl <;> rfl

theorem turn_newline (rest : Str) : turn (newline :: rest) = .ok ([enter], rest) := rfl

theorem turn_quote (rest : Str) : turn (quote :: rest) = .ok (0x2A :: (literal rest).1, (literal rest).2) := rfl

/-- A character that is none of the four the scanner looks for first. -/
def Starts (c : Nat) : Prop := ¬Blank c ∧ c ≠ newline ∧ c ≠ quote

theorem turn_token {c : Nat} (hc : Starts c) (rest : Str) : turn (c :: rest) = token c rest := by
  obtain ⟨hblank, hnewline, hquote⟩ := hc
  rw [turn, if_neg (hblank ∘ Or.inl), if_neg hnewline, if_neg (hblank ∘ Or.inr), if_neg hquote]

theorem blank_or (c : Nat) : Blank c ∨ c = newline ∨ c = quote ∨ Starts c := by
  unfold Starts
  tauto

/-! ### Literals -/

theorem plain_nil : Plain [] := ⟨List.not_mem_nil, List.not_mem_nil⟩

theorem plain_cons {c : Nat} {body : Str} : Plain (c :: body) ↔ (c ≠ quote ∧ c ≠ newline) ∧ Plain body := by
  simp only [Plain, List.mem_cons, not_or, ne_comm (a := quote), ne_comm (a := newline)]
  tauto

theorem literal_plain {body : Str} (h : Plain body) (t : Str) :
    literal (body ++ t) = (body.map literalToken ++ (literal t).1, (literal t).2) := by
  induction body with
  | nil => rfl
  | cons c cs ih =>
    obtain ⟨hc, hcs⟩ := plain_cons.1 h
    rw [List.cons_append, literal, if_neg hc.1, if_neg hc.2, ih hcs]
    rfl

/-- A literal ends at its quote, at the newline or with the source. -/
theorem literal_ends (s : Str) :
    ∃ body, Plain body ∧ (s = body ∨ (∃ t, s = body ++ quote :: t) ∨ ∃ t, s = body ++ newline :: t) := by
  induction s with
  | nil => exact ⟨[], plain_nil, Or.inl rfl⟩
  | cons c cs ih =>
    by_cases hq : c = quote
    · rw [hq]
      exact ⟨[], plain_nil, Or.inr (Or.inl ⟨cs, rfl⟩)⟩
    · by_cases hn : c = newline
      · rw [hn]
        exact ⟨[], plain_nil, Or.inr (Or.inr ⟨cs, rfl⟩)⟩
      · obtain ⟨body, hbody, hs⟩ := ih
        refine ⟨c :: body, plain_cons.2 ⟨⟨hq, hn⟩, hbody⟩, ?_⟩
        rcases hs with rfl | ⟨t, rfl⟩ | ⟨t, rfl⟩
        · exact Or.inl rfl
        · exact Or.inr (Or.inl ⟨t, rfl⟩)
        · exact Or.inr (Or.inr ⟨t, rfl⟩)

theorem literal_open {body : Str} (h : Plain body) : literal body = (body.map literalToken, []) := by
  have := literal_plain h []
  rwa [List.append_nil, literal, List.append_nil] at this

theorem literal_closed {body : Str} (h : Plain body) (t : Str) :
    literal (body ++ quote :: t) = (body.map literalToken ++ [0x2A], t) :=
  literal_plain h _

theorem literal_line_end {body : Str} (h : Plain body) (t : Str) :
    literal (body ++ newline :: t) = (body.map literalToken, newline :: t) := by
  rw [literal_plain h, literal, if_neg (by decide), if_pos rfl, List.append_nil]

/-- A literal ends at the newline, whatever comes after it. -/
theorem literal_append_newline (s b : Str) :
    literal (s ++ newline :: b) = ((literal s).1, (literal s).2 ++ newline :: b) := by
  obtain ⟨body, hbody, rfl | ⟨t, rfl⟩ | ⟨t, rfl⟩⟩ := literal_ends s
  · rw [literal_line_end hbody, literal_open hbody]
    rfl
  · rw [List.append_assoc, List.cons_append, literal_closed hbody, literal_closed hbody]
  · rw [List.append_assoc, List.cons_append, literal_line_end hbody, literal_line_end hbody]
    rfl

/-! ### Tokens -/

theorem keywordAt_eq_some {s kw : Str} {toks : Bytes} (h : keywordAt s = some (kw, toks)) :
    (kw, toks) ∈ keywords ∧ kw <+: s := by
  refine ⟨List.mem_of_find?_eq_some h, List.isPrefixOf_iff_prefix.1 ?_⟩
  exact (List.find?_some (p := fun k : Str × Bytes => k.1.isPrefixOf s) h)

/-- No keyword holds `x`. -/
def Foreign (x : Nat) : Prop := ∀ k ∈ keywords, x ∉ k.1

instance (x : Nat) : Decidable (Foreign x) := inferInstanceAs (Decidable (∀ _ ∈ _, _))

theorem keyword_ne_nil {kw : Str} {toks : Bytes} (h : (kw, toks) ∈ keywords) : kw ≠ [] := by
  have hall : ∀ k ∈ keywords, k.1 ≠ [] := by decide
  exact hall _ h

theorem isPrefixOf_append {x : Nat} {kw : Str} (h : x ∉ kw) (s t : Str) :
    kw.isPrefixOf (s ++ x :: t) = kw.isPrefixOf s := by
  rw [Bool.eq_iff_iff, List.isPrefixOf_iff_prefix, List.isPrefixOf_iff_prefix]
  constructor
  · intro hkw
    rcases List.prefix_or_prefix_of_prefix hkw (List.prefix_append s (x :: t)) with hs | ⟨u, hu⟩
    · exact hs
    · subst hu
      cases u with
      | nil => simp
      | cons y u =>
        have := (List.cons_prefix_cons.1 ((List.prefix_append_right_inj s).1 hkw)).1
        exact absurd (this ▸ List.mem_append_right s List.mem_cons_self) h
  · intro hkw
    exact hkw.trans (List.prefix_append s _)

/-- A keyword never reaches across a character that none holds. -/
theorem keywordAt_append {x : Nat} (hx : Foreign x) (s t : Str) : keywordAt (s ++ x :: t) = keywordAt s := by
  have hcongr : ∀ k ∈ keywords, k.1.isPrefixOf (s ++ x :: t) = k.1.isPrefixOf s := by
    intro k hk
    exact isPrefixOf_append (hx k hk) s t
  rw [keywordAt, keywordAt, ← List.head?_filter, ← List.head?_filter, List.filter_congr hcongr]

/-! ### Turns -/

/-- What a token leaves is what follows the characters it used. -/
theorem token_eq_ok {c : Nat} {s rest : Str} {o : Bytes} (h : token c s = .ok (o, rest)) :
    (∃ kw, (kw, o) ∈ keywords ∧ c :: s = kw ++ rest) ∨
      (rest = s ∧ ((isIdentity c = true ∧ o = [UInt8.ofNat c]) ∨ ∃ tok, (c, tok) ∈ punct ∧ o = [tok])) := by
  rw [token] at h
  cases hkw : keywordAt (c :: s) with
  | some k =>
    obtain ⟨kw, toks⟩ := k
    obtain ⟨hmem, r, hr⟩ := keywordAt_eq_some hkw
    rw [hkw] at h
    cases h
    refine Or.inl ⟨kw, hmem, ?_⟩
    rw [← hr, List.drop_left]
  | none =>
    rw [hkw] at h
    dsimp only at h
    split at h
    · rename_i hid
      cases h
      exact Or.inr ⟨rfl, Or.inl ⟨hid, rfl⟩⟩
    · split at h
      · rename_i tok htok
        cases h
        exact Or.inr ⟨rfl, Or.inr ⟨tok, lookup_mem htok, rfl⟩⟩
      · cases h

theorem token_append {x : Nat} (hx : Foreign x) (c : Nat) (s t : Str) (o : Bytes) (rest : Str) :
    token c (s ++ x :: t) = .ok (o, rest) ↔ ∃ r, token c s = .ok (o, r) ∧ rest = r ++ x :: t := by
  rw [token, token, ← List.cons_append, keywordAt_append hx]
  cases hkw : keywordAt (c :: s) with
  | some k =>
    obtain ⟨kw, toks⟩ := k
    have hlen := (keywordAt_eq_some hkw).2.length_le
    simp only [List.drop_append_of_le_length hlen, Except.ok.injEq, Prod.mk.injEq]
    grind
  | none => grind

theorem keywords_enter_free : ∀ k ∈ keywords, newline ∉ k.1 ∧ enter ∉ k.2 := by decide

theorem punct_enter_free : ∀ p ∈ punct, p.1 ≠ newline ∧ p.2 ≠ enter := by decide

theorem identity_ne_enter {c : Nat} (h : isIdentity c = true) : UInt8.ofNat c ≠ enter := by
  rw [isIdentity] at h
  rw [enter, ← UInt8.toNat_inj.ne, toNat_ofNat (by simp at h; omega)]
  simp at h ⊢
  omega

theorem literalToken_ne_enter (c : Nat) : literalToken c ≠ enter := by
  unfold literalToken
  split
  · rename_i h
    exact identity_ne_enter h
  · cases h : punct.lookup c with
    | none => decide
    | some tok => exact (punct_enter_free _ (lookup_mem h)).2

theorem count_enter_literal {body : Str} (h : Plain body) :
    (body.map literalToken).count enter = 0 ∧ body.count newline = 0 := by
  refine ⟨List.count_eq_zero.2 ?_, List.count_eq_zero.2 h.2⟩
  intro hmem
  obtain ⟨c, -, hc⟩ := List.mem_map.1 hmem
  exact literalToken_ne_enter c hc

/-- What a turn uses is the front of the source, and its enters are the newlines there. -/
theorem turn_eq_ok {s rest : Str} {o : Bytes} (hs : s ≠ []) (h : turn s = .ok (o, rest)) :
    ∃ used, used ≠ [] ∧ s = used ++ rest ∧ o.count enter = used.count newline := by
  obtain ⟨c, t, rfl⟩ := List.exists_cons_of_ne_nil hs
  rcases blank_or c with hc | rfl | rfl | hc
  · rw [turn_blank hc] at h
    cases h
    refine ⟨[c], List.cons_ne_nil _ _, rfl, ?_⟩
    rcases hc with rfl | rfl <;> rfl
  · cases h
    exact ⟨[newline], List.cons_ne_nil _ _, rfl, rfl⟩
  · obtain ⟨body, hbody, ht⟩ := literal_ends t
    have hcount := count_enter_literal hbody
    rw [turn_quote] at h
    rcases ht with rfl | ⟨t, rfl⟩ | ⟨t, rfl⟩
    · rw [literal_open hbody] at h
      cases h
      refine ⟨quote :: t, List.cons_ne_nil _ _, (List.append_nil _).symm, ?_⟩
      rw [List.count_cons_of_ne (by decide), List.count_cons_of_ne (by decide), hcount.1, hcount.2]
    · rw [literal_closed hbody] at h
      cases h
      refine ⟨quote :: body ++ [quote], List.cons_ne_nil _ _, ?_, ?_⟩
      · rw [List.append_assoc]
        rfl
      · rw [List.count_append, List.count_cons_of_ne (by decide), List.count_cons_of_ne (by decide), List.count_append,
          hcount.1, hcount.2]
        rfl
    · rw [literal_line_end hbody] at h
      cases h
      refine ⟨quote :: body, List.cons_ne_nil _ _, rfl, ?_⟩
      rw [List.count_cons_of_ne (by decide), List.count_cons_of_ne (by decide), hcount.1, hcount.2]
  · rw [turn_token hc] at h
    rcases token_eq_ok h with ⟨kw, hkw, hs⟩ | ⟨rfl, hone⟩
    · have hfree := keywords_enter_free _ hkw
      refine ⟨kw, keyword_ne_nil hkw, hs, ?_⟩
      rw [List.count_eq_zero.2 hfree.2, List.count_eq_zero.2 hfree.1]
    · refine ⟨[c], List.cons_ne_nil _ _, rfl, ?_⟩
      have hc0 : [c].count newline = 0 := List.count_eq_zero.2 (mt List.mem_singleton.1 hc.2.1.symm)
      rw [hc0, List.count_eq_zero]
      rcases hone with ⟨hid, rfl⟩ | ⟨tok, htok, rfl⟩
      · exact mt List.mem_singleton.1 (identity_ne_enter hid).symm
      · exact mt List.mem_singleton.1 (punct_enter_free _ htok).2.symm

theorem turn_progress {s rest : Str} {o : Bytes} (hs : s ≠ []) (h : turn s = .ok (o, rest)) :
    rest.length < s.length := by
  obtain ⟨used, hne, rfl, -⟩ := turn_eq_ok hs h
  have := List.length_pos_iff.2 hne
  rw [List.length_append]
  omega

def scanner : Scanner (Nat × Nat) Nat UInt8 where
  turn := turn
  progress := turn_progress

/-- `tokenize`. -/
def tokenize (source : Str) : Except UnknownChar Bytes :=
  match scanner.scan source with
  | .ok out => .ok out
  | .error (ch, left) => .error ⟨ch, source.length - left⟩

theorem tokenize_eq_ok {s : Str} {out : Bytes} : tokenize s = .ok out ↔ scanner.scan s = .ok out := by
  unfold tokenize
  split
  · rename_i o h
    rw [h, Except.ok.injEq, Except.ok.injEq]
  · rename_i ch left h
    rw [h]
    exact iff_of_false nofun nofun

def Raises (s : Str) : Prop := ∃ e, tokenize s = .error e

theorem raises_iff {s : Str} : Raises s ↔ ∀ out, tokenize s ≠ .ok out := by
  unfold Raises
  cases tokenize s <;> simp

/-! ## Lines -/

theorem foreign_newline : Foreign newline := by decide

/-- No turn looks past a newline. -/
theorem bounds_newline (b : Str) : scanner.Bounds (newline :: b) := by
  intro s hs o rest
  obtain ⟨c, t, rfl⟩ := List.exists_cons_of_ne_nil hs
  show turn (c :: (t ++ newline :: b)) = _ ↔ ∃ r, turn (c :: t) = _ ∧ _
  rcases blank_or c with hc | rfl | rfl | hc
  · simp only [turn_blank hc, Except.ok.injEq, Prod.mk.injEq]
    grind
  · simp only [turn_newline, Except.ok.injEq, Prod.mk.injEq]
    grind
  · simp only [turn_quote, literal_append_newline, Except.ok.injEq, Prod.mk.injEq]
    grind
  · rw [turn_token hc, turn_token hc]
    exact token_append foreign_newline c t b o rest

theorem tokenize_newline_cons {b : Str} {out : Bytes} :
    tokenize (newline :: b) = .ok out ↔ ∃ tb, tokenize b = .ok tb ∧ out = enter :: tb := by
  rw [tokenize_eq_ok, Scanner.scan_eq_ok (List.cons_ne_nil _ _)]
  simp only [tokenize_eq_ok]
  constructor
  · rintro ⟨o, rest, os, hturn, hrest, rfl⟩
    cases hturn
    exact ⟨os, hrest, rfl⟩
  · rintro ⟨tb, hb, rfl⟩
    exact ⟨[enter], b, tb, rfl, hb, rfl⟩

theorem tokenize_split {a b : Str} {out : Bytes} :
    tokenize (a ++ newline :: b) = .ok out ↔
      ∃ ta tb, tokenize a = .ok ta ∧ tokenize b = .ok tb ∧ out = ta ++ enter :: tb := by
  rw [tokenize_eq_ok, Scanner.scan_append (bounds_newline b)]
  simp only [← tokenize_eq_ok, tokenize_newline_cons]
  constructor
  · rintro ⟨ta, _, ha, ⟨tb, hb, rfl⟩, rfl⟩
    exact ⟨ta, tb, ha, hb, rfl⟩
  · rintro ⟨ta, tb, ha, hb, rfl⟩
    exact ⟨ta, _, ha, ⟨tb, hb, rfl⟩, rfl⟩

/-- Every newline becomes an enter and nothing else does. -/
theorem count_enter (s : Str) {out : Bytes} (h : tokenize s = .ok out) : out.count enter = s.count newline := by
  rw [tokenize_eq_ok] at h
  induction s using scanner.scan_induction generalizing out with
  | nil =>
    rw [Scanner.scan_nil] at h
    cases h
    rfl
  | turn s hs ih =>
    obtain ⟨o, rest, os, hturn, hrest, rfl⟩ := (Scanner.scan_eq_ok hs).1 h
    obtain ⟨used, -, hused, hcount⟩ := turn_eq_ok hs hturn
    rw [hused, List.count_append, List.count_append, hcount, ih o rest hturn hrest]

theorem raises_line (a b : Str) : Raises (a ++ newline :: b) ↔ Raises a ∨ Raises b := by
  simp only [raises_iff, ne_eq, tokenize_split]
  constructor
  · intro h
    by_contra hboth
    simp only [not_or, not_forall, not_not] at hboth
    obtain ⟨⟨ta, ha⟩, tb, hb⟩ := hboth
    exact h _ ⟨ta, tb, ha, hb, rfl⟩
  · rintro h out ⟨ta, tb, ha, hb, rfl⟩
    rcases h with h | h
    · exact h ta ha
    · exact h tb hb

/-- The tokenizer works line by line: the lines before and after a newline are
tokenized on their own, with one enter between them. No turn that begins in
front of a newline sees what is behind it. -/
theorem tokenize_line_by_line (a b : Str) :
    (Raises (a ++ newline :: b) ↔ Raises a ∨ Raises b) ∧
      (∀ ta tb, tokenize a = .ok ta → tokenize b = .ok tb → tokenize (a ++ newline :: b) = .ok (ta ++ enter :: tb)) ∧
      (∀ s out, tokenize s = .ok out → out.count enter = s.count newline) ∧
      scanner.Bounds (newline :: b) := by
  refine ⟨raises_line a b, ?_, count_enter, bounds_newline b⟩
  intro ta tb ha hb
  exact tokenize_split.2 ⟨ta, tb, ha, hb, rfl⟩

/-! ## CRLF -/

/-- Every LF replaced by CRLF. -/
def crlf (s : Str) : Str := s.flatMap fun c => if c = newline then [carriageReturn, newline] else [c]

/-- The tokens of a source: what `tokenize` can read. -/
inductive Source : Str → Prop where
  | nil : Source []
  | blank {c s} : Blank c → Source s → Source (c :: s)
  | newline {s} : Source s → Source (newline :: s)
  | literal {body s} : Plain body → Source s → Source (quote :: (body ++ quote :: s))
  /-- An unclosed literal ends with its line. -/
  | unclosed {body s} : Plain body → Source (Text.newline :: s) → Source (quote :: (body ++ Text.newline :: s))
  | last {body} : Plain body → Source (quote :: body)
  | keyword {c s kw toks} : Starts c → keywordAt (c :: s) = some (kw, toks) → Source ((c :: s).drop kw.length) →
    Source (c :: s)
  | char {c s} : Starts c → keywordAt (c :: s) = none → isIdentity c ∨ (punct.lookup c).isSome → Source s →
    Source (c :: s)

theorem tokenize_turn {s rest : Str} {o out : Bytes} (hs : s ≠ []) (h : turn s = .ok (o, rest)) :
    tokenize s = .ok out ↔ ∃ os, tokenize rest = .ok os ∧ out = o ++ os := by
  rw [tokenize_eq_ok, Scanner.scan_eq_ok hs]
  simp only [tokenize_eq_ok]
  constructor
  · rintro ⟨o', rest', os, hturn, hrest, rfl⟩
    cases h.symm.trans hturn
    exact ⟨os, hrest, rfl⟩
  · rintro ⟨os, hrest, rfl⟩
    exact ⟨o, rest, os, h, hrest, rfl⟩

theorem turn_keyword {c : Nat} {s kw : Str} {toks : Bytes} (hc : Starts c) (hkw : keywordAt (c :: s) = some (kw, toks)) :
    turn (c :: s) = .ok (toks, (c :: s).drop kw.length) := by
  rw [turn_token hc, token, hkw]

theorem turn_char {c : Nat} {s : Str} (hc : Starts c) (hkw : keywordAt (c :: s) = none)
    (hone : isIdentity c ∨ (punct.lookup c).isSome) : ∃ o, turn (c :: s) = .ok (o, s) := by
  rw [turn_token hc, token, hkw]
  dsimp only
  by_cases hid : isIdentity c
  · rw [if_pos hid]
    exact ⟨_, rfl⟩
  · obtain ⟨tok, htok⟩ := Option.isSome_iff_exists.1 (hone.resolve_left hid)
    rw [if_neg hid, htok]
    exact ⟨_, rfl⟩

theorem tokenize_stuck {s : Str} (hs : s ≠ []) (h : ∀ o rest, turn s ≠ .ok (o, rest)) (out : Bytes) :
    tokenize s ≠ .ok out := by
  intro hout
  obtain ⟨o, rest, -, hturn, -⟩ := (Scanner.scan_eq_ok hs).1 (tokenize_eq_ok.1 hout)
  exact h o rest hturn

theorem source_of_turn {s rest : Str} {o : Bytes} (hs : s ≠ []) (h : turn s = .ok (o, rest)) (hrest : Source rest) :
    Source s := by
  obtain ⟨c, t, rfl⟩ := List.exists_cons_of_ne_nil hs
  rcases blank_or c with hc | rfl | rfl | hc
  · rw [turn_blank hc] at h
    cases h
    exact Source.blank hc hrest
  · cases h
    exact Source.newline hrest
  · obtain ⟨body, hbody, ht⟩ := literal_ends t
    rw [turn_quote] at h
    rcases ht with rfl | ⟨t, rfl⟩ | ⟨t, rfl⟩
    · exact Source.last hbody
    · rw [literal_closed hbody] at h
      cases h
      exact Source.literal hbody hrest
    · rw [literal_line_end hbody] at h
      cases h
      exact Source.unclosed hbody hrest
  · rw [turn_token hc, token] at h
    cases hkw : keywordAt (c :: t) with
    | some k =>
      rw [hkw] at h
      cases h
      exact Source.keyword hc hkw hrest
    | none =>
      rw [hkw] at h
      apply Source.char hc hkw
      · grind
      · grind

theorem tokenize_nil : tokenize [] = .ok [] := tokenize_eq_ok.2 scanner.scan_nil

/-- `tokenize` reads exactly the sources. -/
theorem source_iff (s : Str) : Source s ↔ ∃ out, tokenize s = .ok out := by
  constructor
  · have go {s rest : Str} {o : Bytes} (hs : s ≠ []) (h : turn s = .ok (o, rest)) :
        (∃ out, tokenize rest = .ok out) → ∃ out, tokenize s = .ok out := by
      rintro ⟨out, hrest⟩
      exact ⟨o ++ out, (tokenize_turn hs h).2 ⟨out, hrest, rfl⟩⟩
    intro h
    induction h with
    | nil => exact ⟨[], tokenize_nil⟩
    | blank hc _ ih => exact go (List.cons_ne_nil _ _) (turn_blank hc _) ih
    | newline _ ih => exact go (List.cons_ne_nil _ _) (turn_newline _) ih
    | literal hbody _ ih =>
      apply go (List.cons_ne_nil _ _) (turn_quote _)
      rw [literal_closed hbody]
      exact ih
    | unclosed hbody _ ih =>
      apply go (List.cons_ne_nil _ _) (turn_quote _)
      rw [literal_line_end hbody]
      exact ih
    | last hbody =>
      apply go (List.cons_ne_nil _ _) (turn_quote _)
      rw [literal_open hbody]
      exact ⟨[], tokenize_nil⟩
    | keyword hc hkw _ ih => exact go (List.cons_ne_nil _ _) (turn_keyword hc hkw) ih
    | char hc hkw hone _ ih =>
      obtain ⟨o, hturn⟩ := turn_char hc hkw hone
      exact go (List.cons_ne_nil _ _) hturn ih
  · rintro ⟨out, h⟩
    induction s using scanner.scan_induction generalizing out with
    | nil => exact Source.nil
    | turn s hs ih =>
      obtain ⟨o, rest, os, hturn, hrest, -⟩ := (Scanner.scan_eq_ok hs).1 (tokenize_eq_ok.1 h)
      exact source_of_turn hs hturn (ih o rest hturn os (tokenize_eq_ok.2 hrest))

/-! A CR at the end of a line is skipped, or becomes a space when a literal is open there. -/

/-- An open literal has an odd number of quotes before it. -/
def crTokens (line : Str) : Bytes := if Even (line.count quote) then [] else [0x29]

theorem crTokens_congr {s t : Str} (h : Even (s.count quote) ↔ Even (t.count quote)) : crTokens s = crTokens t := by
  simp only [crTokens, h]

theorem keywords_quote_free : ∀ k ∈ keywords, quote ∉ k.1 := by decide

theorem foreign_carriageReturn : Foreign carriageReturn := by decide

theorem count_quote_token {c : Nat} {s rest : Str} {o : Bytes} (hc : Starts c) (h : token c s = .ok (o, rest)) :
    (c :: s).count quote = rest.count quote := by
  rcases token_eq_ok h with ⟨kw, hkw, hs⟩ | ⟨rfl, -⟩
  · rw [hs, List.count_append, List.count_eq_zero.2 (keywords_quote_free _ hkw), Nat.zero_add]
  · exact List.count_cons_of_ne hc.2.2

theorem tokenize_open {body : Str} (h : Plain body) :
    tokenize (quote :: body) = .ok (0x2A :: body.map literalToken) := by
  rw [tokenize_turn (List.cons_ne_nil _ _) (turn_quote body), literal_open h]
  exact ⟨[], tokenize_nil, (List.append_nil _).symm⟩

/-- A CR behind `line` is read on its own. -/
def CrApart (line : Str) : Prop :=
  ∀ out, tokenize (line ++ [carriageReturn]) = .ok out ↔ ∃ o, tokenize line = .ok o ∧ out = o ++ crTokens line

theorem crApart_nil : CrApart [] := by
  intro out
  rw [List.nil_append, tokenize_turn (List.cons_ne_nil _ _) (turn_blank (Or.inl rfl) [])]
  simp [crTokens]

/-- A turn that ends before the CR leaves it to the rest. -/
theorem CrApart.turn {s rest : Str} {o : Bytes} (hrest : CrApart rest) (hs : s ≠ []) (hturn : turn s = .ok (o, rest))
    (hcr : turn (s ++ [carriageReturn]) = .ok (o, rest ++ [carriageReturn]))
    (hq : Even (s.count quote) ↔ Even (rest.count quote)) : CrApart s := by
  intro out
  rw [tokenize_turn (List.append_ne_nil_of_left_ne_nil hs _) hcr]
  simp only [tokenize_turn hs hturn, hrest _, crTokens_congr hq]
  constructor
  · rintro ⟨_, ⟨os, hos, rfl⟩, rfl⟩
    exact ⟨_, ⟨os, hos, rfl⟩, (List.append_assoc ..).symm⟩
  · rintro ⟨_, ⟨os, hos, rfl⟩, rfl⟩
    exact ⟨_, ⟨os, hos, rfl⟩, List.append_assoc ..⟩

theorem crApart_closed {body t : Str} (hbody : Plain body) (ht : CrApart t) : CrApart (quote :: (body ++ quote :: t)) := by
  have hclosed := literal_closed hbody
  apply ht.turn (List.cons_ne_nil _ _)
  · rw [turn_quote, hclosed]
  · rw [List.cons_append, turn_quote, List.append_assoc, List.cons_append, hclosed]
  · rw [List.count_cons_self, List.count_append, List.count_eq_zero.2 hbody.1, List.count_cons_self, Nat.zero_add,
      Nat.even_add_one, Nat.even_add_one, not_not]

/-- An open literal takes the CR in. -/
theorem crApart_open {body : Str} (hbody : Plain body) : CrApart (quote :: body) := by
  intro out
  have hopen : Plain (body ++ [carriageReturn]) := by
    simp [Plain, hbody.1, hbody.2]
  have hodd : crTokens (quote :: body) = [0x29] := by
    rw [crTokens, List.count_cons_self, List.count_eq_zero.2 hbody.1, if_neg (by decide)]
  rw [List.cons_append, tokenize_open hopen, tokenize_open hbody, hodd, List.map_append]
  simp only [Except.ok.injEq, exists_eq_left', eq_comm (a := out)]
  rfl

theorem crApart_token {c : Nat} {t : Str} (hc : Starts c)
    (hrest : ∀ o rest, turn (c :: t) = .ok (o, rest) → CrApart rest) : CrApart (c :: t) := by
  have hcr : ∀ o rest, turn (c :: t ++ [carriageReturn]) = .ok (o, rest) ↔
      ∃ r, turn (c :: t) = .ok (o, r) ∧ rest = r ++ [carriageReturn] := by
    intro o rest
    rw [List.cons_append, turn_token hc, turn_token hc]
    exact token_append foreign_carriageReturn c t [] o rest
  cases hturn : turn (c :: t) with
  | ok r =>
    obtain ⟨o, rest⟩ := r
    apply (hrest o rest hturn).turn (List.cons_ne_nil _ _) hturn ((hcr o _).2 ⟨rest, hturn, rfl⟩)
    rw [turn_token hc] at hturn
    rw [count_quote_token hc hturn]
  | error e =>
    have hstuck : ∀ o rest, turn (c :: t) ≠ .ok (o, rest) := by
      intro o rest hok
      cases hturn.symm.trans hok
    intro out
    apply iff_of_false
    · apply tokenize_stuck (List.cons_ne_nil _ _)
      intro o rest hok
      obtain ⟨r, hr, -⟩ := (hcr o rest).1 hok
      exact hstuck o r hr
    · rintro ⟨o, ho, -⟩
      exact tokenize_stuck (List.cons_ne_nil _ _) hstuck o ho

/-- One line and a CR, by the turns of the scan. -/
theorem tokenize_cr {line : Str} (h : newline ∉ line) : CrApart line := by
  induction line using scanner.scan_induction with
  | nil => exact crApart_nil
  | turn s hs ih =>
    obtain ⟨c, t, rfl⟩ := List.exists_cons_of_ne_nil hs
    have hrest : ∀ o rest, turn (c :: t) = .ok (o, rest) → CrApart rest := by
      intro o rest hturn
      obtain ⟨used, -, hused, -⟩ := turn_eq_ok hs hturn
      exact ih o rest hturn ((hused ▸ h) ∘ List.mem_append_right used)
    rcases blank_or c with hc | rfl | rfl | hc
    · apply (hrest [] t (turn_blank hc t)).turn hs (turn_blank hc t) (turn_blank hc _)
      rw [List.count_cons_of_ne]
      rcases hc with rfl | rfl <;> decide
    · exact absurd List.mem_cons_self h
    · obtain ⟨body, hbody, hlit⟩ := literal_ends t
      rcases hlit with rfl | ⟨t, rfl⟩ | ⟨t, rfl⟩
      · exact crApart_open hbody
      · apply crApart_closed hbody
        apply hrest (0x2A :: (body.map literalToken ++ [0x2A]))
        rw [turn_quote, literal_closed hbody]
      · exact absurd (List.mem_cons_of_mem quote (List.mem_append_right body List.mem_cons_self)) h
    · exact crApart_token hc hrest

/-- Every line that a newline ends has its literals closed. -/
def LinesClosed (s : Str) : Prop := ∀ line ∈ (s.splitOn newline).dropLast, Even (line.count quote)

theorem linesClosed_line {a b : Str} (ha : newline ∉ a) :
    LinesClosed (a ++ newline :: b) ↔ Even (a.count quote) ∧ LinesClosed b := by
  rw [LinesClosed, List.splitOn_append_cons_self_of_not_mem ha, List.dropLast_cons_of_ne_nil (List.splitOn_ne_nil _ _),
    List.forall_mem_cons]
  rfl

theorem crlf_line {a : Str} (ha : newline ∉ a) (b : Str) :
    crlf (a ++ newline :: b) = (a ++ [carriageReturn]) ++ newline :: crlf b := by
  induction a with
  | nil => rfl
  | cons c cs ih =>
    rw [List.mem_cons, not_or] at ha
    have hc : crlf (c :: (cs ++ newline :: b)) = c :: crlf (cs ++ newline :: b) := by
      rw [crlf, List.flatMap_cons, if_neg (Ne.symm ha.1)]
      rfl
    rw [List.cons_append, hc, ih ha.2]
    rfl

theorem crlf_last {s : Str} (h : newline ∉ s) : crlf s = s := by
  induction s with
  | nil => rfl
  | cons c cs ih =>
    rw [List.mem_cons, not_or] at h
    rw [crlf, List.flatMap_cons, if_neg (Ne.symm h.1)]
    exact congrArg (c :: ·) (ih h.2)

/-- Every source is its first line and the rest, or one line. -/
theorem line_induction {P : Str → Prop} (last : ∀ s, newline ∉ s → P s)
    (line : ∀ a b, newline ∉ a → P b → P (a ++ newline :: b)) (s : Str) : P s := by
  induction hn : s.length using Nat.strongRecOn generalizing s with
  | ind n ih =>
    by_cases h : newline ∈ s
    · obtain ⟨a, b, rfl, ha⟩ := List.eq_append_cons_of_mem h
      apply line a b ha
      apply ih b.length _ b rfl
      rw [← hn, List.length_append, List.length_cons]
      omega
    · exact last s h

theorem raises_crlf (s : Str) : Raises (crlf s) ↔ Raises s := by
  induction s using line_induction with
  | last s h => rw [crlf_last h]
  | line a b ha ih =>
    have hcr : Raises (a ++ [carriageReturn]) ↔ Raises a := by
      rw [raises_iff, raises_iff]
      constructor
      · intro h out hout
        exact h _ ((tokenize_cr ha _).2 ⟨out, hout, rfl⟩)
      · intro h out hout
        obtain ⟨o, ho, -⟩ := (tokenize_cr ha _).1 hout
        exact h o ho
    rw [crlf_line ha, raises_line, raises_line, hcr, ih]

/-- A line's CR is lost, unless it falls into a literal. -/
theorem tokenize_crlf {s : Str} {out out' : Bytes} (h : tokenize s = .ok out) (h' : tokenize (crlf s) = .ok out') :
    out' = out ↔ LinesClosed s := by
  induction s using line_induction generalizing out out' with
  | last s hs =>
    rw [crlf_last hs] at h'
    rw [LinesClosed, List.splitOn_eq_singleton hs]
    cases h.symm.trans h'
    exact iff_of_true rfl nofun
  | line a b ha ih =>
    rw [crlf_line ha] at h'
    obtain ⟨ta, tb, hta, htb, rfl⟩ := tokenize_split.1 h
    obtain ⟨_, tb', hta', htb', rfl⟩ := tokenize_split.1 h'
    obtain ⟨o, ho, rfl⟩ := (tokenize_cr ha _).1 hta'
    cases hta.symm.trans ho
    rw [linesClosed_line ha, ← ih htb htb', List.append_assoc, List.append_cancel_left_eq, crTokens]
    split
    · rename_i heven
      simp [heven]
    · rename_i hodd
      exact iff_of_false (by simp [enter]) (hodd ·.1)

/-- `a` and `b` raise together and have the same tokens otherwise. -/
def SameTokens (a b : Str) : Prop := (Raises a ↔ Raises b) ∧ ∀ out, tokenize b = .ok out → tokenize a = .ok out

/-- CRLF reads as LF does unless a line of a source ends inside a literal. -/
theorem crlf_same_iff (s : Str) : SameTokens (crlf s) s ↔ (Source s → LinesClosed s) := by
  constructor
  · rintro ⟨-, hsame⟩ hs
    obtain ⟨out, h⟩ := (source_iff s).1 hs
    exact (tokenize_crlf h (hsame out h)).1 rfl
  · intro hclosed
    refine ⟨raises_crlf s, ?_⟩
    intro out h
    cases h' : tokenize (crlf s) with
    | error e =>
      obtain ⟨e', he'⟩ := (raises_crlf s).1 ⟨e, h'⟩
      cases h.symm.trans he'
    | ok out' => rw [(tokenize_crlf h h').2 (hclosed ((source_iff s).2 ⟨out, h⟩))]

/-- The deck's own line: the open literal takes the CR as an unknown character. -/
theorem crlf_not_same :
    carriageReturn ∉ str "Disp \"PROMPT?\n" ∧ ¬SameTokens (crlf (str "Disp \"PROMPT?\n")) (str "Disp \"PROMPT?\n") := by
  refine ⟨by decide, ?_⟩
  rintro ⟨-, hsame⟩
  have hlf : tokenize (str "Disp \"PROMPT?\n") =
      .ok [0xDE, 0x2A, 0x50, 0x52, 0x4F, 0x4D, 0x50, 0x54, 0xAF, 0x3F] := by decide +kernel
  have hcrlf : tokenize (crlf (str "Disp \"PROMPT?\n")) =
      .ok [0xDE, 0x2A, 0x50, 0x52, 0x4F, 0x4D, 0x50, 0x54, 0xAF, 0x29, 0x3F] := by decide +kernel
  cases (hsame _ hlf).symm.trans hcrlf

end CalcBridge.Bastok
