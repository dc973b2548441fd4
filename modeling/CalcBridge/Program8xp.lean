import CalcBridge.LinkLib.Text
import CalcBridge.Packet
/-!
# `.8Xp` files (`tools/bastok.py`, `tools/extract_8xp.py`)

`make8xp` wraps one program in the container, `parse8xp` takes the first
variable entry out of it again.
-/
open LinkLib LinkLib.Text

namespace CalcBridge.Program8xp

/-- sig + sub + comment + data-section-length. -/
def headerLen : Nat := 8 + 3 + 42 + 2

/-- 2 + 2 + 1 + 8 + 1 + 1 + 2. -/
def entryFixedLen : Nat := 17

def tProg : UInt8 := 0x05

/-- The locked variant. -/
def tProgLocked : UInt8 := 0x06

/-- `**TI83F*`. -/
def signature : Bytes := [0x2A, 0x2A, 0x54, 0x49, 0x38, 0x33, 0x46, 0x2A]

/-! ## The writer -/

def ValidName (name : Str) : Prop :=
  1 ≤ name.length ∧ name.length ≤ 8 ∧ ∀ c ∈ name, (0x41 ≤ c ∧ c ≤ 0x5A) ∨ (0x30 ≤ c ∧ c ≤ 0x39)

instance (name : Str) : Decidable (ValidName name) := inferInstanceAs (Decidable (_ ∧ _ ∧ _))

/-- 42 bytes. -/
def comment : Bytes := (str "chat deck").map UInt8.ofNat ++ List.replicate 33 0x20

/-- `make_8xp`. The error is the text of the ValueError. -/
def make8xp (name : Str) (body : Bytes) (locked : Bool) : Except String Bytes :=
  if ¬ValidName name then .error "name must be 1-8 chars, uppercase A-Z and 0-9"
  else
    let typeId := if locked then tProgLocked else tProg
    let nameField := name.map UInt8.ofNat ++ List.replicate (8 - name.length) 0x00
    let varData := wordBytes body.length ++ body
    let varSize := varData.length
    let sig := signature ++ [0x1A, 0x0A, 0x00]
    let dataSection := [0x0D, 0x00] ++ wordBytes varSize ++ [typeId] ++ nameField ++ [0x00, 0x00] ++
      wordBytes varSize ++ varData
    let header := sig ++ comment ++ wordBytes dataSection.length
    let checksum := (dataSection.map UInt8.toNat).sum &&& 0xFFFF
    .ok (header ++ dataSection ++ wordBytes checksum)

/-! ## The reader -/

/-- `buf[p] | (buf[p + 1] << 8)`. -/
def field (buf : Bytes) (p : Nat) : Nat := word (buf.getD p 0) (buf.getD (p + 1) 0)

/-- `buf[p:p + n]`. -/
def slice (buf : Bytes) (p n : Nat) : Bytes := (buf.drop p).take n

/-- The ValueErrors, with the numbers their texts show. -/
inductive Invalid where
  /-- "file too short to be a .8Xp" -/
  | short
  /-- "missing **TI83F* signature" -/
  | signature
  /-- "unexpected entry header length" -/
  | entryHeader (n : Nat)
  /-- "var size fields disagree" -/
  | sizes (a b : Nat)
  /-- "payload truncated" -/
  | truncated (want got : Nat)
  /-- The UnicodeDecodeError of the name. -/
  | name
  deriving DecidableEq, Repr

structure Program where
  name : Str
  typeId : UInt8
  locked : Bool
  payload : Bytes
  deriving DecidableEq, Repr

/-- `name.rstrip(b"\x00")`. -/
def trimName (name : Bytes) : Bytes := name.rdropWhile (· == 0)

/-- `parse_8xp`. -/
def parse8xp (buf : Bytes) : Except Invalid Program :=
  if buf.length < headerLen + entryFixedLen + 2 then .error .short
  else if buf.take 8 ≠ signature then .error .signature
  else
    let p := headerLen
    let entryHdrLen := field buf p
    if entryHdrLen ≠ 0x000D then .error (.entryHeader entryHdrLen)
    else
      let varSizeA := field buf (p + 2)
      let typeId := buf.getD (p + 4) 0
      let name := slice buf (p + 5) 8
      let varSizeB := field buf (p + 15)
      if varSizeA ≠ varSizeB then .error (.sizes varSizeA varSizeB)
      else
        let payload := slice buf (p + entryFixedLen) varSizeA
        if payload.length ≠ varSizeA then .error (.truncated varSizeA payload.length)
        else
          match decodeAscii (trimName name) with
          | none => .error .name
          | some s => .ok ⟨s, typeId, typeId == tProgLocked, payload⟩

/-! ## What the reader accepts -/

/-- The size of the entry's variable data. -/
def varSize (buf : Bytes) : Nat := field buf 57

/-- What `parse8xp` checks. -/
structure Recognized (buf : Bytes) : Prop where
  long : 74 ≤ buf.length
  signature : buf.take 8 = signature
  entryHeader : field buf 55 = 0x0D
  sizes : field buf 57 = field buf 70
  whole : 72 + varSize buf ≤ buf.length
  ascii : (trimName (slice buf 60 8)).all fun b => b.toNat < 128

/-- The first entry. -/
def entry (buf : Bytes) : Program where
  name := (trimName (slice buf 60 8)).map UInt8.toNat
  typeId := buf.getD 59 0
  locked := buf.getD 59 0 == tProgLocked
  payload := slice buf 72 (varSize buf)

theorem length_slice (buf : Bytes) (p n : Nat) : (slice buf p n).length = min n (buf.length - p) := by
  rw [slice, List.length_take, List.length_drop]

theorem length_payload_iff {buf : Bytes} (h : 74 ≤ buf.length) :
    (slice buf 72 (varSize buf)).length = varSize buf ↔ 72 + varSize buf ≤ buf.length := by
  rw [length_slice]
  omega

theorem decodeAscii_eq_some {b : Bytes} {s : Str} :
    decodeAscii b = some s ↔ (b.all fun x => x.toNat < 128) ∧ b.map UInt8.toNat = s := by
  unfold decodeAscii
  split
  · rename_i h
    rw [Option.some.injEq, iff_and_self]
    exact fun _ => h
  · rename_i h
    exact iff_of_false nofun (h ·.1)

theorem parse8xp_eq_ok {buf : Bytes} {r : Program} : parse8xp buf = .ok r ↔ Recognized buf ∧ r = entry buf := by
  unfold parse8xp
  constructor
  · intro h
    split at h
    · cases h
    · rename_i hlong
      split at h
      · cases h
      · rename_i hsig
        dsimp only at h
        split at h
        · cases h
        · rename_i hentry
          split at h
          · cases h
          · rename_i hsizes
            split at h
            · cases h
            · rename_i hwhole
              split at h
              · cases h
              · rename_i s hs
                have hlong : 74 ≤ buf.length := Nat.le_of_not_lt hlong
                obtain ⟨hascii, rfl⟩ := decodeAscii_eq_some.1 hs
                cases h
                exact ⟨⟨hlong, not_not.1 hsig, not_not.1 hentry, not_not.1 hsizes,
                  (length_payload_iff hlong).1 (not_not.1 hwhole), hascii⟩, rfl⟩
  · rintro ⟨⟨hlong, hsig, hentry, hsizes, hwhole, hascii⟩, rfl⟩
    have hname : decodeAscii (trimName (slice buf 60 8)) = some _ := decodeAscii_eq_some.2 ⟨hascii, rfl⟩
    have hpayload : (slice buf (headerLen + entryFixedLen) (field buf (headerLen + 2))).length =
        field buf (headerLen + 2) :=
      (length_payload_iff hlong).2 hwhole
    rw [if_neg (show ¬buf.length < headerLen + entryFixedLen + 2 from Nat.not_lt_of_le hlong), if_neg (not_not.2 hsig)]
    dsimp only
    rw [if_neg (show ¬field buf headerLen ≠ 0x0D from not_not.2 hentry),
      if_neg (show ¬field buf (headerLen + 2) ≠ field buf (headerLen + 15) from not_not.2 hsizes),
      if_neg (not_not.2 hpayload), show slice buf (headerLen + 5) 8 = slice buf 60 8 from rfl, hname]
    rfl

/-! ### Which bytes are read -/

theorem slice_congr {a b : Bytes} {p n : Nat} (h : ∀ q, p ≤ q → q < p + n → a[q]? = b[q]?) : slice a p n = slice b p n := by
  apply List.ext_getElem?
  intro q
  rw [slice, slice, List.getElem?_take, List.getElem?_take]
  split
  · rw [List.getElem?_drop, List.getElem?_drop, h (p + q) (by omega) (by omega)]
  · rfl

theorem field_congr {a b : Bytes} {p : Nat} (h : ∀ q, p ≤ q → q < p + 2 → a[q]? = b[q]?) : field a p = field b p := by
  rw [field, field, List.getD_eq_getElem?_getD, List.getD_eq_getElem?_getD, List.getD_eq_getElem?_getD,
    List.getD_eq_getElem?_getD, h p (by omega) (by omega), h (p + 1) (by omega) (by omega)]

/-- The signature and the entry are read: not the rest of the header, nor what is behind the entry. -/
theorem parse8xp_congr {a b : Bytes} (hlen : a.length = b.length)
    (h : ∀ q, q < 8 ∨ 55 ≤ q → q < 72 + varSize a → a[q]? = b[q]?) : parse8xp a = parse8xp b := by
  have hfield : ∀ p, 55 ≤ p → p + 2 ≤ 72 → field a p = field b p := by
    intro p hp hp'
    exact field_congr fun q hq hq' => h q (by omega) (by omega)
  have hsig : a.take 8 = b.take 8 := slice_congr (p := 0) fun q _ hq => h q (by omega) (by omega)
  have hname : slice a 60 8 = slice b 60 8 := slice_congr fun q hq hq' => h q (by omega) (by omega)
  have htype : a.getD 59 0 = b.getD 59 0 := by
    rw [List.getD_eq_getElem?_getD, List.getD_eq_getElem?_getD, h 59 (by omega) (by omega)]
  have hpayload : slice a 72 (varSize a) = slice b 72 (varSize b) := by
    rw [varSize, varSize, ← hfield 57 (by omega) (by omega)]
    exact slice_congr fun q hq hq' => h q (by omega) hq'
  rw [varSize, varSize] at hpayload
  unfold parse8xp
  dsimp only [headerLen, entryFixedLen, Nat.reduceAdd]
  rw [hlen, hsig, hname, htype, hpayload, hfield 55 (by omega) (by omega), hfield 57 (by omega) (by omega),
    hfield 70 (by omega) (by omega)]

/-- The checks pass again on a buffer with the same first 72 bytes that holds the variable data. -/
theorem Recognized.of_header {a b : Bytes} (ha : Recognized a) (h : ∀ q < 72, b[q]? = a[q]?) (hlong : 74 ≤ b.length)
    (hwhole : 72 + varSize a ≤ b.length) : Recognized b := by
  have hfield : ∀ p, p + 2 ≤ 72 → field b p = field a p := by
    intro p hp
    exact field_congr fun q _ hq => h q (by omega)
  have hsig : b.take 8 = a.take 8 := slice_congr (p := 0) fun q _ hq => h q (by omega)
  have hname : slice b 60 8 = slice a 60 8 := slice_congr fun q _ hq => h q (by omega)
  constructor
  · exact hlong
  · rw [hsig]
    exact ha.signature
  · rw [hfield 55 (by omega)]
    exact ha.entryHeader
  · rw [hfield 57 (by omega), hfield 70 (by omega)]
    exact ha.sizes
  · rw [varSize, hfield 57 (by omega)]
    exact hwhole
  · rw [hname]
    exact ha.ascii

/-- A change in the variable data changes the payload there and nothing else. -/
theorem entry_set (buf : Bytes) {i : Nat} (hi : 72 ≤ i) (b : UInt8) :
    entry (buf.set i b) = { entry buf with payload := (entry buf).payload.set (i - 72) b } := by
  have hsame : ∀ q < 72, (buf.set i b)[q]? = buf[q]? := by
    intro q hq
    exact List.getElem?_set_ne (by omega)
  have hname : slice (buf.set i b) 60 8 = slice buf 60 8 := slice_congr fun q _ hq => hsame q (by omega)
  have hsize : varSize (buf.set i b) = varSize buf := field_congr fun q _ hq => hsame q (by omega)
  have htype : (buf.set i b).getD 59 0 = buf.getD 59 0 := by
    rw [List.getD_eq_getElem?_getD, List.getD_eq_getElem?_getD, hsame 59 (by decide)]
  have hpayload : slice (buf.set i b) 72 (varSize buf) = (slice buf 72 (varSize buf)).set (i - 72) b := by
    rw [slice, slice, List.drop_set, if_neg (Nat.not_lt_of_le hi), List.take_set]
  rw [entry, hname, hsize, htype, hpayload]
  rfl

/-! ### What is not checked -/

/-- The bytes between the header and the checksum. -/
def dataSection (buf : Bytes) : Bytes := slice buf 55 (buf.length - 57)

/-- The header's length field and the checksum are right. -/
structure Intact (buf : Bytes) : Prop where
  length : field buf 53 = (dataSection buf).length
  checksum : field buf (buf.length - 2) = ((dataSection buf).map UInt8.toNat).sum % 65536

/-- A file with its first entry in the data section. -/
structure Valid (buf : Bytes) : Prop extends Recognized buf, Intact buf where
  room : 74 + varSize buf ≤ buf.length

def Rejected (buf : Bytes) : Prop := ∃ e, parse8xp buf = .error e

theorem rejected_iff {buf : Bytes} : Rejected buf ↔ ¬Recognized buf := by
  constructor
  · rintro ⟨e, he⟩ h
    cases he.symm.trans (parse8xp_eq_ok.2 ⟨h, rfl⟩)
  · intro h
    cases hr : parse8xp buf with
    | error e => exact ⟨e, hr⟩
    | ok r => exact absurd (parse8xp_eq_ok.1 hr).1 h

/-- `parse8xp` accepts only buffers that pass its header checks and takes the
entry's fields from them, so a truncation that cuts into the variable data is
rejected. It reads neither the length of the data section nor the checksum: a
change of these is not seen, and a change of the variable data is returned. -/
theorem parse8xp_accepts (buf : Bytes) :
    (∀ r, parse8xp buf = .ok r → Recognized buf ∧ r = entry buf) ∧
      (Valid buf → ∀ k < 72 + varSize buf, Rejected (buf.take k)) ∧
      (∀ i b, 8 ≤ i ∧ i < 55 ∨ 72 + varSize buf ≤ i → parse8xp (buf.set i b) = parse8xp buf) ∧
      ∀ r i b, parse8xp buf = .ok r → 72 ≤ i → i < 72 + varSize buf →
        parse8xp (buf.set i b) = .ok { r with payload := r.payload.set (i - 72) b } := by
  refine ⟨fun r h => parse8xp_eq_ok.1 h, ?_, ?_, ?_⟩
  · intro hvalid k hk
    rw [rejected_iff]
    intro h
    have hlen := h.long
    rw [List.length_take] at hlen
    have hsize : varSize (buf.take k) = varSize buf :=
      field_congr fun q _ hq => List.getElem?_take_of_lt (by omega)
    have hwhole := h.whole
    rw [hsize, List.length_take] at hwhole
    omega
  · intro i b hi
    symm
    apply parse8xp_congr (List.length_set ..).symm
    intro q hq hq'
    exact (List.getElem?_set_ne (by omega)).symm
  · intro r i b hr hi hi'
    obtain ⟨h, rfl⟩ := parse8xp_eq_ok.1 hr
    have hsame : ∀ q < 72, (buf.set i b)[q]? = buf[q]? := by
      intro q hq
      exact List.getElem?_set_ne (by omega)
    have hset : Recognized (buf.set i b) := by
      apply h.of_header hsame
      · rw [List.length_set]
        exact h.long
      · rw [List.length_set]
        exact h.whole
    exact parse8xp_eq_ok.2 ⟨hset, (entry_set buf hi b).symm⟩

/-! ## The round trip -/

/-- The data section of one program. -/
def section8xp (size : Nat) (typeId : UInt8) (nameField varData : Bytes) : Bytes :=
  [0x0D, 0x00] ++ wordBytes size ++ [typeId] ++ nameField ++ [0x00, 0x00] ++ wordBytes size ++ varData

/-- The container around it. -/
def container (sectionLen : Nat) (dataSection : Bytes) (checksum : Nat) : Bytes :=
  signature ++ [0x1A, 0x0A, 0x00] ++ comment ++ wordBytes sectionLen ++ dataSection ++ wordBytes checksum

/-- What reading `wordBytes n` gives. -/
def wordOf (n : Nat) : Nat := word (UInt8.ofNat (n &&& 0xFF)) (UInt8.ofNat ((n >>> 8) &&& 0xFF))

theorem wordOf_eq (n : Nat) : wordOf n = n % 65536 := by
  rw [wordOf, word, Bytes.or_shiftLeft_8, Bytes.and_ff, Bytes.and_ff, Bytes.shiftRight_8]
  simp only [UInt8.toNat_ofNat']
  omega

theorem container_header (size : Nat) (typeId : UInt8) {nameField : Bytes} (varData : Bytes) (sectionLen checksum : Nat)
    (hn : nameField.length = 8) :
    let file := container sectionLen (section8xp size typeId nameField varData) checksum
    file.take 8 = signature ∧ field file 55 = 0x0D ∧ field file 57 = wordOf size ∧ file.getD 59 0 = typeId ∧
      slice file 60 8 = nameField ∧ field file 70 = wordOf size ∧ file.drop 72 = varData ++ wordBytes checksum := by
  match nameField, hn with
  | [_, _, _, _, _, _, _, _], _ =>
    exact ⟨rfl, (by decide : word 0x0D 0x00 = 0x0D), rfl, rfl, rfl, rfl, rfl⟩

theorem container_section (sectionLen : Nat) (data : Bytes) (checksum : Nat) :
    let file := container sectionLen data checksum
    file.length = 57 + data.length ∧ field file 53 = wordOf sectionLen ∧ dataSection file = data ∧
      field file (file.length - 2) = wordOf checksum := by
  have hlen : (container sectionLen data checksum).length = 57 + data.length := by
    simp only [container, List.length_append, wordBytes]
    have : signature.length = 8 ∧ comment.length = 42 := by decide
    simp only [this, List.length_cons, List.length_nil]
    omega
  have hdrop : (container sectionLen data checksum).drop 55 = data ++ wordBytes checksum := rfl
  refine ⟨hlen, rfl, ?_, ?_⟩
  · rw [dataSection, slice, hdrop, hlen, Nat.add_sub_cancel_left, List.take_left]
  · have hget : ∀ i, (container sectionLen data checksum).getD (57 + data.length - 2 + i) 0 = (wordBytes checksum).getD i 0 := by
      intro i
      have := congrArg (·[data.length + i]?) hdrop
      rw [List.getElem?_drop, List.getElem?_append_right (Nat.le_add_right ..), Nat.add_sub_cancel_left] at this
      rw [List.getD_eq_getElem?_getD, List.getD_eq_getElem?_getD, ← this]
      congr 2
      omega
    rw [hlen, field, hget 1]
    exact congrArg (word · _) (hget 0)

theorem trimName_pad {name : Bytes} (h : ∀ b ∈ name, b ≠ 0) (k : Nat) : trimName (name ++ List.replicate k 0x00) = name := by
  induction k with
  | zero =>
    rw [List.replicate_zero, List.append_nil]
    rw [trimName, List.rdropWhile_eq_self_iff]
    intro hne
    simpa using h _ (List.getLast_mem hne)
  | succ k ih =>
    rw [List.replicate_succ', ← List.append_assoc]
    exact (List.rdropWhile_concat_pos _ _ _ rfl).trans ih

/-- The name, filled up to 8 bytes. -/
def paddedName (name : Str) : Bytes := name.map UInt8.ofNat ++ List.replicate (8 - name.length) 0x00

/-- The data section that `make8xp` writes. -/
def programSection (name : Str) (body : Bytes) (locked : Bool) : Bytes :=
  section8xp (2 + body.length) (if locked then tProgLocked else tProg) (paddedName name) (wordBytes body.length ++ body)

/-- The characters of a valid name are neither NUL nor outside ASCII. -/
theorem ValidName.char {name : Str} (h : ValidName name) : ∀ c ∈ name, 0 < c ∧ c < 128 := by
  intro c hc
  have := h.2.2 c hc
  omega

theorem length_paddedName {name : Str} (h : ValidName name) : (paddedName name).length = 8 := by
  have := h.2.1
  rw [paddedName, List.length_append, List.length_map, List.length_replicate]
  omega

theorem length_programSection {name : Str} (h : ValidName name) (body : Bytes) (locked : Bool) :
    (programSection name body locked).length = 19 + body.length := by
  simp only [programSection, section8xp, wordBytes, List.length_append, List.length_cons, List.length_nil,
    length_paddedName h]
  omega

theorem trimName_paddedName {name : Str} (h : ValidName name) : trimName (paddedName name) = name.map UInt8.ofNat := by
  apply trimName_pad
  intro b hb hzero
  obtain ⟨c, hc, rfl⟩ := List.mem_map.1 hb
  have hpos := (h.char c hc).1
  rw [← toNat_ofNat (h.char c hc).2, hzero] at hpos
  exact absurd hpos (by decide)

/-- The fields of what `make8xp` writes have their true values and the reader takes back what went in. -/
def RoundTrips (name : Str) (body : Bytes) (locked : Bool) : Prop :=
  ∀ file, make8xp name body locked = .ok file →
    parse8xp file = .ok ⟨name, if locked then tProgLocked else tProg, locked, wordBytes body.length ++ body⟩ ∧
      Intact file ∧ field file 57 = 2 + body.length ∧ field file 70 = 2 + body.length

theorem make8xp_eq_ok {name : Str} {body : Bytes} {locked : Bool} {file : Bytes} :
    make8xp name body locked = .ok file ↔ ValidName name ∧
      let data := programSection name body locked
      file = container data.length data ((data.map UInt8.toNat).sum &&& 0xFFFF) := by
  have hsize : (wordBytes body.length ++ body).length = 2 + body.length := by
    rw [List.length_append]
    rfl
  unfold make8xp programSection
  split
  · rename_i h
    exact iff_of_false nofun (h ·.1)
  · rename_i h
    rw [Except.ok.injEq, and_iff_right (not_not.1 h), ← hsize, eq_comm]
    rfl

/-- The checksum of what `make8xp` writes is right, and its length field when it fits in 16 bits. -/
theorem intact_iff (data : Bytes) :
    Intact (container data.length data ((data.map UInt8.toNat).sum &&& 0xFFFF)) ↔ data.length < 65536 := by
  obtain ⟨-, hfield, hdata, hsum⟩ := container_section data.length data ((data.map UInt8.toNat).sum &&& 0xFFFF)
  constructor
  · intro h
    have hlen := h.length
    rw [hfield, hdata, wordOf_eq] at hlen
    exact Nat.mod_eq_iff_lt (by decide) |>.1 hlen
  · intro h
    constructor
    · rw [hfield, hdata, wordOf_eq, Nat.mod_eq_of_lt h]
    · rw [hsum, hdata, wordOf_eq, Nat.and_two_pow_sub_one_eq_mod _ 16, Nat.mod_mod]

/-- The reader takes back a program whose size fits in 16 bits. -/
theorem parse8xp_container {name : Str} (h : ValidName name) {body : Bytes} (hbody : body.length ≤ 65533) (locked : Bool)
    (sectionLen checksum : Nat) :
    let file := container sectionLen (programSection name body locked) checksum
    parse8xp file = .ok ⟨name, if locked then tProgLocked else tProg, locked, wordBytes body.length ++ body⟩ ∧
      field file 57 = 2 + body.length ∧ field file 70 = 2 + body.length := by
  intro file
  have hword : wordOf (2 + body.length) = 2 + body.length := by
    rw [wordOf_eq, Nat.mod_eq_of_lt (by omega)]
  obtain ⟨hsig, hentry, hsizeA, htype, hname, hsizeB, hdrop⟩ :=
    container_header (2 + body.length) (if locked then tProgLocked else tProg) (wordBytes body.length ++ body) sectionLen
      checksum (length_paddedName h)
  rw [hword] at hsizeA hsizeB
  have hlen : file.length = 57 + (19 + body.length) := by
    rw [← length_programSection h body locked]
    exact (container_section ..).1
  have htrim : trimName (slice file 60 8) = name.map UInt8.ofNat := by
    rw [show slice file 60 8 = _ from hname, trimName_paddedName h]
  have hpayload : slice file 72 (varSize file) = wordBytes body.length ++ body := by
    rw [slice, show file.drop 72 = _ from hdrop, varSize, show field file 57 = _ from hsizeA]
    apply List.take_left'
    rw [List.length_append]
    rfl
  refine ⟨parse8xp_eq_ok.2 ⟨?_, ?_⟩, hsizeA, hsizeB⟩
  · constructor
    · omega
    · exact hsig
    · exact hentry
    · exact hsizeA.trans hsizeB.symm
    · rw [varSize, show field file 57 = _ from hsizeA]
      omega
    · rw [htrim, List.all_map, List.all_eq_true]
      intro c hc
      rw [Function.comp_apply, decide_eq_true_eq, toNat_ofNat (h.char c hc).2]
      exact (h.char c hc).2
  · rw [entry, htrim, hpayload, show file.getD 59 0 = _ from htype, map_toNat_ofNat fun c hc => (h.char c hc).2]
    cases locked <;> rfl

/-- The writer and the reader are inverse as long as the data section fits its length field. -/
theorem make8xp_round_trips_iff (name : Str) (body : Bytes) (locked : Bool) :
    RoundTrips name body locked ↔ ¬ValidName name ∨ body.length ≤ 65516 := by
  rw [← imp_iff_not_or]
  constructor
  · intro h hname
    obtain ⟨-, hintact, -⟩ := h _ (make8xp_eq_ok.2 ⟨hname, rfl⟩)
    have := (intact_iff _).1 hintact
    rw [length_programSection hname] at this
    omega
  · intro h file hfile
    obtain ⟨hname, rfl⟩ := make8xp_eq_ok.1 hfile
    have hbody := h hname
    obtain ⟨hparse, hsizes⟩ := parse8xp_container hname (Nat.le_trans hbody (by decide)) locked _ _
    refine ⟨hparse, (intact_iff _).2 ?_, hsizes⟩
    rw [length_programSection hname]
    omega

/-- A body of 65517 bytes makes the length of the data section 0 in the header. -/
theorem make8xp_too_long : ¬RoundTrips (str "A") (List.replicate 65517 0x00) false := by
  have hname : ValidName (str "A") := by decide
  intro h
  obtain ⟨-, hintact, -⟩ := h _ (make8xp_eq_ok.2 ⟨hname, rfl⟩)
  have := (intact_iff _).1 hintact
  rw [length_programSection hname, List.length_replicate] at this
  exact absurd this (by decide)

/-- The smallest program. -/
def empty8xp : Bytes :=
  signature ++ [0x1A, 0x0A, 0x00] ++ comment ++ [0x13, 0x00] ++
    [0x0D, 0x00, 0x02, 0x00, 0x05, 0x41, 0, 0, 0, 0, 0, 0, 0, 0x00, 0x00, 0x02, 0x00, 0x00, 0x00] ++ [0x57, 0x00]

example : make8xp (str "A") [] false = .ok empty8xp := by decide

theorem parse8xp_not_intact :
    Valid empty8xp ∧ ¬Intact (empty8xp.set 72 0x01) ∧
      parse8xp (empty8xp.set 72 0x01) = .ok ⟨str "A", tProg, false, [0x01, 0x00]⟩ := by
  refine ⟨⟨⟨by decide, by decide, by decide, by decide, by decide, by decide⟩, ⟨by decide, by decide⟩, by decide⟩, ?_,
    by decide⟩
  rintro ⟨-, h⟩
  revert h
  decide

end CalcBridge.Program8xp
