import CalcBridge.LinkLib.Bytes
import Mathlib.Data.List.Induction
/-!
# WebSocket frames (RFC 6455, section 5.2)

A frame is its first byte, an optional mask, one of three length forms and the
payload. `encode` lays it out on the wire and `decode` reads one back, so a
stream of encoded frames has exactly one reading.
-/

namespace LinkLib.WsFrame

/-- A masking key. -/
structure Mask where
  key : Bytes
  four : key.length = 4
  deriving DecidableEq, Repr

/-- The key byte for position `i`. -/
def Mask.get (m : Mask) (i : Nat) : UInt8 := m.key.getD (i % 4) 0

/-- Masking and unmasking. -/
def Mask.apply (m : Mask) (bs : Bytes) : Bytes := bs.mapIdx fun i b => b ^^^ m.get i

/-- The 7-bit, 16-bit and 64-bit length forms. -/
inductive LenForm where
  | short
  | ext16
  | ext64
  deriving DecidableEq, Repr

def LenForm.Fits : LenForm → Nat → Prop
  | .short, n => n < 126
  | .ext16, n => n < 65536
  | .ext64, n => n < 2 ^ 64

instance (form : LenForm) (n : Nat) : Decidable (form.Fits n) := by
  cases form <;> exact inferInstanceAs (Decidable (_ < _))

/-- The shortest form for a length. -/
def LenForm.minimal (n : Nat) : LenForm := if n < 126 then .short else if n < 65536 then .ext16 else .ext64

structure Frame where
  b1 : UInt8
  mask : Option Mask
  form : LenForm
  payload : Bytes
  fits : form.Fits payload.length
  deriving DecidableEq, Repr

def Frame.fin (f : Frame) : Prop := f.b1 &&& 0x80 ≠ 0

def Frame.opcode (f : Frame) : UInt8 := f.b1 &&& 0x0F

instance (f : Frame) : Decidable f.fin := inferInstanceAs (Decidable (_ ≠ _))

/-! ## Layout -/

/-- The seven length bits. -/
def LenForm.field : LenForm → Nat → Nat
  | .short, n => n
  | .ext16, _ => 126
  | .ext64, _ => 127

/-- The extended length. -/
def LenForm.ext : LenForm → Nat → Bytes
  | .short, _ => []
  | .ext16, n => Bytes.toBe 2 n
  | .ext64, n => Bytes.toBe 8 n

def maskBit (mask : Option Mask) : Nat := if mask.isSome then 128 else 0

def maskKey (mask : Option Mask) : Bytes := mask.elim [] Mask.key

def applyMask (mask : Option Mask) (bs : Bytes) : Bytes := mask.elim bs fun m => m.apply bs

def encode (f : Frame) : Bytes :=
  [f.b1, UInt8.ofNat (maskBit f.mask + f.form.field f.payload.length)] ++ f.form.ext f.payload.length ++
    maskKey f.mask ++ applyMask f.mask f.payload

def encodeAll (fs : List Frame) : Bytes := fs.flatMap encode

/-- The length form and the payload length, after the first two bytes. -/
def decodeLen (l7 : Nat) (bs : Bytes) : Option (LenForm × Nat × Bytes) :=
  if l7 = 126 then if 2 ≤ bs.length then some (.ext16, Bytes.ofBe (bs.take 2), bs.drop 2) else none
  else if l7 = 127 then if 8 ≤ bs.length then some (.ext64, Bytes.ofBe (bs.take 8), bs.drop 8) else none
  else some (.short, l7, bs)

def decodeMask (masked : Bool) (bs : Bytes) : Option (Option Mask × Bytes) :=
  if masked then
    if h : 4 ≤ bs.length then some (some ⟨bs.take 4, by simpa using h⟩, bs.drop 4) else none
  else some (none, bs)

/-- The first frame of a byte string and the bytes after it. `none` while it is incomplete. -/
def decode : Bytes → Option (Frame × Bytes)
  | b1 :: b2 :: rest =>
    match decodeLen (b2.toNat % 128) rest with
    | none => none
    | some (form, n, rest) =>
      match decodeMask (128 ≤ b2.toNat) rest with
      | none => none
      | some (mask, rest) =>
        if h : n ≤ rest.length ∧ form.Fits (applyMask mask (rest.take n)).length then
          some (⟨b1, mask, form, applyMask mask (rest.take n), h.2⟩, rest.drop n)
        else none
  | _ => none

/-- All frames of a byte string that holds complete frames only. -/
def decodeAll (bs : Bytes) : Option (List Frame) :=
  if bs = [] then some []
  else match decode bs with
    | none => none
    | some (f, rest) => if rest.length < bs.length then (decodeAll rest).map (f :: ·) else none
  termination_by bs.length

/-! ## Reading back what was laid out -/

theorem Mask.length_apply (m : Mask) (bs : Bytes) : (m.apply bs).length = bs.length := by simp [Mask.apply]

/-- Masking twice with one key gives the payload back. -/
theorem Mask.apply_apply (m : Mask) (bs : Bytes) : m.apply (m.apply bs) = bs := by
  apply List.ext_getElem (by simp [Mask.apply])
  intro i h1 h2
  simp only [Mask.apply, List.getElem_mapIdx, UInt8.xor_assoc, UInt8.xor_self, UInt8.xor_zero]

@[simp] theorem length_applyMask (mask : Option Mask) (bs : Bytes) : (applyMask mask bs).length = bs.length := by
  cases mask with
  | none => rfl
  | some m => exact m.length_apply bs

@[simp] theorem applyMask_applyMask (mask : Option Mask) (bs : Bytes) : applyMask mask (applyMask mask bs) = bs := by
  cases mask with
  | none => rfl
  | some m => exact m.apply_apply bs

theorem LenForm.field_lt {form : LenForm} {n : Nat} (h : form.Fits n) : form.field n < 128 := by
  cases form with
  | short => exact Nat.lt_trans h (by decide)
  | ext16 => exact Nat.lt_of_lt_of_le (by decide : 126 < 127) (by decide)
  | ext64 => exact (by decide : 127 < 128)

theorem LenForm.fits_minimal {n : Nat} (h : n < 2 ^ 64) : (LenForm.minimal n).Fits n := by
  unfold LenForm.minimal
  split
  · assumption
  · split
    · assumption
    · exact h

/-- The second byte splits into the mask bit and the seven length bits. -/
theorem second_byte {mask : Option Mask} {l7 : Nat} (h : l7 < 128) :
    (UInt8.ofNat (maskBit mask + l7)).toNat = maskBit mask + l7 := by
  have : maskBit mask ≤ 128 := by unfold maskBit; split <;> omega
  rw [UInt8.toNat_ofNat']
  omega

theorem decodeLen_ext {form : LenForm} {n : Nat} (h : form.Fits n) (rest : Bytes) :
    decodeLen (form.field n) (form.ext n ++ rest) = some (form, n, rest) := by
  cases form with
  | short =>
    have h126 : n ≠ 126 := Nat.ne_of_lt h
    have h127 : n ≠ 127 := by have : n < 126 := h; omega
    change decodeLen n rest = _
    rw [decodeLen, if_neg h126, if_neg h127]
  | ext16 =>
    have hlen : 2 ≤ (Bytes.toBe 2 n ++ rest).length := by simp
    change decodeLen 126 (Bytes.toBe 2 n ++ rest) = _
    rw [decodeLen, if_pos rfl, if_pos hlen, List.take_left' (by simp), List.drop_left' (by simp), Bytes.ofBe_toBe h]
  | ext64 =>
    have hlen : 8 ≤ (Bytes.toBe 8 n ++ rest).length := by simp
    have hne : (127 : Nat) ≠ 126 := by decide
    have hn : n < 256 ^ 8 := Nat.lt_of_lt_of_eq h (by decide)
    change decodeLen 127 (Bytes.toBe 8 n ++ rest) = _
    rw [decodeLen, if_neg hne, if_pos rfl, if_pos hlen, List.take_left' (by simp), List.drop_left' (by simp), Bytes.ofBe_toBe hn]

theorem decodeMask_key (mask : Option Mask) (rest : Bytes) :
    decodeMask mask.isSome (maskKey mask ++ rest) = some (mask, rest) := by
  cases mask with
  | none => rfl
  | some m =>
    have hlen : 4 ≤ (m.key ++ rest).length := by simp [m.four]
    change decodeMask true (m.key ++ rest) = _
    rw [decodeMask, if_pos rfl, dif_pos hlen]
    simp only [List.take_left' m.four, List.drop_left' m.four]

/-- A frame is read back from its encoding, whatever follows. -/
theorem decode_encode (f : Frame) (rest : Bytes) : decode (encode f ++ rest) = some (f, rest) := by
  obtain ⟨b1, mask, form, payload, fits⟩ := f
  have hb2 : (UInt8.ofNat (maskBit mask + form.field payload.length)).toNat = maskBit mask + form.field payload.length :=
    second_byte (LenForm.field_lt fits)
  have hbit : decide (128 ≤ (UInt8.ofNat (maskBit mask + form.field payload.length)).toNat) = mask.isSome := by
    have := LenForm.field_lt fits
    rw [hb2]
    cases mask <;> simp [maskBit]
    omega
  have hl7 : (UInt8.ofNat (maskBit mask + form.field payload.length)).toNat % 128 = form.field payload.length := by
    have := LenForm.field_lt fits
    rw [hb2]
    cases mask <;> simp [maskBit] <;> omega
  simp only [encode, List.cons_append, List.nil_append, List.append_assoc, decode]
  rw [hl7, decodeLen_ext fits]
  dsimp only
  rw [hbit, decodeMask_key]
  dsimp only
  have htake : (applyMask mask payload ++ rest).take payload.length = applyMask mask payload :=
    List.take_left' (by simp)
  have hdrop : (applyMask mask payload ++ rest).drop payload.length = rest := List.drop_left' (by simp)
  have hfit : payload.length ≤ (applyMask mask payload ++ rest).length ∧
      form.Fits (applyMask mask ((applyMask mask payload ++ rest).take payload.length)).length := by
    refine ⟨by simp, ?_⟩
    rw [htake, applyMask_applyMask]
    exact fits
  rw [dif_pos hfit]
  simp only [htake, hdrop, applyMask_applyMask]

theorem encode_length_pos (f : Frame) : 2 ≤ (encode f).length := by
  simp [encode]

@[simp] theorem encodeAll_nil : encodeAll [] = [] := rfl

@[simp] theorem encodeAll_cons (f : Frame) (fs : List Frame) : encodeAll (f :: fs) = encode f ++ encodeAll fs := rfl

@[simp] theorem encodeAll_append (fs fs' : List Frame) : encodeAll (fs ++ fs') = encodeAll fs ++ encodeAll fs' := by
  simp [encodeAll]

/-- A stream of encoded frames has these frames as its reading. -/
theorem decodeAll_encodeAll (fs : List Frame) : decodeAll (encodeAll fs) = some fs := by
  induction fs with
  | nil => rw [decodeAll]; rfl
  | cons f fs ih =>
    have hpos := encode_length_pos f
    have hne : encodeAll (f :: fs) ≠ [] := by
      intro h
      have := congrArg List.length h
      rw [encodeAll_cons, List.length_append, List.length_nil] at this
      omega
    rw [decodeAll, if_neg hne, encodeAll_cons, decode_encode]
    dsimp only
    rw [if_pos (by simp; omega), ih]
    rfl

end LinkLib.WsFrame
