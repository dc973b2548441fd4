import CalcBridge.LinkLib.Bytes
/-!
# Length-prefixed frames

A frame is a 4-byte big-endian length and that many bytes. Every byte string
is, in exactly one way, some frames followed by an incomplete remainder.
-/

namespace LinkLib.Framing

/-- One frame on the wire. -/
def frame (body : Bytes) : Bytes := Bytes.toBe 4 body.length ++ body

/-- The bodies whose length the prefix can carry. -/
def Fits (body : Bytes) : Prop := body.length < 2 ^ 32

/-- No complete frame at the front. -/
def Incomplete (bs : Bytes) : Prop := bs.length < 4 ∨ bs.length < 4 + Bytes.ofBe (bs.take 4)

instance (bs : Bytes) : Decidable (Incomplete bs) := inferInstanceAs (Decidable (_ ∨ _))

theorem length_frame (body : Bytes) : (frame body).length = 4 + body.length := by simp [frame]

/-- The prefix of a frame tells its length. -/
theorem ofBe_take_frame {body : Bytes} (h : Fits body) (rest : Bytes) :
    Bytes.ofBe ((frame body ++ rest).take 4) = body.length := by
  rw [frame, List.append_assoc, List.take_left' (by simp), Bytes.ofBe_toBe_4 h]

theorem not_incomplete_frame {body : Bytes} (h : Fits body) (rest : Bytes) : ¬ Incomplete (frame body ++ rest) := by
  rintro (hl | hl)
  · rw [List.length_append, length_frame] at hl
    omega
  · rw [ofBe_take_frame h, List.length_append, length_frame] at hl
    omega

/-- What is not incomplete starts with a frame. -/
theorem exists_frame {bs : Bytes} (h : ¬ Incomplete bs) :
    ∃ body, Fits body ∧ bs = frame body ++ bs.drop (4 + Bytes.ofBe (bs.take 4)) ∧
      frame body = bs.take (4 + Bytes.ofBe (bs.take 4)) := by
  unfold Incomplete at h
  have h4 : 4 ≤ bs.length := by omega
  have hn : Bytes.ofBe (bs.take 4) < 256 ^ 4 := by
    have := Bytes.ofBe_lt (bs.take 4)
    rwa [List.length_take, Nat.min_eq_left h4] at this
  set n := Bytes.ofBe (bs.take 4) with hndef
  have hlen : ((bs.drop 4).take n).length = n := by
    rw [List.length_take, List.length_drop]
    omega
  have hhead : Bytes.toBe 4 n = bs.take 4 := by
    rw [hndef, Bytes.toBe_ofBe (by rw [List.length_take]; omega)]
  have hframe : frame ((bs.drop 4).take n) = bs.take (4 + n) := by
    rw [frame, hlen, hhead, List.take_add]
  refine ⟨(bs.drop 4).take n, ?_, ?_, hframe⟩
  · rw [Fits, hlen]
    exact Nat.lt_of_lt_of_eq hn (by decide)
  · rw [hframe, List.take_append_drop]

/-- The frames of a byte string and its remainder are determined by it. -/
theorem frames_unique {bodies bodies' : List Bytes} (hb : ∀ b ∈ bodies, Fits b) (hb' : ∀ b ∈ bodies', Fits b)
    {rest rest' : Bytes} (hr : Incomplete rest) (hr' : Incomplete rest')
    (h : bodies.flatMap frame ++ rest = bodies'.flatMap frame ++ rest') : bodies = bodies' ∧ rest = rest' := by
  induction bodies generalizing bodies' with
  | nil =>
    cases bodies' with
    | nil => exact ⟨rfl, by simpa using h⟩
    | cons b' bs' =>
      simp only [List.flatMap_nil, List.nil_append, List.flatMap_cons, List.append_assoc] at h
      exact absurd (h ▸ hr) (not_incomplete_frame (hb' b' (by simp)) _)
  | cons b bs ih =>
    cases bodies' with
    | nil =>
      simp only [List.flatMap_nil, List.nil_append, List.flatMap_cons, List.append_assoc] at h
      exact absurd (h ▸ hr') (not_incomplete_frame (hb b (by simp)) _)
    | cons b' bs' =>
      simp only [List.flatMap_cons, List.append_assoc] at h
      have hlen : b.length = b'.length := by
        rw [← ofBe_take_frame (hb b (by simp)) (bs.flatMap frame ++ rest), h, ofBe_take_frame (hb' b' (by simp))]
      obtain ⟨hbb, hrest⟩ := List.append_inj h (by rw [length_frame, length_frame, hlen])
      obtain ⟨-, rfl⟩ := List.append_inj hbb (by simp)
      obtain ⟨rfl, rfl⟩ := ih (fun x hx => hb x (by simp [hx])) (fun x hx => hb' x (by simp [hx])) hrest
      exact ⟨rfl, rfl⟩

end LinkLib.Framing
