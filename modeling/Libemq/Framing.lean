namespace Libemq.Framing

variable {F α : Type} (bytes : F → List α)

def stream (frames : List F) : List α := frames.flatMap bytes

/-- A number of frames ends at this position. -/
def Boundary (frames : List F) (n : Nat) : Prop :=
  ∃ j, n = (stream bytes (frames.take j)).length

theorem stream_nil : stream bytes [] = [] := rfl

theorem stream_cons (frame : F) (frames : List F) :
    stream bytes (frame :: frames) = bytes frame ++ stream bytes frames := rfl

theorem stream_take_append_drop (frames : List F) (j : Nat) :
    stream bytes (frames.take j) ++ stream bytes (frames.drop j) = stream bytes frames := by
  unfold stream
  rw [← List.flatMap_append, List.take_append_drop]

theorem drop_stream_take (frames : List F) (j : Nat) :
    (stream bytes frames).drop (stream bytes (frames.take j)).length =
      stream bytes (frames.drop j) := by
  rw [← stream_take_append_drop bytes frames j, List.drop_left]

theorem boundary_iff_rest {frames : List F} {n : Nat} (h : n ≤ (stream bytes frames).length) :
    Boundary bytes frames n ↔ ∃ j, (stream bytes frames).drop n = stream bytes (frames.drop j) := by
  constructor
  · rintro ⟨j, rfl⟩
    exact ⟨j, drop_stream_take bytes frames j⟩
  · rintro ⟨j, hrest⟩
    refine ⟨j, ?_⟩
    have hlength := congrArg List.length hrest
    have hsplit := congrArg List.length (stream_take_append_drop bytes frames j)
    rw [List.length_drop] at hlength
    rw [List.length_append] at hsplit
    omega

theorem boundary_zero (frames : List F) : Boundary bytes frames 0 := ⟨0, rfl⟩

theorem boundary_first (frame : F) (frames : List F) :
    Boundary bytes (frame :: frames) (bytes frame).length :=
  ⟨1, by simp [stream]⟩

theorem boundary_within_first {frame : F} {frames : List F} {n : Nat} (hpos : 0 < n)
    (hle : n ≤ (bytes frame).length) :
    Boundary bytes (frame :: frames) n ↔ n = (bytes frame).length := by
  constructor
  · rintro ⟨j, hj⟩
    cases j with
    | zero =>
        simp only [List.take_zero, stream_nil, List.length_nil] at hj
        omega
    | succ j =>
        simp only [List.take_succ_cons, stream_cons, List.length_append] at hj
        omega
  · rintro rfl
    exact boundary_first bytes frame frames

theorem length_le_stream (hbytes : ∀ frame, 1 ≤ (bytes frame).length) (frames : List F) :
    frames.length ≤ (stream bytes frames).length := by
  induction frames with
  | nil => exact Nat.zero_le _
  | cons frame frames ih =>
      have := hbytes frame
      rw [stream_cons, List.length_append, List.length_cons]
      omega

theorem length_stream_drop_le (frames : List F) {i j : Nat} (h : i ≤ j) :
    (stream bytes (frames.drop j)).length ≤ (stream bytes (frames.drop i)).length := by
  obtain ⟨d, rfl⟩ := Nat.exists_eq_add_of_le h
  have hsplit := congrArg List.length (stream_take_append_drop bytes (frames.drop i) d)
  rw [List.length_append, List.drop_drop] at hsplit
  omega

theorem boundary_drop_iff {frames : List F} {j n : Nat} (hpos : 0 < n)
    (h : n ≤ (stream bytes (frames.drop j)).length) :
    Boundary bytes (frames.drop j) n ↔
      ∃ m, (stream bytes (frames.drop j)).drop n = stream bytes (frames.drop m) := by
  rw [boundary_iff_rest bytes h]
  constructor
  · rintro ⟨i, hi⟩
    exact ⟨j + i, by rw [hi, List.drop_drop]⟩
  · rintro ⟨m, hm⟩
    have hlength := congrArg List.length hm
    rw [List.length_drop] at hlength
    have hle : j ≤ m := by
      refine Nat.le_of_not_lt fun hlt => ?_
      have := length_stream_drop_le bytes frames (Nat.le_of_lt hlt)
      omega
    refine ⟨m - j, ?_⟩
    rw [hm, List.drop_drop, Nat.add_sub_cancel' hle]

end Libemq.Framing
