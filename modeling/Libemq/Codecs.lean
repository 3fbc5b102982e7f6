import Libemq.Framing
import Mathlib.Data.List.Basic

namespace Libemq.Codecs

open Libemq.Framing

/-- A reader takes a value from the front of its input, or finds that it has to wait for
more of it. -/
structure Codec (α β : Type) where
  encode : α → List β
  decode : List β → Option (α × List β)
  encode_ne_nil : ∀ a, encode a ≠ []
  decode_encode : ∀ a rest, decode (encode a ++ rest) = some (a, rest)
  decode_cut : ∀ a front back, encode a = front ++ back → back ≠ [] → decode front = none

namespace Codec

variable {α β : Type} (c : Codec α β)

def readAll : (most : Nat) → List β → List α × List β
  | 0, input => ([], input)
  | most + 1, input =>
      match c.decode input with
      | none => ([], input)
      | some (a, rest) => (a :: (readAll most rest).1, (readAll most rest).2)

def read (input : List β) : List α × List β := c.readAll input.length input

theorem decode_nil : c.decode [] = none := by
  cases h : c.decode [] with
  | none => rfl
  | some value =>
      rw [← h]
      exact c.decode_cut value.1 [] _ rfl (c.encode_ne_nil value.1)

theorem one_le_encode_length (a : α) : 1 ≤ (c.encode a).length :=
  List.length_pos_iff.mpr (c.encode_ne_nil a)

theorem readAll_stream {piece : List β} (hcut : c.decode piece = none) (values : List α) :
    ∀ most, values.length ≤ most →
      c.readAll most (stream c.encode values ++ piece) = (values, piece) := by
  induction values with
  | nil =>
      intro most _
      cases most with
      | zero => rfl
      | succ most => simp only [stream_nil, List.nil_append, readAll, hcut]
  | cons a values ih =>
      intro most hmost
      obtain ⟨most, rfl⟩ : ∃ n, most = n + 1 := ⟨most - 1, by simp at hmost; omega⟩
      simp only [stream_cons, List.append_assoc, readAll, c.decode_encode,
        ih most (Nat.le_of_succ_le_succ hmost)]

theorem read_stream {piece : List β} (hcut : c.decode piece = none) (values : List α) :
    c.read (stream c.encode values ++ piece) = (values, piece) := by
  refine c.readAll_stream hcut values _ ?_
  rw [List.length_append]
  exact Nat.le_add_right_of_le (length_le_stream c.encode c.one_le_encode_length values)

theorem read_whole_stream (values : List α) : c.read (stream c.encode values) = (values, []) := by
  have h := c.read_stream c.decode_nil values
  rwa [List.append_nil] at h

/-- The front of a stream is some of its values and a piece of the next. -/
theorem exists_split (values : List α) :
    ∀ {front back : List β}, front ++ back = stream c.encode values →
      ∃ done left piece, values = done ++ left ∧ front = stream c.encode done ++ piece ∧
        c.decode piece = none := by
  induction values with
  | nil =>
      intro front back h
      obtain ⟨rfl, _⟩ := List.append_eq_nil_iff.mp h
      exact ⟨[], [], [], rfl, rfl, c.decode_nil⟩
  | cons a values ih =>
      intro front back h
      rw [stream_cons] at h
      rcases List.append_eq_append_iff.mp h with ⟨mid, hencode, rfl⟩ | ⟨more, rfl, hrest⟩
      · cases mid with
        | nil =>
            rw [List.append_nil] at hencode
            refine ⟨[a], values, [], rfl, ?_, c.decode_nil⟩
            rw [List.append_nil, ← hencode]
            exact (List.append_nil _).symm
        | cons b mid =>
            exact ⟨[], a :: values, front, rfl, rfl,
              c.decode_cut a front (b :: mid) hencode (List.cons_ne_nil _ _)⟩
      · obtain ⟨done, left, piece, rfl, rfl, hcut⟩ := ih hrest.symm
        exact ⟨a :: done, left, piece, rfl, by rw [stream_cons, List.append_assoc], hcut⟩

theorem decode_front {values : List α} {front back rest : List β} {a : α}
    (h : front ++ back = stream c.encode values) (hdecode : c.decode front = some (a, rest)) :
    ∃ values', values = a :: values' ∧ rest ++ back = stream c.encode values' := by
  obtain ⟨done, left, piece, rfl, rfl, hcut⟩ := c.exists_split values h
  cases done with
  | nil =>
      rw [stream_nil, List.nil_append, hcut] at hdecode
      cases hdecode
  | cons b done =>
      rw [stream_cons, List.append_assoc, c.decode_encode] at hdecode
      cases hdecode
      refine ⟨done ++ left, rfl, ?_⟩
      rw [List.cons_append, stream_cons, stream_cons, List.append_assoc, List.append_assoc,
        List.append_cancel_left_eq] at h
      rw [List.append_assoc]
      exact h

end Codec

end Libemq.Codecs
