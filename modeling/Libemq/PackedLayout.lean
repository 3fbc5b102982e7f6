import Libemq.CStrings
import Mathlib.Tactic.Ring

namespace Libemq.PackedLayout

open Libemq.CStrings

/-- The `width` low bytes of `n`, least significant first. -/
def bytesLE : (width : Nat) → Nat → List UInt8
  | 0, _ => []
  | width + 1, n => UInt8.ofNat n :: bytesLE width (n / 256)

def valueLE : List UInt8 → Nat
  | [] => 0
  | byte :: rest => byte.toNat + 256 * valueLE rest

@[simp] theorem bytesLE_length (width n : Nat) :
    (bytesLE width n).length = width := by
  induction width generalizing n with
  | zero => rfl
  | succ width ih => simp [bytesLE, ih]

theorem valueLE_bytesLE_mod (width n : Nat) :
    valueLE (bytesLE width n) = n % 256 ^ width := by
  induction width generalizing n with
  | zero => simp [bytesLE, valueLE, Nat.mod_one]
  | succ width ih =>
      have hbyte : (UInt8.ofNat n).toNat = n % 256 := by simp
      simp only [bytesLE, valueLE, ih, hbyte]
      rw [Nat.pow_succ', Nat.mod_mul]

theorem valueLE_bytesLE {width n : Nat} (hn : n < 256 ^ width) :
    valueLE (bytesLE width n) = n := by
  rw [valueLE_bytesLE_mod, Nat.mod_eq_of_lt hn]

inductive Member where
  | chars (width : Nat)
  | uint (width : Nat)
  deriving DecidableEq, Repr

inductive Value where
  | str (s : CString)
  | int (n : Nat)
  deriving DecidableEq, Repr

def Member.size : Member → Nat
  | .chars width => width
  | .uint width => width

/-- The value has the member's kind and fits it, terminator included. -/
def Fits : Member → Value → Prop
  | .chars width, .str s => strlen s < width
  | .uint width, .int n => n < 256 ^ width
  | _, _ => False

theorem fits_chars (width : Nat) (s : CString) :
    Fits (.chars width) (.str s) ↔ strlen s < width := Iff.rfl

instance (member : Member) (value : Value) : Decidable (Fits member value) := by
  cases member <;> cases value <;> simp only [Fits] <;> infer_instance

def encodeMember : Member → Value → List UInt8
  | .chars width, .str s => charArray width s
  | .uint width, .int n => bytesLE width n
  | _, _ => []

def encode (layout : List Member) (values : List Value) : List UInt8 :=
  (List.zipWith encodeMember layout values).flatten

def structSize (layout : List Member) : Nat := (layout.map Member.size).sum

/-- Read one member. Bytes after a terminator have to be zero. -/
def decodeMember (member : Member) (bytes : List UInt8) : Option Value :=
  match member with
  | .chars width =>
      let array := bytes.take width
      if array = charArray width (contents array) ∧ strlen (contents array) < width then
        some (.str (contents array))
      else none
  | .uint width =>
      if width ≤ bytes.length then some (.int (valueLE (bytes.take width))) else none

def decode : List Member → List UInt8 → Option (List Value × List UInt8)
  | [], bytes => some ([], bytes)
  | member :: layout, bytes =>
      match decodeMember member bytes with
      | none => none
      | some value =>
          match decode layout (bytes.drop member.size) with
          | none => none
          | some (values, rest) => some (value :: values, rest)

theorem encodeMember_length {member : Member} {value : Value} (h : Fits member value) :
    (encodeMember member value).length = member.size := by
  cases member <;> cases value <;> simp only [Fits] at h
  · exact charArray_length h.le
  · exact bytesLE_length _ _

theorem decodeMember_encodeMember {member : Member} {value : Value}
    (h : Fits member value) (rest : List UInt8) :
    decodeMember member (encodeMember member value ++ rest) = some value := by
  have hlength := encodeMember_length h
  have htake : (encodeMember member value ++ rest).take member.size =
      encodeMember member value := by
    rw [← hlength, List.take_left]
  cases member with
  | chars width =>
      cases value with
      | str s =>
          simp only [Member.size] at htake
          simp only [decodeMember, htake]
          simp only [encodeMember, contents_charArray h]
          exact if_pos ⟨trivial, h⟩
      | int n => simp [Fits] at h
  | uint width =>
      cases value with
      | str s => simp [Fits] at h
      | int n =>
          simp only [Member.size] at htake
          simp only [decodeMember, htake]
          simp only [encodeMember, List.length_append, bytesLE_length]
          rw [if_pos (by omega), valueLE_bytesLE h]

/-- A structure whose values fit decodes to exactly those values, and nothing
after it is touched. -/
theorem decode_encode {layout : List Member} {values : List Value}
    (h : List.Forall₂ Fits layout values) (rest : List UInt8) :
    decode layout (encode layout values ++ rest) = some (values, rest) := by
  induction h with
  | nil => simp [decode, encode]
  | @cons member value layout values hfits _ ih =>
      have hsplit : encode (member :: layout) (value :: values) ++ rest =
          encodeMember member value ++ (encode layout values ++ rest) := by
        simp [encode]
      have hdrop : (encodeMember member value ++ (encode layout values ++ rest)).drop
          member.size = encode layout values ++ rest := by
        rw [← encodeMember_length hfits, List.drop_left]
      rw [hsplit, decode, decodeMember_encodeMember hfits]
      simp only [hdrop, ih]

theorem encode_length {layout : List Member} {values : List Value}
    (h : List.Forall₂ Fits layout values) :
    (encode layout values).length = structSize layout := by
  induction h with
  | nil => rfl
  | @cons member value layout values hfits _ ih =>
      have hmember := encodeMember_length hfits
      simp only [encode, structSize] at ih ⊢
      simp [hmember, ih]

end Libemq.PackedLayout
