import Mathlib.Data.List.Basic

namespace Libemq.CStrings

/-- A terminated string, given by the bytes before its `NUL`. -/
structure CString where
  chars : List UInt8
  noNul : (0 : UInt8) ∉ chars
  deriving DecidableEq, Repr

def strlen (s : CString) : Nat := s.chars.length

@[ext] theorem CString.ext_chars {s t : CString} (h : s.chars = t.chars) : s = t := by
  cases s
  cases t
  simpa using h

/-- A zero-filled `char[width]` after the string and its terminator were copied
into it. -/
def charArray (width : Nat) (s : CString) : List UInt8 :=
  s.chars ++ List.replicate (width - strlen s) 0

/-- The bytes of an array before its first `NUL`. -/
def untilNul : List UInt8 → List UInt8
  | [] => []
  | byte :: rest => if byte = 0 then [] else byte :: untilNul rest

theorem nul_notMem_untilNul (array : List UInt8) : (0 : UInt8) ∉ untilNul array := by
  induction array with
  | nil => simp [untilNul]
  | cons byte rest ih =>
      by_cases h : byte = 0
      · simp [untilNul, h]
      · simp [untilNul, h, ih, Ne.symm h]

/-- The string that a `char` array holds. -/
def contents (array : List UInt8) : CString := ⟨untilNul array, nul_notMem_untilNul array⟩

/-- `strcmp(a, b) == 0`, read byte by byte up to the first terminator. -/
def strcmpEq : List UInt8 → List UInt8 → Bool
  | a :: as, b :: bs => if a = b then (if a = 0 then true else strcmpEq as bs) else false
  | _, _ => false

theorem charArray_length {width : Nat} {s : CString} (h : strlen s ≤ width) :
    (charArray width s).length = width := by
  simp only [charArray, strlen, List.length_append, List.length_replicate] at *
  omega

theorem charArray_eq {width : Nat} {s : CString} (h : strlen s < width) :
    charArray width s = s.chars ++ 0 :: List.replicate (width - strlen s - 1) 0 := by
  have hwidth : width - strlen s = width - strlen s - 1 + 1 := by omega
  rw [charArray, hwidth, List.replicate_succ]
  rfl

theorem untilNul_append {s : List UInt8} (hs : (0 : UInt8) ∉ s) (rest : List UInt8) :
    untilNul (s ++ 0 :: rest) = s := by
  induction s with
  | nil => simp [untilNul]
  | cons a s ih =>
      simp only [List.mem_cons, not_or] at hs
      simp [untilNul, Ne.symm hs.1, ih hs.2]

theorem strlen_contents_lt {array : List UInt8} (h : (0 : UInt8) ∈ array) :
    strlen (contents array) < array.length := by
  change (untilNul array).length < array.length
  induction array with
  | nil => cases h
  | cons byte rest ih =>
      by_cases hbyte : byte = 0
      · simp [untilNul, hbyte]
      · have hrest := ih ((List.mem_cons.mp h).resolve_left (Ne.symm hbyte))
        simpa [untilNul, hbyte] using hrest

theorem contents_charArray {width : Nat} {s : CString} (h : strlen s < width) :
    contents (charArray width s) = s := by
  apply CString.ext_chars
  rw [charArray_eq h]
  exact untilNul_append s.noNul _

/-- Comparing with a stored string looks only for that string followed by a
terminator, whatever else the other array holds. -/
theorem strcmpEq_iff_prefix {s : List UInt8} (hs : (0 : UInt8) ∉ s)
    (rest other : List UInt8) :
    strcmpEq (s ++ 0 :: rest) other = true ↔ s ++ [0] <+: other := by
  induction s generalizing other with
  | nil =>
      cases other with
      | nil => simp [strcmpEq]
      | cons b bs => simp [strcmpEq]
  | cons a s ih =>
      simp only [List.mem_cons, not_or] at hs
      cases other with
      | nil => simp [strcmpEq]
      | cons b bs =>
          by_cases hab : a = b
          · subst b
            simp [strcmpEq, Ne.symm hs.1, ih hs.2]
          · simp [strcmpEq, hab]

theorem prefix_iff_untilNul {s other : List UInt8} (hs : (0 : UInt8) ∉ s)
    (hother : (0 : UInt8) ∈ other) :
    s ++ [0] <+: other ↔ untilNul other = s := by
  induction s generalizing other with
  | nil =>
      cases other with
      | nil => simp at hother
      | cons b bs =>
          by_cases hb : b = 0
          · simp [untilNul, hb]
          · simp [untilNul, hb, Ne.symm hb]
  | cons a s ih =>
      simp only [List.mem_cons, not_or] at hs
      cases other with
      | nil => simp at hother
      | cons b bs =>
          by_cases hb : b = 0
          · simp [untilNul, hb, Ne.symm hs.1]
          · have hbs : (0 : UInt8) ∈ bs :=
              (List.mem_cons.mp hother).resolve_left (Ne.symm hb)
            simp only [List.cons_append, List.cons_prefix_cons, ih hs.2 hbs]
            simp [untilNul, hb, eq_comm]

theorem strcmpEq_charArray {width : Nat} {s : CString} (h : strlen s < width)
    {other : List UInt8} (hother : (0 : UInt8) ∈ other) :
    strcmpEq (charArray width s) other = true ↔ contents other = s := by
  rw [charArray_eq h, strcmpEq_iff_prefix s.noNul, prefix_iff_untilNul s.noNul hother,
    CString.ext_chars_iff]
  rfl

/-- `strcmp`, as it reads the arrays. Nothing stands for a read beyond one of them. -/
def strcmp : List UInt8 → List UInt8 → Option Int
  | a :: as, b :: bs => if a ≠ 0 ∧ a = b then strcmp as bs else some (a.toNat - b.toNat)
  | _, _ => none

/-- A string is found at the beginning of an array without a look beyond the place where
its terminator would be. -/
theorem strcmp_stored {s : List UInt8} (hs : (0 : UInt8) ∉ s) (rest : List UInt8)
    {other : List UInt8} (h : s.length < other.length) :
    ∃ r, strcmp (s ++ 0 :: rest) other = some r ∧ (r = 0 ↔ s ++ [0] <+: other) := by
  induction s generalizing other with
  | nil =>
      cases other with
      | nil => cases h
      | cons b bs =>
          refine ⟨_, if_neg (by simp), ?_⟩
          simp only [List.nil_append, List.cons_prefix_cons, List.nil_prefix, and_true,
            ← UInt8.toNat_inj]
          simp only [UInt8.toNat_zero]
          omega
  | cons a s ih =>
      simp only [List.mem_cons, not_or] at hs
      cases other with
      | nil => cases h
      | cons b bs =>
          by_cases hab : a = b
          · subst b
            obtain ⟨r, hstrcmp, hr⟩ := ih hs.2 (Nat.lt_of_succ_lt_succ h)
            refine ⟨r, ?_, by simpa using hr⟩
            rw [List.cons_append, strcmp, if_pos ⟨Ne.symm hs.1, rfl⟩, hstrcmp]
          · refine ⟨_, if_neg (by simp [hab]), ?_⟩
            have hne : a.toNat ≠ b.toNat := fun heq => hab (UInt8.toNat_inj.mp heq)
            simp only [List.cons_append, List.cons_prefix_cons, hab, false_and, iff_false]
            omega

def memcpy (dest src : List UInt8) : Option (List UInt8) :=
  if src.length ≤ dest.length then some (src ++ dest.drop src.length) else none

/-- A `char[width]` member that holds a terminated string. -/
structure FieldString (width : Nat) where
  str : CString
  fits : strlen str < width
  deriving DecidableEq, Repr

def FieldString.array {width : Nat} (field : FieldString width) : List UInt8 :=
  charArray width field.str

theorem FieldString.strcmpEq_array {width : Nat} (field : FieldString width)
    {other : List UInt8} (hother : (0 : UInt8) ∈ other) :
    strcmpEq field.array other = true ↔ contents other = field.str :=
  strcmpEq_charArray field.fits hother

def CString.array (s : CString) : List UInt8 := s.chars ++ [0]

theorem CString.nul_mem_array (s : CString) : (0 : UInt8) ∈ s.array := by
  simp [CString.array]

theorem memcpy_array (width : Nat) (s : CString) :
    memcpy (List.replicate width 0) s.array =
      if strlen s < width then some (charArray width s) else none := by
  have hlength : s.array.length ≤ (List.replicate width (0 : UInt8)).length ↔
      strlen s < width := by
    simp only [CString.array, strlen, List.length_append, List.length_replicate]
    exact Nat.add_one_le_iff
  simp only [memcpy, hlength]
  refine if_ctx_congr Iff.rfl (fun hfits => ?_) fun _ => rfl
  rw [charArray_eq hfits, CString.array, List.drop_replicate, List.append_assoc,
    List.length_append]
  rfl

theorem FieldString.array_eq {width : Nat} (field : FieldString width) :
    field.array = field.str.array ++ List.replicate (width - strlen field.str - 1) 0 := by
  rw [FieldString.array, charArray_eq field.fits, CString.array, List.append_assoc]
  rfl

@[simp] theorem FieldString.array_length {width : Nat} (field : FieldString width) :
    field.array.length = width :=
  charArray_length (Nat.le_of_lt field.fits)

@[simp] theorem CString.contents_array (s : CString) : contents s.array = s := by
  apply CString.ext_chars
  exact untilNul_append s.noNul []

end Libemq.CStrings
