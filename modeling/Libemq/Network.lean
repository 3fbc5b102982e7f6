import Libemq.Client
import Mathlib.Tactic.Linarith

namespace Libemq.Network

open Libemq.ExitCode
open Libemq.Client

def intMax : Nat := 2147483647

def intMin : Int := -2147483648

/-- The conversion of an unsigned value to a 32-bit `int`. -/
def toInt (n : Nat) : Int := Int.bmod n 4294967296

/-- The conversion of an `int` to `size_t`. -/
def toSizeT (n : Int) : Nat := (n % 18446744073709551616).toNat

/-- `read(fd, buf, n)`. The kernel delivers at least one byte unless the stream
has ended, and never more than asked for. -/
def sysRead (k : Kernel) (n : Nat) : Emq (Option (List UInt8)) := fun w =>
  match k.read w.reads n with
  | none => .next none { w with reads := w.reads + 1, failures := w.failures + 1 }
  | some m =>
      let got := w.input.take (max 1 (min m n))
      .next (some got)
        { w with
          input := w.input.drop got.length
          reads := w.reads + 1
          failures := if got = [] then w.failures + 1 else w.failures }

def sysWrite (k : Kernel) (bytes : List UInt8) : Emq (Option Nat) := fun w =>
  match k.write w.writes bytes.length with
  | none => .next none { w with writes := w.writes + 1, failures := w.failures + 1 }
  | some m =>
      .next (some (min m bytes.length))
        { w with
          output := w.output ++ bytes.take (min m bytes.length)
          writes := w.writes + 1 }

def sysWritev (k : Kernel) (iov : List (List UInt8)) : Emq (Option Nat) := fun w =>
  match k.writev w.writes iov.flatten.length with
  | none => .next none { w with writes := w.writes + 1, failures := w.failures + 1 }
  | some m =>
      .next (some (min m iov.flatten.length))
        { w with
          output := w.output ++ iov.flatten.take (min m iov.flatten.length)
          writes := w.writes + 1 }

def emqClientReadLoop (k : Kernel) (count : Int) :
    (fuel : Nat) → (totlen : Int) → (buf : List UInt8) → Emq (Option (List UInt8))
  | 0, _, _ => Code.undefined .outOfFuel
  | fuel + 1, totlen, buf =>
      if totlen = count then pure (some buf)
      else if count - totlen < intMin then Code.undefined .signedOverflow
      else do
        match ← sysRead k (toSizeT (count - totlen)) with
        | none => pure none
        | some [] => pure none
        | some got =>
            if totlen + got.length ≤ intMax then
              emqClientReadLoop k count fuel (totlen + got.length) (buf ++ got)
            else Code.undefined .signedOverflow

/-- `emq_client_read`: the bytes stored through `buf`, or nothing when it
returns `-1`. -/
def emqClientRead (k : Kernel) (count : Int) : Emq (Option (List UInt8)) := fun w =>
  emqClientReadLoop k count (w.input.length + 1) 0 [] w

def emqClientWriteLoop (k : Kernel) (count : Int) :
    (fuel : Nat) → (totlen : Int) → (buf : List UInt8) → Emq Int
  | 0, _, _ => Code.undefined .outOfFuel
  | fuel + 1, totlen, buf =>
      if totlen = count then pure totlen
      else do
        match ← sysWrite k (buf.take (toSizeT (count - totlen))) with
        | some 0 => pure totlen
        | none => pure (-1)
        | some nwritten =>
            emqClientWriteLoop k count fuel (totlen + nwritten) (buf.drop nwritten)

def emqClientWrite (k : Kernel) (buf : List UInt8) (count : Int) : Emq Int :=
  emqClientWriteLoop k count (buf.length + 1) 0 buf

/-- `writev` after it was interrupted so many times. -/
def retryWritev (k : Kernel) (iov : List (List UInt8)) : Nat → Emq Int
  | 0 => do
      match ← sysWritev k iov with
      | none => pure (-1)
      | some ret => pure (toInt ret)
  | interrupts + 1 => do
      Code.modify fun w => { w with writes := w.writes + 1 }
      retryWritev k iov interrupts

def emqClientWritev (k : Kernel) (iov : List (List UInt8)) : Emq Int := do
  let interrupts ← Code.reads fun w => k.interrupts w.writes
  retryWritev k iov interrupts

def Kernel.ReadsOk (k : Kernel) : Prop := ∀ i n, ∃ m, k.read i n = some m

/-- No `write` fails or accepts nothing, and `writev` accepts everything. -/
structure Kernel.WritesOk (k : Kernel) : Prop where
  write : ∀ i n, ∃ m, k.write i n = some (m + 1)
  writev : ∀ i n, ∃ m, n ≤ m ∧ k.writev i n = some m

/-- Starting with this call, `read` delivers these counts one after the other, as long as
the stream has so much. -/
inductive Delivers (k : Kernel) : (call : Nat) → (counts : List Nat) → Prop
  | done (call : Nat) : Delivers k call []
  | whole {call : Nat} {counts : List Nat} (h : Delivers k call counts) :
      Delivers k call (0 :: counts)
  | chunk {call count m : Nat} {counts : List Nat} (hpos : 0 < count)
      (hread : k.read call count = some m)
      (h : Delivers k (call + 1) ((count - max 1 (min m count)) :: counts)) :
      Delivers k call (count :: counts)

def Kernel.MallocsOk (k : Kernel) : Prop := ∀ i n, k.malloc i n = true

structure Kernel.Reliable (k : Kernel) : Prop where
  reads : Kernel.ReadsOk k
  writes : Kernel.WritesOk k
  mallocs : Kernel.MallocsOk k

def generous : Kernel where
  read _ n := some n
  write _ n := some (n + 1)
  writev _ n := some n
  interrupts _ := 0
  malloc _ _ := true

theorem generous_reliable : Kernel.Reliable generous where
  reads := fun _ n => ⟨n, rfl⟩
  writes := ⟨fun _ n => ⟨n, rfl⟩, fun _ n => ⟨n, le_refl n, rfl⟩⟩
  mallocs := fun _ _ => rfl

def allocating (malloc : Nat → Nat → Bool) : Kernel := { generous with malloc := malloc }

theorem allocating_reads (malloc : Nat → Nat → Bool) : Kernel.ReadsOk (allocating malloc) :=
  generous_reliable.reads

theorem allocating_writes (malloc : Nat → Nat → Bool) : Kernel.WritesOk (allocating malloc) :=
  ⟨generous_reliable.writes.write, generous_reliable.writes.writev⟩

/-- The reads and the allocator of a kernel, with every write granted in full. -/
def transmitting (k : Kernel) : Kernel := { generous with read := k.read, malloc := k.malloc }

theorem transmitting_writes (k : Kernel) : Kernel.WritesOk (transmitting k) :=
  ⟨generous_reliable.writes.write, generous_reliable.writes.writev⟩

theorem delivers_zero_iff {k : Kernel} {call : Nat} {counts : List Nat} :
    Delivers k call (0 :: counts) ↔ Delivers k call counts := by
  constructor
  · intro h
    cases h with
    | whole h => exact h
    | chunk hpos => omega
  · exact .whole

theorem delivers_cons_iff {k : Kernel} {call count m : Nat} {counts : List Nat}
    (hpos : 0 < count) (hread : k.read call count = some m) :
    Delivers k call (count :: counts) ↔
      Delivers k (call + 1) ((count - max 1 (min m count)) :: counts) := by
  constructor
  · intro h
    cases h with
    | whole => omega
    | chunk _ hread' hrest =>
        rw [hread] at hread'
        cases hread'
        exact hrest
  · exact .chunk hpos hread

theorem not_delivers_of_none {k : Kernel} {call count : Nat} {counts : List Nat}
    (hpos : 0 < count) (hread : k.read call count = none) :
    ¬ Delivers k call (count :: counts) := by
  intro h
  cases h with
  | whole => omega
  | chunk _ hread' =>
      rw [hread] at hread'
      cases hread'

theorem Delivers.of_read {k k' : Kernel} (hread : k'.read = k.read) {call : Nat}
    {counts : List Nat} (h : Delivers k call counts) : Delivers k' call counts := by
  induction h with
  | done => exact .done _
  | whole _ ih => exact .whole ih
  | chunk hpos hcount _ ih => exact .chunk hpos (by rw [hread]; exact hcount) ih

theorem delivers_congr {k k' : Kernel} (hread : k'.read = k.read) {call : Nat}
    {counts : List Nat} : Delivers k' call counts ↔ Delivers k call counts :=
  ⟨Delivers.of_read hread.symm, Delivers.of_read hread⟩

theorem delivers_transmitting {k : Kernel} {call : Nat} {counts : List Nat} :
    Delivers (transmitting k) call counts ↔ Delivers k call counts :=
  @delivers_congr k (transmitting k) rfl call counts

theorem Kernel.ReadsOk.delivers {k : Kernel} (h : Kernel.ReadsOk k) (counts : List Nat) :
    ∀ call, Delivers k call counts := by
  induction counts with
  | nil => exact .done
  | cons count counts ih =>
      induction count using Nat.strong_induction_on with
      | _ count less =>
          intro call
          rcases Nat.eq_zero_or_pos count with rfl | hpos
          · exact .whole (ih call)
          · obtain ⟨m, hread⟩ := h call count
            exact .chunk hpos hread (less _ (by omega) (call + 1))

theorem toSizeT_natCast {n : Nat} (h : n ≤ intMax) : toSizeT n = n := by
  unfold toSizeT
  unfold intMax at h
  omega

theorem toInt_natCast {n : Nat} (h : n ≤ intMax) : toInt n = n := by
  unfold intMax at h
  unfold toInt
  rw [Int.bmod_def]
  omega

theorem intMin_le_toInt (n : Nat) : intMin ≤ toInt n := by
  unfold intMin toInt
  rw [Int.bmod_def]
  omega

theorem toInt_le_intMax (n : Nat) : toInt n ≤ intMax := by
  unfold intMax toInt
  rw [Int.bmod_def]
  omega

theorem toInt_of_overlong {n : Nat} (hlow : intMax < n) (hhigh : n < 4294967296) :
    toInt n = n - 4294967296 := by
  unfold intMax at hlow
  unfold toInt
  rw [Int.bmod_def]
  omega

theorem toInt_eq_neg_one {n : Nat} (h : toInt n = -1) : 4294967295 ≤ n := by
  by_contra hlt
  unfold toInt at h
  rw [Int.bmod_def] at h
  omega

theorem size_cases {n : Nat} (h : n < 4294967296) : n ≤ intMax ∨ toInt n < 0 := by
  unfold intMax toInt
  rw [Int.bmod_def]
  omega

theorem tagSize_cases {n : Nat} (h : n < 4294967296) :
    (n + 18446744073709551616 - 8) % 18446744073709551616 ≤ intMax ∨
      toInt ((n + 18446744073709551616 - 8) % 18446744073709551616 : Nat) < 0 := by
  unfold intMax toInt
  rw [Int.bmod_def]
  omega

def received (w : World) (dropped reads failures : Nat) : World :=
  { w with input := w.input.drop dropped, reads := reads, failures := failures }

def sent (w : World) (accepted : List UInt8) (writes failures : Nat) : World :=
  { w with output := w.output ++ accepted, writes := writes, failures := failures }

section Received

variable (w : World) (dropped reads failures : Nat)

@[simp] theorem received_client : (received w dropped reads failures).client = w.client := rfl

@[simp] theorem received_input :
    (received w dropped reads failures).input = w.input.drop dropped := rfl

@[simp] theorem received_output : (received w dropped reads failures).output = w.output := rfl

@[simp] theorem received_reads : (received w dropped reads failures).reads = reads := rfl

@[simp] theorem received_mallocs : (received w dropped reads failures).mallocs = w.mallocs := rfl

@[simp] theorem received_failures :
    (received w dropped reads failures).failures = failures := rfl

@[simp] theorem received_trace : (received w dropped reads failures).trace = w.trace := rfl

end Received

section SystemCalls

variable {k : Kernel} {w : World}

theorem sysRead_failed {n : Nat} (hread : k.read w.reads n = none) :
    sysRead k n w = .next none (received w 0 (w.reads + 1) (w.failures + 1)) := by
  simp [sysRead, hread, received]

theorem sysRead_ended {n m : Nat} (hread : k.read w.reads n = some m) (hinput : w.input = []) :
    sysRead k n w = .next (some []) (received w 0 (w.reads + 1) (w.failures + 1)) := by
  simp [sysRead, hread, hinput, received]

theorem sysRead_chunk {n m chunk : Nat} (hread : k.read w.reads n = some m)
    (hchunk : max 1 (min m n) = chunk) (hinput : w.input ≠ []) :
    sysRead k n w =
      .next (some (w.input.take chunk))
        (received w (min chunk w.input.length) (w.reads + 1) w.failures) := by
  have hsome : w.input.take chunk ≠ [] := by
    rw [Ne, List.take_eq_nil_iff]
    have : 1 ≤ chunk := hchunk ▸ le_max_left _ _
    rintro (hzero | hnil)
    · omega
    · exact hinput hnil
  simp [sysRead, hread, hchunk, hsome, received]

theorem sysWrite_failed {bytes : List UInt8} (hwrite : k.write w.writes bytes.length = none) :
    sysWrite k bytes w = .next none (sent w (bytes.take 0) (w.writes + 1) (w.failures + 1)) := by
  simp [sysWrite, hwrite, sent]

theorem sysWrite_accepted {bytes : List UInt8} {m n : Nat}
    (hwrite : k.write w.writes bytes.length = some m) (hn : min m bytes.length = n) :
    sysWrite k bytes w = .next (some n) (sent w (bytes.take n) (w.writes + 1) w.failures) := by
  simp [sysWrite, hwrite, hn, sent]

end SystemCalls

inductive SysReadOutcome (k : Kernel) (n : Nat) (w : World) :
    Exit World Fault (Option (List UInt8)) → Prop
  | failed (hfail : k.read w.reads n = none) :
      SysReadOutcome k n w (.next none (received w 0 (w.reads + 1) (w.failures + 1)))
  | ended (hinput : w.input = []) :
      SysReadOutcome k n w (.next (some []) (received w 0 (w.reads + 1) (w.failures + 1)))
  | delivered (byte : UInt8) (tail : List UInt8) (hle : (byte :: tail).length ≤ max 1 n)
      (hgot : w.input.take (byte :: tail).length = byte :: tail)
      (hchunk : 0 < n → n ≤ w.input.length → ∀ counts, Delivers k w.reads (n :: counts) ↔
        Delivers k (w.reads + 1) ((n - (byte :: tail).length) :: counts)) :
      SysReadOutcome k n w
        (.next (some (byte :: tail)) (received w (byte :: tail).length (w.reads + 1) w.failures))

theorem sysRead_outcome (k : Kernel) (n : Nat) (w : World) :
    SysReadOutcome k n w (sysRead k n w) := by
  cases hread : k.read w.reads n with
  | none =>
      rw [sysRead_failed hread]
      exact .failed hread
  | some m =>
      generalize hchunk : max 1 (min m n) = chunk
      cases hgot : w.input.take chunk with
      | nil =>
          have hinput : w.input = [] := (List.take_eq_nil_iff.mp hgot).resolve_left (by omega)
          rw [sysRead_ended hread hinput]
          exact .ended hinput
      | cons byte tail =>
          have hinput : w.input ≠ [] := by
            rintro hnil
            simp [hnil] at hgot
          have hlength : (byte :: tail).length = min chunk w.input.length := by
            rw [← hgot, List.length_take]
          rw [sysRead_chunk hread hchunk hinput, hgot, ← hlength]
          refine .delivered byte tail (by omega) ?_ fun hpos hlong counts => ?_
          · rw [hlength, ← List.take_eq_take_min, hgot]
          · have hle : chunk ≤ w.input.length := by omega
            rw [delivers_cons_iff hpos hread, hchunk, hlength, Nat.min_eq_left hle]

/-- What `emq_client_read` can do with a count that is not negative. -/
inductive ReadOutcome (k : Kernel) (count : Nat) (buf : List UInt8) (w : World) :
    Exit World Fault (Option (List UInt8)) → Prop
  | whole (reads : Nat) (henough : count ≤ w.input.length) (hreads : w.reads ≤ reads)
      (hpos : 0 < count → w.reads < reads)
      (hdelivers : ∀ counts, Delivers k w.reads (count :: counts) ↔ Delivers k reads counts) :
      ReadOutcome k count buf w
        (.next (some (buf ++ w.input.take count)) (received w count reads w.failures))
  | failed (dropped reads : Nat) (hreads : w.reads < reads)
      (hend : Kernel.ReadsOk k → w.input.length < count ∧ w.input.length ≤ dropped)
      (hcut : count ≤ w.input.length → ∀ counts, ¬ Delivers k w.reads (count :: counts)) :
      ReadOutcome k count buf w
        (.next none (received w dropped reads (w.failures + 1)))

theorem ReadOutcome.prepend {k : Kernel} {count : Nat} {buf got : List UInt8} {w : World}
    {exit : Exit World Fault (Option (List UInt8))} (hgot : w.input.take got.length = got)
    (hle : got.length ≤ count)
    (hchunk : count ≤ w.input.length → ∀ counts, Delivers k w.reads (count :: counts) ↔
      Delivers k (w.reads + 1) ((count - got.length) :: counts))
    (h : ReadOutcome k (count - got.length) (buf ++ got)
      (received w got.length (w.reads + 1) w.failures) exit) :
    ReadOutcome k count buf w exit := by
  have hlong : got.length ≤ w.input.length := by
    have hlength := congrArg List.length hgot
    rw [List.length_take] at hlength
    omega
  cases h with
  | whole reads henough hreads hpos hdelivers =>
      simp only [received_input, List.length_drop, received_reads] at henough hreads hdelivers
      have hsum : got.length + (count - got.length) = count := by omega
      have hbytes : got ++ (w.input.drop got.length).take (count - got.length) =
          w.input.take count := by
        rw [← hsum, List.take_add, hgot, Nat.add_sub_cancel_left]
      have := @ReadOutcome.whole k count buf w reads (by omega) (by omega) (by omega)
        fun counts => (hchunk (by omega) counts).trans (hdelivers counts)
      simpa [received, hbytes, hsum, List.append_assoc] using this
  | failed dropped reads hreads hend hcut =>
      simp only [received_reads, received_input, List.length_drop] at hreads hcut
      have := @ReadOutcome.failed k count buf w (got.length + dropped) reads (by omega)
        (fun hok => by
          have := hend hok
          simp only [received_input, List.length_drop] at this
          omega)
        (fun henough counts hdelivers =>
          hcut (by omega) counts ((hchunk henough counts).mp hdelivers))
      simpa [received] using this

theorem emqClientReadLoop_outcome (k : Kernel) (count : Nat) (hcount : count ≤ intMax)
    (fuel : Nat) :
    ∀ (totlen : Nat) (buf : List UInt8) (w : World), totlen ≤ count →
      w.input.length < fuel →
      ReadOutcome k (count - totlen) buf w (emqClientReadLoop k count fuel totlen buf w) := by
  induction fuel with
  | zero =>
      intro totlen buf w _ hfuel
      omega
  | succ fuel ih =>
      intro totlen buf w htotlen hfuel
      by_cases hdone : totlen = count
      · simp only [emqClientReadLoop, hdone, if_true, Nat.sub_self]
        have := @ReadOutcome.whole k 0 buf w w.reads (by omega) (le_refl _) (by omega)
          fun _ => delivers_zero_iff
        simpa [received] using this
      · have hsize : toSizeT ((count : Int) - totlen) = count - totlen := by
          rw [← Nat.cast_sub htotlen]
          exact toSizeT_natCast (by omega)
        have hne : ¬ (totlen : Int) = count := by omega
        have hleft : ¬ (count : Int) - totlen < intMin := by
          unfold intMin
          omega
        simp only [emqClientReadLoop, hne, if_false, hleft, hsize]
        have houtcome := sysRead_outcome k (count - totlen) w
        generalize hrun : sysRead k (count - totlen) w = exit at houtcome
        cases houtcome with
        | failed hfail =>
            rw [Code.bind_of_next hrun]
            refine .failed 0 (w.reads + 1) (by omega) (fun hok => ?_)
              (fun _ _ => not_delivers_of_none (by omega) hfail)
            obtain ⟨m, hread⟩ := hok w.reads (count - totlen)
            rw [hfail] at hread
            cases hread
        | ended hinput =>
            rw [Code.bind_of_next hrun]
            have hshort : w.input.length < count - totlen := by
              rw [hinput, List.length_nil]
              omega
            exact .failed 0 (w.reads + 1) (by omega)
              (fun _ => ⟨hshort, Nat.le_of_eq (by rw [hinput]; rfl)⟩)
              (fun henough => absurd hshort (not_lt.mpr henough))
        | delivered byte tail hle hgot hchunk =>
            have hfits : (totlen : Int) + (byte :: tail).length ≤ intMax := by omega
            have hpos : 0 < (byte :: tail).length := Nat.succ_pos _
            have hlong : (byte :: tail).length ≤ w.input.length := by
              rw [← hgot, List.length_take]
              exact Nat.min_le_right _ _
            rw [Code.bind_of_next hrun]
            simp only [hfits, if_true]
            rw [← Nat.cast_add]
            refine ReadOutcome.prepend hgot (by omega) (hchunk (by omega)) ?_
            rw [Nat.sub_sub]
            exact ih (totlen + (byte :: tail).length) (buf ++ byte :: tail)
              (received w (byte :: tail).length (w.reads + 1) w.failures) (by omega)
              (by simp only [received_input, List.length_drop]; omega)

/-- One spec for every read with a count that is not negative: all the bytes
asked for, or a failure. -/
theorem emqClientRead_outcome (k : Kernel) {count : Nat} (hcount : count ≤ intMax)
    (w : World) : ReadOutcome k count [] w (emqClientRead k count w) := by
  have := emqClientReadLoop_outcome k count hcount (w.input.length + 1) 0 [] w
    (by omega) (by omega)
  simpa [emqClientRead] using this

/-- What `emq_client_read` can do with a negative count: the loop never reaches
it, so it runs until the stream ends or, after so many more bytes, the count that
is left goes below `INT_MIN`. -/
inductive OverlongOutcome (k : Kernel) (room : Int) (w : World) :
    Exit World Fault (Option (List UInt8)) → Prop
  | failed (dropped reads : Nat) (hreads : w.reads < reads)
      (hend : Kernel.ReadsOk k → w.input.length ≤ room ∧ w.input.length ≤ dropped) :
      OverlongOutcome k room w (.next none (received w dropped reads (w.failures + 1)))
  | overflow (dropped reads : Nat) (hreads : w.reads < reads)
      (hmore : room < w.input.length) :
      OverlongOutcome k room w (.fault .signedOverflow (received w dropped reads w.failures))

theorem OverlongOutcome.prepend {k : Kernel} {room : Int} {got : List UInt8} {w : World}
    {exit : Exit World Fault (Option (List UInt8))} (hlong : got.length ≤ w.input.length)
    (h : OverlongOutcome k (room - got.length)
      (received w got.length (w.reads + 1) w.failures) exit) :
    OverlongOutcome k room w exit := by
  cases h with
  | failed dropped reads hreads hend =>
      simp only [received_reads] at hreads
      have := @OverlongOutcome.failed k room w (got.length + dropped) reads (by omega)
        (fun hok => by
          have := hend hok
          simp only [received_input, List.length_drop] at this
          omega)
      simpa [received] using this
  | overflow dropped reads hreads hmore =>
      simp only [received_reads] at hreads
      simp only [received_input, List.length_drop] at hmore
      have := @OverlongOutcome.overflow k room w (got.length + dropped) reads (by omega)
        (by omega)
      simpa [received] using this

theorem emqClientReadLoop_overlong (k : Kernel) (count : Int) (hcount : count < 0)
    (fuel : Nat) :
    ∀ (totlen : Nat) (buf : List UInt8) (w : World), intMin ≤ count - totlen →
      w.input.length < fuel →
      OverlongOutcome k (count - totlen - intMin) w
        (emqClientReadLoop k count fuel totlen buf w) := by
  induction fuel with
  | zero =>
      intro totlen buf w _ hfuel
      omega
  | succ fuel ih =>
      intro totlen buf w hleft hfuel
      have hne : ¬ (totlen : Int) = count := by omega
      simp only [emqClientReadLoop, hne, if_false, not_lt.mpr hleft]
      generalize toSizeT (count - totlen) = size
      have houtcome := sysRead_outcome k size w
      generalize hrun : sysRead k size w = exit at houtcome
      cases houtcome with
      | failed hfail =>
          rw [Code.bind_of_next hrun]
          refine .failed 0 (w.reads + 1) (by omega) (fun hok => ?_)
          obtain ⟨m, hread⟩ := hok w.reads size
          rw [hfail] at hread
          cases hread
      | ended hinput =>
          rw [Code.bind_of_next hrun]
          exact .failed 0 (w.reads + 1) (by omega) (fun _ => by
            simp only [hinput, List.length_nil]
            omega)
      | delivered byte tail hle hgot =>
          have hpos : 0 < (byte :: tail).length := Nat.succ_pos _
          have hlong : (byte :: tail).length ≤ w.input.length := by
            rw [← hgot, List.length_take]
            exact Nat.min_le_right _ _
          rw [Code.bind_of_next hrun]
          by_cases hfits : (totlen : Int) + (byte :: tail).length ≤ intMax
          · simp only [hfits, if_true]
            rw [← Nat.cast_add]
            by_cases hleft' : intMin ≤ count - (totlen + (byte :: tail).length : Nat)
            · have hstep := ih (totlen + (byte :: tail).length) (buf ++ byte :: tail)
                (received w (byte :: tail).length (w.reads + 1) w.failures) hleft'
                (by simp only [received_input, List.length_drop]; omega)
              refine OverlongOutcome.prepend hlong ?_
              have hroom : count - totlen - intMin - (byte :: tail).length =
                  count - (totlen + (byte :: tail).length : Nat) - intMin := by omega
              rwa [hroom]
            · -- The next turn begins with a subtraction that overflows.
              cases fuel with
              | zero => omega
              | succ fuel =>
                  have hne' : ¬ ((totlen + (byte :: tail).length : Nat) : Int) = count := by
                    omega
                  simp only [emqClientReadLoop, hne', if_false, not_le.mp hleft', if_true]
                  exact .overflow _ (w.reads + 1) (by omega) (by omega)
          · simp only [hfits, if_false]
            refine .overflow _ (w.reads + 1) (by omega) ?_
            unfold intMax at hfits
            unfold intMin
            omega

/-- A negative count never yields data. -/
theorem emqClientRead_overlong (k : Kernel) {count : Int} (hcount : count < 0)
    (hlow : intMin ≤ count) (w : World) :
    OverlongOutcome k (count - intMin) w (emqClientRead k count w) := by
  have := emqClientReadLoop_overlong k count hcount (w.input.length + 1) 0 [] w
    (by simpa using hlow) (by omega)
  simpa [emqClientRead] using this

/-- Starting with this call, some `write` returns `0` before all of so many bytes
are accepted, and none fails before it. -/
inductive WriteStalls (k : Kernel) : (call remaining : Nat) → Prop
  | now {call remaining : Nat} (hpos : 0 < remaining)
      (hzero : k.write call remaining = some 0) : WriteStalls k call remaining
  | later {call remaining m : Nat} (hm : k.write call remaining = some m) (hpos : 0 < m)
      (hshort : m < remaining) (h : WriteStalls k (call + 1) (remaining - m)) :
      WriteStalls k call remaining

/-- What `emq_client_write` can do with a whole buffer. -/
inductive WriteOutcome (k : Kernel) (totlen : Nat) (bytes : List UInt8) (w : World) :
    Exit World Fault Int → Prop
  | whole (writes : Nat) (hstall : ¬ WriteStalls k w.writes bytes.length) :
      WriteOutcome k totlen bytes w
        (.next ((totlen + bytes.length : Nat) : Int) (sent w bytes writes w.failures))
  | short (n writes : Nat) (hn : n < bytes.length)
      (hstall : WriteStalls k w.writes bytes.length) :
      WriteOutcome k totlen bytes w
        (.next ((totlen + n : Nat) : Int) (sent w (bytes.take n) writes w.failures))
  | failed (n writes : Nat) (hn : n < bytes.length)
      (hstall : ¬ WriteStalls k w.writes bytes.length)
      (hfail : ¬ Kernel.WritesOk k) :
      WriteOutcome k totlen bytes w
        (.next (-1) (sent w (bytes.take n) writes (w.failures + 1)))

theorem not_writeStalls_zero (k : Kernel) (call : Nat) : ¬ WriteStalls k call 0 := by
  intro h
  cases h with
  | now hpos => omega
  | later _ _ hshort => omega

theorem not_writeStalls_of_none {k : Kernel} {call remaining : Nat}
    (h : k.write call remaining = none) : ¬ WriteStalls k call remaining := by
  intro hstall
  cases hstall with
  | now _ hzero => simp [h] at hzero
  | later hm => simp [h] at hm

theorem writeStalls_iff_rest {k : Kernel} {call remaining m : Nat}
    (h : k.write call remaining = some m) (hpos : 0 < m) :
    WriteStalls k call remaining ↔ WriteStalls k (call + 1) (remaining - min m remaining) := by
  constructor
  · intro hstall
    cases hstall with
    | now _ hzero =>
        rw [h] at hzero
        simp only [Option.some.injEq] at hzero
        omega
    | later hm _ hshort hrest =>
        rw [h] at hm
        simp only [Option.some.injEq] at hm
        subst hm
        rwa [Nat.min_eq_left hshort.le]
  · intro hrest
    by_cases hshort : m < remaining
    · rw [Nat.min_eq_left hshort.le] at hrest
      exact .later h hpos hshort hrest
    · rw [Nat.min_eq_right (by omega), Nat.sub_self] at hrest
      exact absurd hrest (not_writeStalls_zero _ _)

theorem WriteOutcome.prepend {k : Kernel} {totlen n : Nat} {bytes : List UInt8} {w : World}
    {exit : Exit World Fault Int} (hn : n ≤ bytes.length)
    (hstall : WriteStalls k w.writes bytes.length ↔
      WriteStalls k (w.writes + 1) (bytes.length - n))
    (h : WriteOutcome k (totlen + n) (bytes.drop n)
      (sent w (bytes.take n) (w.writes + 1) w.failures) exit) :
    WriteOutcome k totlen bytes w exit := by
  have hwrites : (sent w (bytes.take n) (w.writes + 1) w.failures).writes = w.writes + 1 := rfl
  cases h with
  | whole writes hnot =>
      rw [hwrites, List.length_drop, ← hstall] at hnot
      have := @WriteOutcome.whole k totlen bytes w writes hnot
      have hlength : totlen + n + (bytes.drop n).length = totlen + bytes.length := by
        simp only [List.length_drop]
        omega
      rw [hlength]
      simpa [sent] using this
  | short extra writes hextra hyes =>
      rw [hwrites, List.length_drop, ← hstall] at hyes
      simp only [List.length_drop] at hextra
      have := @WriteOutcome.short k totlen bytes w (n + extra) writes (by omega) hyes
      simpa [sent, List.take_add, Nat.add_assoc] using this
  | failed extra writes hextra hnot hfail =>
      rw [hwrites, List.length_drop, ← hstall] at hnot
      simp only [List.length_drop] at hextra
      have := @WriteOutcome.failed k totlen bytes w (n + extra) writes (by omega) hnot hfail
      simpa [sent, List.take_add] using this

theorem emqClientWriteLoop_outcome (k : Kernel) (count : Nat) (hcount : count ≤ intMax)
    (fuel : Nat) :
    ∀ (totlen : Nat) (bytes : List UInt8) (w : World), totlen + bytes.length = count →
      bytes.length < fuel →
      WriteOutcome k totlen bytes w (emqClientWriteLoop k count fuel totlen bytes w) := by
  induction fuel with
  | zero =>
      intro totlen bytes w _ hfuel
      omega
  | succ fuel ih =>
      intro totlen bytes w htotal hfuel
      by_cases hdone : totlen = count
      · have hnil : bytes = [] := List.eq_nil_of_length_eq_zero (by omega)
        subst hnil
        simp only [emqClientWriteLoop, hdone, if_true]
        have := @WriteOutcome.whole k count [] w w.writes (not_writeStalls_zero _ _)
        simpa [sent] using this
      · have hsize : toSizeT ((count : Int) - totlen) = bytes.length := by
          rw [← Nat.cast_sub (by omega : totlen ≤ count)]
          rw [toSizeT_natCast (by omega)]
          omega
        have hne : ¬ (totlen : Int) = count := by omega
        simp only [emqClientWriteLoop, hne, if_false, hsize, List.take_length]
        cases hwrite : k.write w.writes bytes.length with
        | none =>
            rw [Code.bind_of_next (sysWrite_failed hwrite)]
            exact .failed 0 (w.writes + 1) (by omega) (not_writeStalls_of_none hwrite)
              (fun hok => by
                obtain ⟨m, hm⟩ := hok.write w.writes bytes.length
                simp [hwrite] at hm)
        | some m =>
            rcases Nat.eq_zero_or_pos m with hzero | hpos
            · subst hzero
              rw [Code.bind_of_next (sysWrite_accepted hwrite (Nat.zero_min _))]
              exact .short 0 (w.writes + 1) (by omega) (.now (by omega) hwrite)
            · obtain ⟨n, hn⟩ : ∃ n, min m bytes.length = n + 1 :=
                ⟨min m bytes.length - 1, by omega⟩
              have hstall := writeStalls_iff_rest hwrite hpos
              rw [hn] at hstall
              rw [Code.bind_of_next (sysWrite_accepted hwrite hn)]
              simp only
              rw [← Nat.cast_add]
              refine WriteOutcome.prepend (by omega) hstall ?_
              exact ih (totlen + (n + 1)) (bytes.drop (n + 1))
                (sent w (bytes.take (n + 1)) (w.writes + 1) w.failures)
                (by simp only [List.length_drop]; omega)
                (by simp only [List.length_drop]; omega)

/-- One spec for every write of a whole buffer. -/
theorem emqClientWrite_outcome (k : Kernel) (bytes : List UInt8)
    (hcount : bytes.length ≤ intMax) (w : World) :
    WriteOutcome k 0 bytes w (emqClientWrite k bytes bytes.length w) := by
  have := emqClientWriteLoop_outcome k bytes.length hcount (bytes.length + 1) 0 bytes w
    (by omega) (by omega)
  simpa [emqClientWrite] using this

/-- The kernel's own result for the `writev` that starts with this call. -/
def writevResult (k : Kernel) (call size : Nat) : Option Nat :=
  k.writev (call + k.interrupts call) size

theorem sysWritev_eq (k : Kernel) (iov : List (List UInt8)) (w : World) :
    sysWritev k iov w =
      match k.writev w.writes iov.flatten.length with
      | none => .next none (sent w [] (w.writes + 1) (w.failures + 1))
      | some m => .next (some (min m iov.flatten.length))
          (sent w (iov.flatten.take m) (w.writes + 1) w.failures) := by
  unfold sysWritev
  generalize iov.flatten = bytes
  cases k.writev w.writes bytes.length with
  | none => simp [sent]
  | some m =>
      have htake : bytes.take (min m bytes.length) = bytes.take m :=
        (List.take_eq_take_min ..).symm
      simp [sent, htake]

theorem retryWritev_eq (k : Kernel) (iov : List (List UInt8)) (interrupts : Nat) :
    ∀ w : World, retryWritev k iov interrupts w =
      match k.writev (w.writes + interrupts) iov.flatten.length with
      | none => .next (-1) (sent w [] (w.writes + interrupts + 1) (w.failures + 1))
      | some m => .next (toInt (min m iov.flatten.length))
          (sent w (iov.flatten.take m) (w.writes + interrupts + 1) w.failures) := by
  induction interrupts with
  | zero =>
      intro w
      have hcall := sysWritev_eq k iov w
      simp only [retryWritev, Nat.add_zero]
      cases h : k.writev w.writes iov.flatten.length with
      | none =>
          rw [h] at hcall
          rw [Code.bind_of_next hcall]
          rfl
      | some m =>
          rw [h] at hcall
          rw [Code.bind_of_next hcall]
          rfl
  | succ interrupts ih =>
      intro w
      have hadd : w.writes + 1 + interrupts = w.writes + (interrupts + 1) := by omega
      simp only [retryWritev, Code.bind_modify, ih, hadd]
      cases k.writev (w.writes + (interrupts + 1)) iov.flatten.length <;> simp [sent]

/-- One spec for `emq_client_writev`: a single attempt, however often it was
interrupted. -/
theorem emqClientWritev_eq (k : Kernel) (iov : List (List UInt8)) (w : World) :
    emqClientWritev k iov w =
      match writevResult k w.writes iov.flatten.length with
      | none => .next (-1)
          (sent w [] (w.writes + k.interrupts w.writes + 1) (w.failures + 1))
      | some m => .next (toInt (min m iov.flatten.length))
          (sent w (iov.flatten.take m) (w.writes + k.interrupts w.writes + 1) w.failures) := by
  simp only [emqClientWritev, Code.bind_reads, retryWritev_eq, writevResult]

end Libemq.Network
