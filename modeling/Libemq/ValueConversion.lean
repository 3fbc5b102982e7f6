import Libemq.ErrorTexts

namespace Libemq.ValueConversion

open Libemq.PackedLayout (bytesLE valueLE bytesLE_length valueLE_bytesLE)
open Libemq.ExitCode
open Libemq.Client
open Libemq.Network
open Libemq.Protocol
open Libemq.Packet
open Libemq.Commands
open Libemq.Transactions
open Libemq.Responses
open Libemq.Calls
open Libemq.Completion
open Libemq.Runs
open Libemq.ErrorTexts

def valueHeader (cmd : ProtocolCommand) : ProtocolResponseHeader where
  magic := emqProtocolRes
  cmd := cmd.code
  status := ProtocolResponseStatus.success.code
  bodylen := 4

/-- What the return value is documented to say: the number of elements, as a value that no
failure has, or whether the thing exists. -/
def Documented (c : Command) (v : UInt32) (n : Int) : Prop :=
  match c with
  | .queueSize _ => n = v.toNat ∧
      ∀ (k : Kernel) (name : CStrings.CString) (w w' : World), Ready w.client →
        exec k (.queueSize name) w = .returned (.value n) w' → w'.client.status = .ok
  | _ => 0 < n ↔ v ≠ 0

/-- The call returns. If it succeeds, then with what is documented for this value, and it
does so when the kernel does not fail. -/
def Survives (k : Kernel) (c : Command) (v : UInt32) (w : World) : Prop :=
  ∃ reply w', exec k c w = .returned reply w' ∧
    (w'.client.status = .ok → ∃ n, reply = .value n ∧ Documented c v n) ∧
    (Kernel.WritesOk k → Kernel.ReadsOk k → w'.client.status = .ok)

theorem toInt_of_small {v : UInt32} (h : v.toNat < 2147483648) : toInt v.toNat = v.toNat :=
  toInt_natCast (by unfold intMax; omega)

theorem toInt_neg {v : UInt32} (h : ¬ v.toNat < 2147483648) : toInt v.toNat < 0 := by
  have hlt := v.toNat_lt
  rw [toInt_of_overlong (by unfold intMax; omega) hlt]
  omega

theorem queueSize_failure {k : Kernel} {name : CStrings.CString} {w w' : World} {n : Int}
    (hready : Ready w.client) (hn : 0 ≤ n)
    (h : exec k (.queueSize name) w = .returned (.value n) w') : w'.client.status = .ok := by
  obtain ⟨_, _, _, ⟨hreply, _⟩ | ⟨_, hok, _⟩⟩ := exec_returned hready h
  · have hneg : n = -1 := Reply.value.inj hreply
    omega
  · exact hok

/-- An `int` says what is documented exactly of the values it can hold. -/
theorem documented_iff {c : Command} {cmd : ProtocolCommand} {failure : Int}
    (hc : finish c = .value cmd failure) (v : UInt32) :
    Documented c v (toInt v.toNat) ↔ v.toNat < 2147483648 := by
  have hexist : (0 < toInt v.toNat ↔ v ≠ 0) ↔ v.toNat < 2147483648 := by
    have hzero : v ≠ 0 ↔ v.toNat ≠ 0 := by
      rw [Ne, Ne, ← UInt32.toNat_inj]
      rfl
    rw [hzero]
    constructor
    · intro h
      by_contra hlarge
      have := toInt_neg hlarge
      omega
    · intro hsmall
      rw [toInt_of_small hsmall]
      omega
  cases c with
  | queueSize name =>
      constructor
      · rintro ⟨hsame, _⟩
        by_contra hlarge
        have := toInt_neg hlarge
        omega
      · intro hsmall
        have hsame := toInt_of_small hsmall
        exact ⟨hsame, fun k name w w' hready h =>
          queueSize_failure hready (hsame ▸ Int.natCast_nonneg _) h⟩
  | queueExist name => exact hexist
  | routeExist name => exact hexist
  | channelExist name => exact hexist
  | _ => cases hc

section Answered

variable {c : Command} {cmd : ProtocolCommand} {failure : Int}
  (hc : finish c = .value cmd failure) {v : UInt32} {w : World} {rest : List UInt8}
  (hinput : w.input = (valueHeader cmd).bytes ++ bytesLE 4 v.toNat ++ rest)

include hc hinput

theorem accepted_value {k : Kernel} {response : List UInt8} {w2 : World}
    (h : Accepted k c w response w2) : w2.input = bytesLE 4 v.toNat ++ rest := by
  cases h with
  | unanswered _ _ hawaits =>
      rw [hc] at hawaits
      cases hawaits
  | answered w1 reads hissued =>
      have hhead : Finish.head (finish c) = 8 := by rw [hc]; rfl
      rw [received_input, hissued.input, hhead, hinput, List.append_assoc]
      exact List.drop_left' (headerBytes_length ..)

theorem body_value (k : Kernel) {response : List UInt8} {w2 : World}
    (h : Accepted k c w response w2) :
    (∃ s, Finish.body k (finish c) response w2 = .next (.value (toInt v.toNat)) s) ∨
      ∃ s, Finish.body k (finish c) response w2 = .error s ∧ ¬ Kernel.ReadsOk k := by
  have hbody := accepted_value hc hinput h
  have houtcome : ReadOutcome k 4 [] w2 (emqClientRead k 4 w2) :=
    emqClientRead_outcome k (by decide) w2
  rw [hc, Finish.body]
  generalize hread : emqClientRead k 4 w2 = exit at houtcome
  cases houtcome with
  | whole reads =>
      have hvalue : valueLE (w2.input.take 4) = v.toNat := by
        rw [hbody, List.take_left' (bytesLE_length ..), valueLE_bytesLE v.toNat_lt]
      rw [Code.bind_of_next hread, List.nil_append, ← hvalue]
      exact .inl ⟨_, rfl⟩
  | failed dropped reads _ hend =>
      rw [Code.bind_of_next hread]
      refine .inr ⟨_, rfl, fun hok => ?_⟩
      have := (hend hok).1
      rw [hbody, List.length_append, bytesLE_length] at this
      omega

theorem exec_value {k : Kernel} (hwrites : Kernel.WritesOk k) (hreads : Kernel.ReadsOk k)
    (haccepts : Accepts c) (hready : Ready w.client) :
    ∃ s, exec k c w = .returned (.value (toInt v.toNat)) (setStatus .ok s) := by
  have hparse : ProtocolResponseHeader.parse w.input = valueHeader cmd := by
    rw [hinput, List.append_assoc, ProtocolResponseHeader.parse_bytes]
  have hlength : Finish.head (finish c) ≤ w.input.length := by
    rw [hc, hinput, List.append_assoc, List.length_append, ProtocolResponseHeader.bytes,
      headerBytes_length]
    exact Nat.le_add_right ..
  obtain ⟨w2, haccepted, _, hexec⟩ := answered_body hwrites hready haccepts
    (not_misread_of_awaits (by rw [hc]; rfl) _ _) (hreads.delivers [_] _) (by rw [hc]; rfl) hlength
    (by rw [hparse, hc]; simp [Finish.check, emqCheckResponseHeader, valueHeader])
    (by rw [hparse]; rfl)
  rcases body_value hc hinput k haccepted with ⟨s, hbody⟩ | ⟨_, _, hfail⟩
  · rw [hbody] at hexec
    exact ⟨s, hexec⟩
  · exact absurd hreads hfail

end Answered

/-- The value of a well-formed success response survives the conversion to the `int` that
the call returns, whatever the kernel does, iff it is below 2^31. -/
theorem value_survives_iff (c : Command) (cmd : ProtocolCommand) (failure : Int)
    (hc : finish c = .value cmd failure) (haccepts : Accepts c) (v : UInt32) (w : World)
    (hready : Ready w.client) (rest : List UInt8)
    (hinput : w.input = (valueHeader cmd).bytes ++ bytesLE 4 v.toNat ++ rest) :
    (∀ k, Survives k c v w) ↔ v.toNat < 2147483648 := by
  constructor
  · intro h
    obtain ⟨reply, w', hexec, hsays, hsucceeds⟩ := h generous
    obtain ⟨s, hvalue⟩ := exec_value hc hinput generous_reliable.writes generous_reliable.reads
      haccepts hready
    obtain ⟨n, hreply, hdocumented⟩ :=
      hsays (hsucceeds generous_reliable.writes generous_reliable.reads)
    rw [hvalue, hreply] at hexec
    have hsame : toInt v.toNat = n := Reply.value.inj (Outcome.returned.inj hexec).1
    rw [← hsame] at hdocumented
    exact (documented_iff hc v).mp hdocumented
  · intro hsmall k
    have hdocumented := (documented_iff hc v).mpr hsmall
    have hgood : Kernel.WritesOk k → Kernel.ReadsOk k → ∀ {reply w'},
        exec k c w = .returned reply w' → w'.client.status = .ok := by
      intro hwrites hreads reply w' hexec
      obtain ⟨s, hvalue⟩ := exec_value hc hinput hwrites hreads haccepts hready
      rw [hexec] at hvalue
      cases hvalue
      rfl
    rcases exec_body k c w hready.1 with ⟨_, _, hexec, _⟩ | ⟨response, w2, haccepted, hexec⟩
    · exact ⟨_, _, hexec, fun herr => (by cases herr),
        fun hwrites hreads => hgood hwrites hreads hexec⟩
    · rcases body_value hc hinput k haccepted with ⟨s, hbody⟩ | ⟨s, hbody, _⟩
      · rw [hbody] at hexec
        exact ⟨_, _, hexec, fun _ => ⟨_, rfl, hdocumented⟩,
          fun hwrites hreads => hgood hwrites hreads hexec⟩
      · rw [hbody] at hexec
        exact ⟨_, _, hexec, fun herr => (by cases herr),
          fun hwrites hreads => hgood hwrites hreads hexec⟩

def sizing (v : UInt32) : World :=
  World.connected [] ((valueHeader .queueSize).bytes ++ bytesLE 4 v.toNat ++ [])

/-- A full queue of the largest size looks like a failure. -/
theorem full_queue_fails :
    ¬ ∀ (k : Kernel) (c : Command) (cmd : ProtocolCommand) (failure : Int) (v : UInt32)
      (w : World), finish c = .value cmd failure → Accepts c → Reachable k w →
      w.input = (valueHeader cmd).bytes ++ bytesLE 4 v.toNat ++ [] → Survives k c v w := by
  intro h
  obtain ⟨reply, w', hexec, hsays, hsucceeds⟩ := h generous (.queueSize queueQ) .queueSize (-1)
    4294967295 (sizing 4294967295) rfl (by decide) ⟨[], _, .refl⟩ rfl
  have hresult : (exec generous (.queueSize queueQ) (sizing 4294967295)).result =
      some (.value (-1)) := by
    decide +kernel
  obtain ⟨n, rfl, hsame, _⟩ :=
    hsays (hsucceeds generous_reliable.writes generous_reliable.reads)
  rw [hexec] at hresult
  cases hresult
  exact absurd hsame (by decide)

theorem value_survives_iff_large : Survives generous (.queueSize queueQ) 2147483647
    (sizing 2147483647) :=
  (value_survives_iff (.queueSize queueQ) .queueSize (-1) rfl (by decide) 2147483647
    (sizing 2147483647) (ready_connected _ _) [] rfl).mpr (by decide) generous

end Libemq.ValueConversion
