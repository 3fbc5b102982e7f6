import Libemq.Completion
import Libemq.ServerErrors
import Libemq.Consumption
import Libemq.Framing

namespace Libemq.Sessions

open Libemq.CStrings
open Libemq.PackedLayout
open Libemq.ExitCode
open Libemq.Client
open Libemq.Network
open Libemq.Protocol
open Libemq.Packet
open Libemq.Commands
open Libemq.Transactions
open Libemq.Responses
open Libemq.Calls
open Libemq.Completion
open Libemq.Runs
open Libemq.ServerErrors
open Libemq.Consumption
open Libemq.Framing

def Answers : Finish → (body : List UInt8) → Prop
  | .acknowledge .., body => body = []
  | .stat, body => body.length = 55
  | .value .., body => body.length = 4
  | .records kind, body => kind.size ∣ body.length
  | .message _, body => 9 ≤ body.length

/-- A message is so short that its frame is shorter than `2^31` bytes. -/
def ShortMessage : Command → Prop
  | .queuePush _ msg | .routePush _ _ msg | .channelPublish _ _ msg =>
      msg.size ≤ 2147483543
  | _ => True

/-- A command with arguments that the client takes, and the body of its response. -/
structure Exchange where
  command : Command
  body : List UInt8
  accepts : Accepts command
  short : ShortMessage command
  answers : Answers (finish command) body
  bounded : body.length ≤ intMax

def Exchange.header (e : Exchange) : ProtocolResponseHeader where
  magic := emqProtocolRes
  cmd := (request e.command).command.code
  status := ProtocolResponseStatus.success.code
  bodylen := UInt32.ofNat e.body.length

def Exchange.response (e : Exchange) : List UInt8 := e.header.bytes ++ e.body

def Exchange.reply (e : Exchange) : Reply := Finish.reply (finish e.command) e.response e.body

/-- Every command of the session returns its success value with its status set and
leaves the input at the end of its own response. -/
def Completes (k : Kernel) (rest : List UInt8) : List Exchange → World → Prop
  | [], _ => True
  | e :: es, w => ∃ w', exec k e.command w = .returned e.reply w' ∧ w'.client.status = .ok ∧
      w'.input = stream Exchange.response es ++ rest ∧ Completes k rest es w'

theorem parts_length (c : Command) (h : ShortMessage c) :
    ((parts c).getD []).flatten.length ≤ 2147483547 := by
  cases c <;> simp_all [parts, ShortMessage, EmqMsg.size] <;> omega

theorem frame_length {c : Command} (haccepts : Accepts c) (h : ShortMessage c) (noack : Bool) :
    (frame c noack).length < 4294967295 := by
  have hrequest := Request.bytes_length_le haccepts.2 noack
  have hparts := parts_length c h
  rw [frame, wire, List.length_append]
  omega

theorem not_misread {k : Kernel} (hwrites : Kernel.WritesOk k) {c : Command}
    (haccepts : Accepts c) (h : ShortMessage c) (call : Nat) (noack : Bool) :
    ¬ Misread k call (frame c noack).length (parts c) := by
  rw [misread_iff hwrites]
  rintro ⟨_, hwrap⟩
  have := toInt_eq_neg_one hwrap
  have := frame_length haccepts h noack
  omega

theorem Exchange.bodylen (e : Exchange) : e.header.bodylen.toNat = e.body.length := by
  have hlt : e.body.length < 4294967296 := by
    have := e.bounded
    unfold intMax at this
    omega
  exact UInt32.toNat_ofNat_of_lt' hlt

theorem Exchange.bodySize (e : Exchange) : BodySize (finish e.command) e.body.length := by
  have hanswers := e.answers
  have hbounded := e.bounded
  cases hfinish : finish e.command with
  | acknowledge check commit =>
      rw [hfinish] at hanswers
      exact congrArg List.length hanswers
  | stat =>
      rw [hfinish] at hanswers
      exact hanswers
  | value cmd failure =>
      rw [hfinish] at hanswers
      exact hanswers
  | records kind =>
      rw [hfinish] at hanswers
      exact ⟨hbounded, hanswers⟩
  | message cmd =>
      rw [hfinish] at hanswers
      change 9 ≤ e.body.length at hanswers
      exact ⟨by omega, by omega⟩

/-- The response to a command passes its check, unless the command expects another. -/
theorem Exchange.check (e : Exchange) :
    Finish.check (finish e.command) e.header = if ExpectsOther e.command then .err else .ok := by
  refine check_ownHeader rfl rfl ?_
  rw [e.bodylen]
  exact e.bodySize

theorem Exchange.reply_eq (e : Exchange) (tail : List UInt8) :
    Finish.reply (finish e.command)
        ((e.response ++ tail).take (Finish.head (finish e.command)))
        (((e.response ++ tail).drop (Finish.head (finish e.command))).take
          (Finish.size (finish e.command) e.body.length)) = e.reply := by
  have hanswers := e.answers
  have hheader : e.header.bytes.length = 8 := headerBytes_length ..
  have hrest : (e.response ++ tail).drop 8 = e.body ++ tail := by
    rw [Exchange.response, List.append_assoc, ← hheader, List.drop_left]
  unfold Exchange.reply
  cases hfinish : finish e.command with
  | acknowledge check commit => rfl
  | stat =>
      rw [hfinish] at hanswers
      have hlength : e.response.length = 63 := by
        rw [Exchange.response, List.length_append, hheader, hanswers]
      simp only [Finish.reply, Finish.head, ← hlength, List.take_left]
  | value cmd failure =>
      rw [hfinish] at hanswers
      simp only [Answers] at hanswers
      simp only [Finish.reply, Finish.head, Finish.size, hrest, ← hanswers, List.take_left]
  | records kind =>
      simp only [Finish.reply, Finish.head, Finish.size, hrest, List.take_left]
  | message cmd =>
      simp only [Finish.reply, Finish.head, Finish.size, hrest, List.take_left]

section Exchanges

variable {k : Kernel} (hk : Kernel.Reliable k) {w : World} (hready : Ready w.client)
  (hnoack : w.client.noack = false) (e : Exchange) {tail : List UInt8}
  (hinput : w.input = e.response ++ tail)

include hk hready hnoack hinput

theorem exchange_completes (hown : ¬ ExpectsOther e.command) :
    ∃ w', exec k e.command w = .returned e.reply w' ∧ w'.client.status = .ok ∧
      w'.input = tail ∧ Ready w'.client ∧ w'.client.noack = false := by
  have hread := not_misread hk.writes e.accepts e.short w.writes w.client.noack
  have hawaits : Finish.awaits (finish e.command) w.client.noack = true := by
    rw [hnoack, Finish.awaits_acknowledged]
  have hcheck := e.check
  rw [if_neg hown] at hcheck
  obtain ⟨w', hexec, hdone⟩ := answered_completes hk hready e.accepts hread hawaits hinput hcheck
    rfl e.bodylen e.bodySize
  rw [hinput, e.reply_eq] at hexec
  exact ⟨w', hexec, hdone.status, hdone.input, hdone.ready, hdone.noack.trans hnoack⟩

end Exchanges

theorem not_expectsOther_of_completed {k : Kernel} {w w' : World} (hready : Ready w.client)
    (hnoack : w.client.noack = false) (e : Exchange) {tail : List UInt8}
    (hinput : w.input = e.response ++ tail) {reply : Reply}
    (h : exec k e.command w = .returned reply w') (hok : w'.client.status = .ok) :
    ¬ ExpectsOther e.command := by
  intro hother
  obtain ⟨hcheck, _⟩ := took_of_succeeded hready hnoack h hok
  have hparse : ProtocolResponseHeader.parse w.input = e.header := by
    rw [hinput, Exchange.response, List.append_assoc, ProtocolResponseHeader.parse_bytes]
  rw [hparse, e.check, if_pos hother] at hcheck
  cases hcheck

/-- A session over a reliable connection completes iff it never calls
`emq_channel_punsubscribe`. -/
theorem session_completes_iff (k : Kernel) (hk : Kernel.Reliable k) (rest : List UInt8)
    (es : List Exchange) :
    ∀ w : World, Ready w.client → w.client.noack = false →
      w.input = stream Exchange.response es ++ rest →
      (Completes k rest es w ↔ ∀ e ∈ es, ¬ ExpectsOther e.command) := by
  induction es with
  | nil =>
      intro w _ _ _
      simp [Completes]
  | cons e es ih =>
      intro w hready hnoack hinput
      rw [stream_cons, List.append_assoc] at hinput
      rw [List.forall_mem_cons]
      constructor
      · rintro ⟨w', hexec, hok, hinput', hcompletes⟩
        have hown := not_expectsOther_of_completed hready hnoack e hinput hexec hok
        obtain ⟨w'', hexec', _, _, hready', hnoack'⟩ :=
          exchange_completes hk hready hnoack e hinput hown
        rw [hexec] at hexec'
        cases hexec'
        exact ⟨hown, (ih w' hready' hnoack' hinput').mp hcompletes⟩
      · rintro ⟨hown, hall⟩
        obtain ⟨w', hexec, hok, hinput', hready', hnoack'⟩ :=
          exchange_completes hk hready hnoack e hinput hown
        exact ⟨w', hexec, hok, hinput', (ih w' hready' hnoack' hinput').mpr hall⟩

def punsubscription : Exchange where
  command := .channelPunsubscribe channelC ⟨[42], by decide⟩
  body := []
  accepts := by decide
  short := trivial
  answers := rfl
  bounded := Nat.zero_le _

/-- The acknowledged `emq_channel_punsubscribe` fails. -/
theorem punsubscription_fails :
    ¬ ∀ (k : Kernel) (rest : List UInt8) (es : List Exchange) (w : World), Kernel.Reliable k →
      Ready w.client → w.client.noack = false →
      w.input = stream Exchange.response es ++ rest → Completes k rest es w := by
  intro h
  obtain ⟨w', hexec, hok, _⟩ := h generous [] [punsubscription]
    (World.connected [] punsubscription.response) generous_reliable (ready_connected _ _) rfl
    (by simp [World.connected, stream])
  have herr : (exec generous punsubscription.command
      (World.connected [] punsubscription.response)).state.client.status = .err := by
    decide +kernel
  rw [hexec] at herr
  rw [Outcome.state, hok] at herr
  cases herr

def sizeQuery : Exchange where
  command := .queueSize queueQ
  body := [3, 0, 0, 0]
  accepts := by decide
  short := trivial
  answers := rfl
  bounded := by decide

theorem session_completes_iff_sizeQuery :
    Kernel.Reliable generous ∧
      Completes generous [] [sizeQuery, sizeQuery]
        (World.connected [] (stream Exchange.response [sizeQuery, sizeQuery] ++ [])) :=
  ⟨generous_reliable, (session_completes_iff generous generous_reliable []
    [sizeQuery, sizeQuery]
    (World.connected [] (stream Exchange.response [sizeQuery, sizeQuery] ++ []))
    (ready_connected _ _) rfl rfl).mpr (by decide)⟩

end Libemq.Sessions
