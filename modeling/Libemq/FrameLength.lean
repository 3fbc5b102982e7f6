import Libemq.RequestFormat

namespace Libemq.FrameLength

open Libemq.CStrings
open Libemq.PackedLayout
open Libemq.ExitCode
open Libemq.Client
open Libemq.Network
open Libemq.Protocol
open Libemq.Packet
open Libemq.Commands
open Libemq.Transactions
open Libemq.Calls
open Libemq.RequestFormat
open Libemq.Runs

/-- The call gets as far as handing this `iovec` to `emq_client_writev`. -/
inductive HandsOver (k : Kernel) (c : Command) (w : World) : List (List UInt8) → Prop
  | intro (w1 : World) (extra : List (List UInt8)) (hvalid : valid c = true)
      (hparts : parts c = some extra)
      (hbuild : (request c).build k (withError .none w) = .next .ok w1) :
      HandsOver k c w (EmqClient.pending w1.client :: extra)

def transmitted (iov : List (List UInt8)) : Nat := (iov.map List.length).sum

def declared (iov : List (List UInt8)) : Nat :=
  (ProtocolRequestHeader.parse iov.flatten).bodylen.toNat

/-- The bytes that a message-carrying call sends behind the header: the structure of the
request, the expiry if there is one, and the message. -/
def bodySize : Command → Nat
  | .queuePush _ msg => 64 + 4 + msg.size
  | .routePush _ _ msg => 96 + 4 + msg.size
  | .channelPublish _ _ msg => 96 + msg.size
  | _ => 0

theorem transmitted_eq (iov : List (List UInt8)) : transmitted iov = iov.flatten.length := by
  rw [transmitted, List.length_flatten]

theorem build_pending {k : Kernel} {r : Request} {w w1 : World}
    (h : r.build k w = .next .ok w1) :
    r.Accepted ∧ EmqClient.pending w1.client = r.bytes w.client.noack := by
  rw [Request.build_eq, buildRequest] at h
  split at h
  · cases h
  · rename_i hlimits
    have haccepted : r.Accepted := by
      rw [Request.accepted_iff_limits]
      intro p hp
      by_contra hlong
      exact hlimits (List.any_eq_true.mpr ⟨p, hp, by simpa using hlong⟩)
    refine ⟨haccepted, ?_⟩
    have hbytes : requestBytes r.command w.client.noack r.members r.msgSize =
        r.bytes w.client.noack := rfl
    rw [Code.bind_reads] at h
    simp only [hbytes] at h
    cases hcheck : emqCheckReallocClientRequest k (r.bytes w.client.noack).length w with
    | error s =>
        rw [Code.bind_of_error hcheck] at h
        cases h
    | fault reason s =>
        rw [Code.bind_of_fault hcheck] at h
        cases h
    | next status s =>
        rw [Code.bind_of_next hcheck] at h
        cases status with
        | err => cases h
        | ok =>
            simp only [emqSetClientRequest, Code.bind_bind, Code.bind_reads] at h
            cases hrequest : s.client.request with
            | none => simp [hrequest] at h
            | some buffer =>
                simp only [hrequest] at h
                split at h
                · simp at h
                · rw [Code.bind_of_next (updateClient_apply ..)] at h
                  cases h
                  simp [EmqClient.pending]

theorem handsOver_eq {k : Kernel} {c : Command} {w : World} {iov : List (List UInt8)}
    (h : HandsOver k c w iov) : Accepts c ∧ ∃ extra, parts c = some extra ∧
      iov = (request c).bytes w.client.noack :: extra := by
  obtain ⟨w1, extra, hvalid, hparts, hbuild⟩ := h
  obtain ⟨haccepted, hpending⟩ := build_pending hbuild
  exact ⟨⟨hvalid, haccepted⟩, extra, hparts, by rw [hpending]; rfl⟩

theorem issueRequest_handsOver {k : Kernel} {c : Command} {w : World} {iov : List (List UInt8)}
    (h : HandsOver k c w iov) :
    ∃ w1, issueRequest k (valid c) ((request c).build k) (parts c) (withError .none w) =
      (emqClientWritev k iov >>= fun ret =>
        if ret = -1 then failWith .write else pure ()) w1 := by
  obtain ⟨w1, extra, hvalid, hparts, hbuild⟩ := h
  refine ⟨w1, ?_⟩
  rw [issueRequest, if_pos hvalid, Code.bind_of_next hbuild, hparts]
  exact writevRequest_apply k extra w1

theorem handsOver_of_accepts {k : Kernel} {c : Command} {w : World} (hready : Ready w.client)
    (haccepts : Accepts c) {extra : List (List UInt8)} (hparts : parts c = some extra) :
    HandsOver k c w ((request c).bytes w.client.noack :: extra) := by
  have houtcome := Request.build_outcome k (request c) (withError .none w) hready.1
  generalize hbuild : (request c).build k (withError .none w) = exit at houtcome
  cases houtcome with
  | rejected hnot => exact absurd haccepts.2 hnot
  | exhausted size _ hsmall =>
      change w.client.size < 168 at hsmall
      rw [hready.2] at hsmall
      exact absurd hsmall (by decide)
  | built rest mallocs _ _ =>
      have := HandsOver.intro (k := k) (c := c) (w := w) _ extra haccepts.1 hparts hbuild
      rwa [framed_pending] at this

theorem bodySize_eq {c : Command} {extra : List (List UInt8)} (h : parts c = some extra) :
    bodySize c = structSize (request c).command.layout + extra.flatten.length ∧
      (request c).msgSize = UInt32.ofNat extra.flatten.length := by
  cases c with
  | queuePush name msg =>
      cases h
      have hextra : [bytesLE 4 msg.expire.toNat, msg.data].flatten.length = 4 + msg.size := by
        simp [EmqMsg.size]
      rw [hextra]
      exact ⟨Nat.add_assoc 64 4 msg.size, rfl⟩
  | routePush name key msg =>
      cases h
      have hextra : [bytesLE 4 msg.expire.toNat, msg.data].flatten.length = 4 + msg.size := by
        simp [EmqMsg.size]
      rw [hextra]
      exact ⟨Nat.add_assoc 96 4 msg.size, rfl⟩
  | channelPublish name topic msg =>
      cases h
      have hextra : [msg.data].flatten.length = 0 + msg.size := by simp [EmqMsg.size]
      rw [hextra]
      exact ⟨congrArg (96 + ·) (Nat.zero_add msg.size).symm, rfl⟩
  | _ => cases h

theorem transmitted_handsOver {k : Kernel} {c : Command} {w : World} {iov : List (List UInt8)}
    (h : HandsOver k c w iov) : transmitted iov = 8 + bodySize c := by
  obtain ⟨haccepts, extra, hparts, rfl⟩ := handsOver_eq h
  rw [transmitted_eq, List.flatten_cons, List.length_append, Request.bytes_length haccepts.2,
    (bodySize_eq hparts).1]
  omega

/-- Both additions and both conversions are ones of `uint32_t`, so that the header holds
the size of the body modulo 2^32. -/
theorem declared_handsOver {k : Kernel} {c : Command} {w : World} {iov : List (List UInt8)}
    (h : HandsOver k c w iov) : declared iov = bodySize c % 4294967296 := by
  obtain ⟨haccepts, extra, hparts, rfl⟩ := handsOver_eq h
  obtain ⟨hbody, hmsg⟩ := bodySize_eq hparts
  rw [declared, List.flatten_cons, Request.bytes, requestBytes, List.append_assoc,
    ProtocolRequestHeader.parse_bytes, emqSetHeaderRequest, members_length haccepts.2, hmsg,
    hbody, UInt32.toNat_ofNat', UInt32.toNat_ofNat', Nat.add_mod_mod]

/-- The bytes handed over are what the header declares iff the body is shorter than
2^32 bytes. -/
theorem transmitted_eq_declared_iff (k : Kernel) (c : Command) (w : World)
    (iov : List (List UInt8)) (h : HandsOver k c w iov) :
    transmitted iov = 8 + declared iov ↔ bodySize c < 4294967296 := by
  rw [transmitted_handsOver h, declared_handsOver h]
  omega

def hugePush (data : List UInt8) : Command := .queuePush queueQ ⟨data, 0, 0, false⟩

theorem hugePush_wraps {data : List UInt8} (hdata : data.length = 4294967228) :
    ∃ iov, HandsOver generous (hugePush data) (World.connected [] []) iov ∧
      transmitted iov = 4294967304 ∧ declared iov = 0 := by
  have haccepts : Accepts (hugePush data) := by
    refine ⟨?_, ?_⟩
    · change decide (1 ≤ data.length) = true
      rw [hdata]
      rfl
    · change (Request.queuePush queueQ _).Accepted
      rw [Request.accepted_iff_limits]
      exact (by decide : ∀ p ∈ [(queueQ, 64)], strlenz p.1 ≤ p.2)
  have hbody : bodySize (hugePush data) = 4294967296 := by
    change 64 + 4 + data.length = _
    rw [hdata]
  have hparts : parts (hugePush data) = some [bytesLE 4 0, data] := rfl
  have hhands := handsOver_of_accepts (k := generous) (w := World.connected [] [])
    (ready_connected [] []) haccepts hparts
  refine ⟨_, hhands, ?_, ?_⟩
  · rw [transmitted_handsOver hhands, hbody]
  · rw [declared_handsOver hhands, hbody]

/-- The header of a push of 2^32 - 68 bytes declares an empty body. -/
theorem hugePush_undeclared :
    ¬ ∀ (k : Kernel) (c : Command) (w : World) (iov : List (List UInt8)),
      Reachable k w → HandsOver k c w iov → transmitted iov = 8 + declared iov := by
  intro h
  obtain ⟨iov, hhands, htransmitted, hdeclared⟩ :=
    hugePush_wraps (List.length_replicate (n := 4294967228) (a := 0))
  have := h generous _ _ iov ⟨[], [], .refl⟩ hhands
  rw [htransmitted, hdeclared] at this
  omega

theorem transmitted_eq_declared_iff_small :
    ∃ iov, HandsOver generous (hugePush [7]) (World.connected [] []) iov ∧
      transmitted iov = 8 + declared iov := by
  have hparts : parts (hugePush [7]) = some [bytesLE 4 0, [7]] := rfl
  have hhands := handsOver_of_accepts (k := generous) (w := World.connected [] [])
    (ready_connected [] []) (by decide) hparts
  exact ⟨_, hhands, (transmitted_eq_declared_iff generous _ _ _ hhands).mpr (by decide)⟩

end Libemq.FrameLength
