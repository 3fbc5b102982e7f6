import Libemq.Completion
import Libemq.Framing
import Libemq.Lists
import Libemq.Runs

namespace Libemq.ListFormat

open Libemq.CStrings
open Libemq.PackedLayout (bytesLE valueLE bytesLE_length valueLE_bytesLE)
open Libemq.ExitCode
open Libemq.Client
open Libemq.Network
open Libemq.Protocol
open Libemq.Packet
open Libemq.Commands
open Libemq.LinkedLists
open Libemq.Lists
open Libemq.Transactions
open Libemq.Responses
open Libemq.Calls
open Libemq.Completion
open Libemq.Framing
open Libemq.Runs

/-- A record on the wire. The arrays are as the server has them, terminated or not. -/
def encodeRecord : Record → List UInt8
  | .user user => user.name ++ (user.password ++ bytesLE 8 user.perm.toNat)
  | .queue queue =>
      queue.name ++ (bytesLE 4 queue.maxMsg.toNat ++ (bytesLE 4 queue.maxMsgSize.toNat ++
        (bytesLE 4 queue.flags.toNat ++ (bytesLE 4 queue.size.toNat ++
          (bytesLE 4 queue.declaredClients.toNat ++
            bytesLE 4 queue.subscribedClients.toNat)))))
  | .route route => route.name ++ (bytesLE 4 route.flags.toNat ++ bytesLE 4 route.keys.toNat)
  | .routeKey routeKey => routeKey.key ++ routeKey.queue
  | .channel channel =>
      channel.name ++ (bytesLE 4 channel.flags.toNat ++ (bytesLE 4 channel.topics.toNat ++
        bytesLE 4 channel.patterns.toNat))

def OfKind : RecordKind → Record → Prop
  | .users, .user user => user.name.length = 32 ∧ user.password.length = 32
  | .queues, .queue queue => queue.name.length = 64
  | .routes, .route route => route.name.length = 64
  | .routeKeys, .routeKey routeKey => routeKey.key.length = 32 ∧ routeKey.queue.length = 64
  | .channels, .channel channel => channel.name.length = 64
  | _, _ => False

instance (kind : RecordKind) (record : Record) : Decidable (OfKind kind record) := by
  cases kind <;> cases record <;> simp only [OfKind] <;> infer_instance

theorem encodeRecord_length {kind : RecordKind} {record : Record} (h : OfKind kind record) :
    (encodeRecord record).length = kind.size := by
  cases kind <;> cases record <;> simp_all [OfKind, encodeRecord, RecordKind.size]

theorem drop_front {front rest : List UInt8} {n : Nat} (h : front.length = n) (m : Nat) :
    (front ++ rest).drop (n + m) = rest.drop m := by
  rw [← h, List.drop_length_add_append]

theorem uint32At_front {front rest : List UInt8} {n : Nat} (h : front.length = n) (m : Nat) :
    uint32At (n + m) (front ++ rest) = uint32At m rest := by
  rw [uint32At, drop_front h, uint32At]

theorem uint32At_zero (n : UInt32) (rest : List UInt8) :
    uint32At 0 (bytesLE 4 n.toNat ++ rest) = n := by
  rw [uint32At, List.drop_zero, List.take_left' (bytesLE_length ..),
    valueLE_bytesLE n.toNat_lt, UInt32.ofNat_toNat]

theorem uint32At_last (n : UInt32) : uint32At 0 (bytesLE 4 n.toNat) = n := by
  have := uint32At_zero n []
  rwa [List.append_nil] at this

theorem uint64_last (n : UInt64) : UInt64.ofNat (valueLE (bytesLE 8 n.toNat)) = n := by
  rw [valueLE_bytesLE (by exact n.toNat_lt), UInt64.ofNat_toNat]

theorem decode_encodeRecord {kind : RecordKind} {record : Record} (h : OfKind kind record) :
    kind.decode (encodeRecord record) = record := by
  have hnext := fun (n : UInt32) (rest : List UInt8) (m : Nat) =>
    @uint32At_front (bytesLE 4 n.toNat) rest 4 (bytesLE_length ..) m
  cases kind <;> cases record <;> simp only [OfKind] at h
  case users.user user =>
    obtain ⟨hname, hpassword⟩ := h
    have hperm : ((encodeRecord (.user user)).drop 64).take 8 = bytesLE 8 user.perm.toNat := by
      rw [encodeRecord, ← List.append_assoc, List.drop_left' (by simp [hname, hpassword]),
        List.take_of_length_le (by simp)]
    simp only [RecordKind.decode, hperm, uint64_last]
    simp only [encodeRecord, List.take_left' hname, List.drop_left' hname,
      List.take_left' hpassword]
  case queues.queue queue =>
    have hfirst := fun (rest : List UInt8) (m : Nat) => @uint32At_front queue.name rest 64 h m
    simp only [RecordKind.decode, encodeRecord, List.take_left' h, hfirst _ 0, hfirst _ 4,
      hfirst _ 8, hfirst _ 12, hfirst _ 16, hfirst _ 20, hnext _ _ 0, hnext _ _ 4, hnext _ _ 8,
      hnext _ _ 12, hnext _ _ 16, uint32At_zero, uint32At_last]
  case routes.route route =>
    have hfirst := fun (rest : List UInt8) (m : Nat) => @uint32At_front route.name rest 64 h m
    simp only [RecordKind.decode, encodeRecord, List.take_left' h, hfirst _ 0, hfirst _ 4,
      hnext _ _ 0, uint32At_zero, uint32At_last]
  case routeKeys.routeKey routeKey =>
    obtain ⟨hkey, hqueue⟩ := h
    simp only [RecordKind.decode, encodeRecord, List.take_left' hkey, List.drop_left' hkey,
      List.take_of_length_le hqueue.le]
  case channels.channel channel =>
    have hfirst := fun (rest : List UInt8) (m : Nat) => @uint32At_front channel.name rest 64 h m
    simp only [RecordKind.decode, encodeRecord, List.take_left' h, hfirst _ 0, hfirst _ 4,
      hfirst _ 8, hnext _ _ 0, hnext _ _ 4, uint32At_zero, uint32At_last]

theorem stream_length {kind : RecordKind} {records : List Record}
    (h : ∀ record ∈ records, OfKind kind record) :
    (stream encodeRecord records).length = records.length * kind.size := by
  induction records with
  | nil => simp [stream_nil]
  | cons record records ih =>
      rw [stream_cons, List.length_append, encodeRecord_length (h record List.mem_cons_self),
        ih fun r hr => h r (List.mem_cons_of_mem _ hr), List.length_cons]
      ring

theorem recordsFrom_stream {kind : RecordKind} (records : List Record) :
    ∀ front : List UInt8, (∀ record ∈ records, OfKind kind record) →
      recordsFrom kind (front ++ stream encodeRecord records) front.length = records := by
  induction records with
  | nil =>
      intro front _
      exact recordsFrom_of_done (by simp [stream_nil])
  | cons record records ih =>
      intro front h
      have hrecord := h record List.mem_cons_self
      have hlength := encodeRecord_length hrecord
      have hrest := ih (front ++ encodeRecord record) fun r hr => h r (List.mem_cons_of_mem _ hr)
      rw [List.length_append, hlength, List.append_assoc] at hrest
      rw [recordsFrom_step (by simp [stream_cons, hlength]), stream_cons, hrest, List.drop_left,
        List.take_left' hlength, decode_encodeRecord hrecord]

def listHeader (kind : RecordKind) (records : List Record) : ProtocolResponseHeader where
  magic := emqProtocolRes
  cmd := kind.command.code
  status := ProtocolResponseStatus.success.code
  bodylen := UInt32.ofNat (stream encodeRecord records).length

/-- The list that a list function returns: it has these values, and so many nodes, which
an iterator goes through up to its first `NULL`. -/
def Lists (records held : List Record) : Prop :=
  ∀ result, Edited (records.map Edit.add) result → ∃ list h, result = some (list, h) ∧
    list.length = records.length ∧
    EmqList.iterate h (records.length + 1) list.rewind = some held ∧
    EmqList.iterate h records.length list.rewind = none

theorem edited_add (records : List Record) :
    edited (records.map Edit.add) = records.reverse := by
  induction records using List.reverseRecOn with
  | nil => rfl
  | append_singleton records record ih =>
      rw [List.map_append, List.map_singleton, edited_append, ih, List.reverse_append]
      rfl

theorem lists_reverse (records : List Record) : Lists records records.reverse := by
  intro result hedited
  obtain ⟨list, h, rfl, hholds⟩ := hedited.holds
  rw [edited_add] at hholds
  obtain ⟨hlength, hiterate, hshort⟩ := iterate_holds hholds
  rw [List.length_reverse] at hlength hiterate hshort
  exact ⟨list, h, rfl, hlength, hiterate, hshort⟩

/-- A list function returns the records of a successful response, the last one first. -/
theorem list_decodes (k : Kernel) (hk : Kernel.Reliable k) (c : Command) (kind : RecordKind)
    (hc : finish c = .records kind) (haccepts : Accepts c) (records : List Record)
    (hrecords : ∀ record ∈ records, OfKind kind record)
    (hfits : (stream encodeRecord records).length ≤ intMax) (w : World)
    (hready : Ready w.client) (rest : List UInt8)
    (hinput : w.input =
      (listHeader kind records).bytes ++ stream encodeRecord records ++ rest) :
    ∃ w', exec k c w = .returned (.list (some records.reverse)) w' ∧
      w'.client.status = .ok ∧ w'.input = rest ∧ Lists records records.reverse := by
  have hbodylen : (listHeader kind records).bodylen.toNat =
      (stream encodeRecord records).length := by
    unfold intMax at hfits
    exact UInt32.toNat_ofNat_of_lt' (by
      change _ < 4294967296
      omega)
  have hread : ¬ Misread k w.writes (frame c w.client.noack).length (parts c) :=
    not_misread_of_awaits (by rw [hc]; rfl) _ _
  have hcheck : Finish.check (finish c) (listHeader kind records) = .ok := by
    rw [hc]
    simp [Finish.check, emqCheckResponseHeaderMini, listHeader]
  have hsize : BodySize (finish c) (stream encodeRecord records).length := by
    rw [hc]
    refine ⟨hfits, ?_⟩
    rw [stream_length hrecords]
    exact Nat.dvd_mul_left ..
  obtain ⟨w', hexec, hdone⟩ := answered_completes hk hready haccepts hread (by rw [hc]; rfl)
    hinput hcheck rfl hbodylen hsize
  have hbody : (w.input.drop 8).take (stream encodeRecord records).length =
      stream encodeRecord records := by
    rw [hinput, ProtocolResponseHeader.bytes, List.append_assoc,
      List.drop_left' (headerBytes_length ..), List.take_left]
  have hreply := recordsFrom_stream records [] hrecords
  rw [List.nil_append, List.length_nil] at hreply
  rw [hc] at hexec
  simp only [Finish.reply, Finish.head, Finish.size, hbody, hreply] at hexec
  exact ⟨w', hexec, hdone.status, hdone.input, lists_reverse records⟩

def administrator : Record := .user ⟨List.replicate 32 97, List.replicate 32 0, 255⟩

def guest : Record := .user ⟨List.replicate 32 103, List.replicate 32 255, 1⟩

def listing : World :=
  World.connected [] ((listHeader .users [administrator, guest]).bytes ++
    stream encodeRecord [administrator, guest] ++ [])

theorem list_decodes_users :
    ∃ w', exec generous .userList listing = .returned (.list (some [guest, administrator])) w' ∧
      w'.client.status = .ok ∧ w'.input = [] ∧
      Lists [administrator, guest] [guest, administrator] :=
  list_decodes generous generous_reliable .userList .users rfl (by decide)
    [administrator, guest] (by decide) (by decide +kernel) listing (ready_connected _ _) [] rfl

end Libemq.ListFormat
