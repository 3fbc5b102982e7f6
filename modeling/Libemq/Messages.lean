import Libemq.Blocks
import Libemq.MessageBounds

/-!
The functions that make, copy and release messages, on memory in which a fresh `emq_msg`
holds whatever was left there.
-/

namespace Libemq.Messages

open Libemq.CStrings
open Libemq.Blocks
open Libemq.ExitCode
open Libemq.Client
open Libemq.Network
open Libemq.Responses

/-- `emq_msg`, as it is in memory. Nothing stands for a data pointer that is `NULL`. -/
structure MsgCell where
  data : Option Pointer
  size : Nat
  tag : UInt64
  expire : UInt32
  zeroCopy : Int
  deriving DecidableEq, Repr

inductive Cell where
  | msg (msg : MsgCell)
  | bytes (bytes : List UInt8)
  deriving DecidableEq, Repr

/-- What `malloc` does with each of its calls, and what the memory that it gives holds. -/
structure Allocator where
  grants : (call size : Nat) → Bool
  leftover : (call : Nat) → MsgCell
  junk : (call i : Nat) → UInt8

/-- The memory that belongs to the caller. -/
abbrev CallerMemory := Nat → List UInt8

variable (a : Allocator) (caller : CallerMemory)

def mallocMsg (mem : Memory Cell) : Option Nat × Memory Cell :=
  if a.grants mem.calls 32 then (some mem.calls, mem.alloc (.msg (a.leftover mem.calls)))
  else (none, mem.refuse)

def mallocBytes (size : Nat) (mem : Memory Cell) : Option Nat × Memory Cell :=
  if a.grants mem.calls size then
    (some mem.calls, mem.alloc (.bytes ((List.range size).map (a.junk mem.calls))))
  else (none, mem.refuse)

def msgAt (msg : Nat) (mem : Memory Cell) : Option MsgCell :=
  match mem.cells msg with
  | some (.msg cell) => some cell
  | _ => none

def bytesAt (block : Nat) (mem : Memory Cell) : Option (List UInt8) :=
  match mem.cells block with
  | some (.bytes bytes) => some bytes
  | _ => none

/-- Assignments to members of an `emq_msg`. Nothing stands for undefined behaviour, here and
below. -/
def setMsg (msg : Nat) (f : MsgCell → MsgCell) (mem : Memory Cell) : Option (Memory Cell) := do
  let cell ← msgAt msg mem
  mem.store msg (.msg (f cell))

def pointee (p : Pointer) (mem : Memory Cell) : Option (List UInt8) :=
  match p with
  | .foreign c => some (caller c)
  | .block b => bytesAt b mem

def read (p : Pointer) (size : Nat) (mem : Memory Cell) : Option (List UInt8) := do
  let bytes ← pointee caller p mem
  if size ≤ bytes.length then some (bytes.take size) else none

def write (block : Nat) (data : List UInt8) (mem : Memory Cell) : Option (Memory Cell) := do
  let bytes ← bytesAt block mem
  let bytes ← memcpy bytes data
  mem.store block (.bytes bytes)

/-- `emq_msg_create`: the message, or nothing for `NULL`, and the memory after it. -/
def emqMsgCreate (data : Pointer) (size : Nat) (zeroCopy : Int) (mem : Memory Cell) :
    Option (Option Nat × Memory Cell) :=
  match mallocMsg a mem with
  | (none, mem) => some (none, mem)
  | (some msg, mem) => do
      let mem ← setMsg msg
        (fun m => { m with size := size, tag := 0, expire := 0, zeroCopy := zeroCopy }) mem
      if zeroCopy = 0 then
        let (block, mem) := mallocBytes a size mem
        let mem ← setMsg msg (fun m => { m with data := block.map .block }) mem
        match block with
        | none => do
            let mem ← mem.free (.block msg)
            some (none, mem)
        | some block => do
            let bytes ← read caller data size mem
            let mem ← write block bytes mem
            some (some msg, mem)
      else do
        let mem ← setMsg msg (fun m => { m with data := some data }) mem
        some (some msg, mem)

/-- `emq_msg_copy`. It leaves `zero_copy` as it finds it. -/
def emqMsgCopy (msg : Nat) (mem : Memory Cell) : Option (Option Nat × Memory Cell) :=
  match mallocMsg a mem with
  | (none, mem) => some (none, mem)
  | (some newMsg, mem) => do
      let source ← msgAt msg mem
      let (block, mem) := mallocBytes a source.size mem
      let mem ← setMsg newMsg
        (fun m => { m with
          data := block.map .block, size := source.size, tag := source.tag,
          expire := source.expire }) mem
      match block with
      | none => do
          let mem ← mem.free (.block newMsg)
          some (none, mem)
      | some block => do
          let data ← source.data
          let bytes ← read caller data source.size mem
          let mem ← write block bytes mem
          some (some newMsg, mem)

def emqMsgExpire (msg : Nat) (time : UInt32) (mem : Memory Cell) : Option (Memory Cell) :=
  setMsg msg (fun m => { m with expire := time }) mem

def emqMsgRelease (msg : Nat) (mem : Memory Cell) : Option (Memory Cell) := do
  let cell ← msgAt msg mem
  let mem ← match cell.data with
    | some data => if cell.zeroCopy = 0 then mem.free data else some mem
    | none => some mem
  mem.free (.block msg)

/-- `emq_read_message`, with the bytes that `emq_client_read` puts into the buffer, or nothing
when it fails. -/
def emqReadMessage (size : Nat) (received : Option (List UInt8)) (mem : Memory Cell) :
    Option (Option Nat × Memory Cell) :=
  match mallocMsg a mem with
  | (none, mem) => some (none, mem)
  | (some msg, mem) => do
      let (block, mem) := mallocBytes a size mem
      let mem ← setMsg msg (fun _ => ⟨block.map .block, size, 0, 0, 0⟩) mem
      match block with
      | none => do
          let mem ← mem.free (.block msg)
          some (none, mem)
      | some block =>
          match received with
          | none => do
              let mem ← mem.free (.block block)
              let mem ← mem.free (.block msg)
              some (none, mem)
          | some data => do
              let mem ← write block data mem
              some (some msg, mem)

/-- `emq_read_message_tag`, with the tag that is read first, or nothing when that fails. The
result of `emq_read_message` is not looked at. -/
def emqReadMessageTag (size : Nat) (tag : Option UInt64) (received : Option (List UInt8))
    (mem : Memory Cell) : Option (Option Nat × Memory Cell) :=
  match tag with
  | none => some (none, mem)
  | some tag => do
      let (msg, mem) ← emqReadMessage a
        ((size + 18446744073709551616 - 8) % 18446744073709551616) received mem
      let msg ← msg
      let mem ← setMsg msg (fun m => { m with tag := tag }) mem
      some (some msg, mem)

def messageData (msg : Nat) (mem : Memory Cell) : Option (List UInt8) := do
  let cell ← msgAt msg mem
  let data ← cell.data
  read caller data cell.size mem

section Memory

variable {a : Allocator} {caller : CallerMemory} {mem mem' : Memory Cell} {msg : Nat}
  {cell : MsgCell} {bytes data : List UInt8} {p : Pointer} {size : Nat}

abbrev owning (cell : MsgCell) (bytes : List UInt8) (mem : Memory Cell) : Memory Cell :=
  (mem.alloc (.msg cell)).alloc (.bytes bytes)

theorem msgAt_eq_some : msgAt msg mem = some cell ↔ mem.cells msg = some (.msg cell) := by
  unfold msgAt
  cases mem.cells msg with
  | none => simp
  | some old => cases old <;> simp

theorem bytesAt_eq_some {block : Nat} :
    bytesAt block mem = some bytes ↔ mem.cells block = some (.bytes bytes) := by
  unfold bytesAt
  cases mem.cells block with
  | none => simp
  | some old => cases old <;> simp

theorem msgAt_extends (h : mem.Extends mem') (hmsg : msgAt msg mem = some cell) :
    msgAt msg mem' = some cell :=
  msgAt_eq_some.mpr (h.cells (msgAt_eq_some.mp hmsg))

theorem pointee_extends (h : mem.Extends mem') (hp : pointee caller p mem = some bytes) :
    pointee caller p mem' = some bytes := by
  cases p with
  | foreign c => exact hp
  | block b => exact bytesAt_eq_some.mpr (h.cells (bytesAt_eq_some.mp hp))

theorem read_eq_some : read caller p size mem = some data ↔
    ∃ bytes, pointee caller p mem = some bytes ∧ size ≤ bytes.length ∧ bytes.take size = data := by
  simp [read, Option.bind_eq_some_iff]

theorem read_extends (h : mem.Extends mem') (hread : read caller p size mem = some data) :
    read caller p size mem' = some data := by
  obtain ⟨bytes, hp, hdata⟩ := read_eq_some.mp hread
  exact read_eq_some.mpr ⟨bytes, pointee_extends h hp, hdata⟩

theorem read_whole {block : Nat} (hblock : mem.cells block = some (.bytes bytes))
    (hsize : bytes.length = size) : read caller (.block block) size mem = some bytes := by
  refine read_eq_some.mpr ⟨bytes, bytesAt_eq_some.mpr hblock, hsize.ge, ?_⟩
  rw [← hsize, List.take_length]

theorem read_length (hread : read caller p size mem = some data) : data.length = size := by
  obtain ⟨bytes, _, hsize, rfl⟩ := read_eq_some.mp hread
  rw [List.length_take, Nat.min_eq_left hsize]

theorem messageData_eq_some : messageData caller msg mem = some data ↔
    ∃ cell p, msgAt msg mem = some cell ∧ cell.data = some p ∧
      read caller p cell.size mem = some data := by
  simp [messageData, Option.bind_eq_some_iff]

theorem messageData_congr (hmsg : msgAt msg mem = some cell)
    (hsame : mem'.cells msg = mem.cells msg)
    (hblock : ∀ b, cell.data = some (.block b) → mem'.cells b = mem.cells b) :
    messageData caller msg mem' = messageData caller msg mem := by
  have hmsg' : msgAt msg mem' = some cell := by rw [msgAt_eq_some, hsame, ← msgAt_eq_some, hmsg]
  rw [messageData, messageData, hmsg, hmsg']
  simp only [Option.bind_eq_bind, Option.bind_some]
  refine Option.bind_congr fun p hp => ?_
  cases p with
  | foreign c => rfl
  | block b => rw [read, read, pointee, pointee, bytesAt, bytesAt, hblock b hp]

theorem setMsg_alloc (f : MsgCell → MsgCell) :
    setMsg mem.calls f (mem.alloc (.msg cell)) = some (mem.alloc (.msg (f cell))) := by
  simp [setMsg, msgAt]

theorem setMsg_refuse (f : MsgCell → MsgCell) :
    setMsg mem.calls f (mem.alloc (.msg cell)).refuse =
      some (mem.alloc (.msg (f cell))).refuse := by
  simp [setMsg, msgAt, Memory.store, Memory.refuse, Memory.alloc]

theorem owning_msg : (owning cell bytes mem).cells mem.calls = some (.msg cell) := by
  rw [Memory.alloc_cells_of_ne (Nat.ne_of_lt (Nat.lt_succ_self _)), Memory.alloc_cells_self]

theorem owning_bytes : (owning cell bytes mem).cells (mem.calls + 1) = some (.bytes bytes) :=
  Memory.alloc_cells_self

theorem setMsg_owning (f : MsgCell → MsgCell) :
    setMsg mem.calls f (owning cell bytes mem) = some (owning (f cell) bytes mem) := by
  rw [setMsg, msgAt_eq_some.mpr owning_msg]
  simp only [Option.bind_eq_bind, Option.bind_some]
  rw [Memory.store_alloc_of_ne (Nat.ne_of_lt (Nat.lt_succ_self _)), Memory.store_alloc]
  rfl

theorem memcpy_whole (hlength : data.length = bytes.length) : memcpy bytes data = some data := by
  rw [memcpy, if_pos (le_of_eq hlength), hlength, List.drop_length, List.append_nil]

theorem memcpy_length {dest src result : List UInt8} (h : memcpy dest src = some result) :
    result.length = dest.length := by
  unfold memcpy at h
  by_cases hle : src.length ≤ dest.length
  · rw [if_pos hle] at h
    rw [← Option.some.inj h, List.length_append, List.length_drop]
    omega
  · rw [if_neg hle] at h
    cases h

theorem write_owning : write (mem.calls + 1) data (owning cell bytes mem) =
    (memcpy bytes data).map fun bytes => owning cell bytes mem := by
  rw [write, bytesAt_eq_some.mpr owning_bytes]
  simp only [Option.bind_eq_bind, Option.bind_some]
  cases memcpy bytes data with
  | none => rfl
  | some copied => exact Memory.store_alloc

/-- What can become of a message that is to have these members and a buffer of its own. -/
inductive Outcome (a : Allocator) (mem : Memory Cell) (cell : MsgCell) (bytes : List UInt8) :
    Option Nat × Memory Cell → Prop
  | refused (hmsg : a.grants mem.calls 32 = false) : Outcome a mem cell bytes (none, mem.refuse)
  | undone (left : MsgCell) (hmsg : a.grants mem.calls 32 = true)
      (hdata : a.grants (mem.calls + 1) cell.size = false) :
      Outcome a mem cell bytes (none, (mem.alloc (.msg left)).refuse.drop mem.calls)
  | made (hmsg : a.grants mem.calls 32 = true)
      (hdata : a.grants (mem.calls + 1) cell.size = true) :
      Outcome a mem cell bytes (some mem.calls, owning cell bytes mem)

theorem mallocMsg_granted (h : a.grants mem.calls 32 = true) :
    mallocMsg a mem = (some mem.calls, mem.alloc (.msg (a.leftover mem.calls))) := if_pos h

theorem mallocMsg_refused (h : a.grants mem.calls 32 = false) :
    mallocMsg a mem = (none, mem.refuse) := if_neg (by simp [h])

theorem mallocBytes_granted (h : a.grants (mem.calls + 1) size = true) :
    ∃ junk, junk.length = size ∧ mallocBytes a size (mem.alloc (.msg cell)) =
      (some (mem.calls + 1), owning cell junk mem) :=
  ⟨_, by simp, if_pos h⟩

theorem mallocBytes_refused (h : a.grants (mem.calls + 1) size = false) :
    mallocBytes a size (mem.alloc (.msg cell)) = (none, (mem.alloc (.msg cell)).refuse) :=
  if_neg (by simp [h])

theorem free_undone : (mem.alloc (.msg cell)).refuse.free (.block mem.calls) =
    some ((mem.alloc (.msg cell)).refuse.drop mem.calls) :=
  Memory.free_block_eq Memory.alloc_cells_self

theorem extends_owning (hsane : mem.Sane) : mem.Extends (owning cell bytes mem) :=
  (hsane.extends_alloc _).trans ((hsane.alloc _).extends_alloc _)

theorem emqMsgCreate_outcome (hsane : mem.Sane) (hread : read caller p size mem = some data) :
    ∃ result, emqMsgCreate a caller p size 0 mem = some result ∧
      Outcome a mem ⟨some (.block (mem.calls + 1)), size, 0, 0, 0⟩ data result := by
  cases hmsg : a.grants mem.calls 32 with
  | false =>
      rw [emqMsgCreate, mallocMsg_refused hmsg]
      exact ⟨_, rfl, .refused hmsg⟩
  | true =>
      rw [emqMsgCreate, mallocMsg_granted hmsg]
      simp only [setMsg_alloc, Option.bind_eq_bind, Option.bind_some, if_true]
      cases hdata : a.grants (mem.calls + 1) size with
      | false =>
          rw [mallocBytes_refused hdata]
          simp only [setMsg_refuse, Option.bind_some, free_undone]
          exact ⟨_, rfl, .undone _ hmsg hdata⟩
      | true =>
          obtain ⟨junk, hjunk, hmalloc⟩ := mallocBytes_granted hdata
          have hlength := read_length hread
          rw [hmalloc]
          simp only [setMsg_owning, Option.bind_some, read_extends (extends_owning hsane) hread,
            write_owning, memcpy_whole (hlength.trans hjunk.symm), Option.map_some]
          exact ⟨_, rfl, .made hmsg hdata⟩

theorem emqMsgCreate_borrowing {zeroCopy : Int} (hzero : zeroCopy ≠ 0) :
    emqMsgCreate a caller p size zeroCopy mem =
      if a.grants mem.calls 32 then
        some (some mem.calls, mem.alloc (.msg ⟨some p, size, 0, 0, zeroCopy⟩))
      else some (none, mem.refuse) := by
  cases hmsg : a.grants mem.calls 32 with
  | false => simp [emqMsgCreate, mallocMsg_refused hmsg]
  | true => simp [emqMsgCreate, mallocMsg_granted hmsg, setMsg_alloc, hzero]

/-- A copy has the members of its source and its own buffer. Its `zero_copy` is whatever the
fresh memory holds. -/
theorem emqMsgCopy_outcome (hsane : mem.Sane) (hmsg : msgAt msg mem = some cell)
    (hp : cell.data = some p) (hread : read caller p cell.size mem = some data) :
    ∃ result, emqMsgCopy a caller msg mem = some result ∧
      Outcome a mem ⟨some (.block (mem.calls + 1)), cell.size, cell.tag, cell.expire,
        (a.leftover mem.calls).zeroCopy⟩ data result := by
  cases hnew : a.grants mem.calls 32 with
  | false =>
      rw [emqMsgCopy, mallocMsg_refused hnew]
      exact ⟨_, rfl, .refused hnew⟩
  | true =>
      rw [emqMsgCopy, mallocMsg_granted hnew]
      simp only [msgAt_extends (hsane.extends_alloc _) hmsg, Option.bind_eq_bind,
        Option.bind_some]
      cases hdata : a.grants (mem.calls + 1) cell.size with
      | false =>
          rw [mallocBytes_refused hdata]
          simp only [setMsg_refuse, Option.bind_some, free_undone]
          exact ⟨_, rfl, .undone _ hnew hdata⟩
      | true =>
          obtain ⟨junk, hjunk, hmalloc⟩ := mallocBytes_granted hdata
          have hlength := read_length hread
          rw [hmalloc]
          simp only [setMsg_owning, Option.bind_some, hp,
            read_extends (extends_owning hsane) hread,
            write_owning, memcpy_whole (hlength.trans hjunk.symm), Option.map_some]
          exact ⟨_, rfl, .made hnew hdata⟩

theorem emqReadMessage_some {received : Option (List UInt8)} {result : Nat}
    (h : emqReadMessage a size received mem = some (some result, mem')) :
    result = mem.calls ∧ ∃ bytes, bytes.length = size ∧
      mem' = owning ⟨some (.block (mem.calls + 1)), size, 0, 0, 0⟩ bytes mem := by
  cases hmsg : a.grants mem.calls 32 with
  | false =>
      rw [emqReadMessage, mallocMsg_refused hmsg] at h
      cases h
  | true =>
      rw [emqReadMessage, mallocMsg_granted hmsg] at h
      simp only [Option.bind_eq_bind] at h
      cases hdata : a.grants (mem.calls + 1) size with
      | false =>
          rw [mallocBytes_refused hdata] at h
          simp only [setMsg_refuse, Option.bind_some, free_undone] at h
          cases h
      | true =>
          obtain ⟨junk, hjunk, hmalloc⟩ := mallocBytes_granted hdata
          rw [hmalloc] at h
          simp only [setMsg_owning, Option.bind_some] at h
          cases received with
          | none =>
              obtain ⟨_, _, h⟩ := Option.bind_eq_some_iff.mp h
              obtain ⟨_, _, h⟩ := Option.bind_eq_some_iff.mp h
              cases h
          | some data =>
              simp only [write_owning] at h
              obtain ⟨_, hwrite, h⟩ := Option.bind_eq_some_iff.mp h
              obtain ⟨copied, hcopied, rfl⟩ := Option.map_eq_some_iff.mp hwrite
              cases h
              exact ⟨rfl, copied, (memcpy_length hcopied).trans hjunk, rfl⟩

theorem emqReadMessageTag_some {tag : Option UInt64} {received : Option (List UInt8)}
    {result : Nat} (h : emqReadMessageTag a size tag received mem = some (some result, mem')) :
    result = mem.calls ∧ ∃ cell bytes, cell.data = some (.block (mem.calls + 1)) ∧
      bytes.length = cell.size ∧ cell.zeroCopy = 0 ∧ mem' = owning cell bytes mem := by
  cases tag with
  | none => cases h
  | some tag =>
      unfold emqReadMessageTag at h
      generalize (size + 18446744073709551616 - 8) % 18446744073709551616 = rest at h
      obtain ⟨⟨msg, mem1⟩, hread, h⟩ := Option.bind_eq_some_iff.mp h
      obtain ⟨msg, rfl, h⟩ := Option.bind_eq_some_iff.mp h
      obtain ⟨rfl, bytes, hbytes, rfl⟩ := emqReadMessage_some hread
      simp only [setMsg_owning, Option.bind_eq_bind, Option.bind_some] at h
      cases h
      exact ⟨rfl, _, bytes, rfl, hbytes, rfl, rfl⟩

theorem emqReadMessage_made (hmsg : a.grants mem.calls 32 = true)
    (hdata : a.grants (mem.calls + 1) data.length = true) :
    emqReadMessage a data.length (some data) mem =
      some (some mem.calls,
        owning ⟨some (.block (mem.calls + 1)), data.length, 0, 0, 0⟩ data mem) := by
  rw [emqReadMessage, mallocMsg_granted hmsg]
  simp only [Option.bind_eq_bind]
  obtain ⟨junk, hjunk, hmalloc⟩ := mallocBytes_granted hdata
  rw [hmalloc]
  simp only [setMsg_owning, Option.bind_some, write_owning, memcpy_whole hjunk.symm,
    Option.map_some]

/-- The release of a message that has a buffer of its own frees the buffer iff `zero_copy` is
not set. -/
theorem emqMsgRelease_owning {block : Nat} (hmsg : msgAt msg mem = some cell)
    (hdata : cell.data = some (.block block)) (hblock : bytesAt block mem = some bytes) :
    emqMsgRelease msg mem =
      some (if cell.zeroCopy = 0 then (mem.drop block).drop msg else mem.drop msg) := by
  have hne : msg ≠ block := by
    rintro rfl
    rw [msgAt_eq_some] at hmsg
    rw [bytesAt_eq_some, hmsg] at hblock
    cases hblock
  have hcell := msgAt_eq_some.mp hmsg
  rw [emqMsgRelease, hmsg]
  simp only [Option.bind_eq_bind, Option.bind_some, hdata]
  by_cases hzero : cell.zeroCopy = 0
  · have hleft : (mem.drop block).cells msg = some (.msg cell) := by
      rw [Memory.drop_cells_of_ne hne, hcell]
    rw [if_pos hzero, if_pos hzero, Memory.free_block_eq (bytesAt_eq_some.mp hblock)]
    exact Memory.free_block_eq hleft
  · rw [if_neg hzero, if_neg hzero]
    exact Memory.free_block_eq hcell

theorem emqMsgRelease_borrowing {c : Nat} (hmsg : msgAt msg mem = some cell)
    (hdata : cell.data = some (.foreign c)) (hzero : cell.zeroCopy ≠ 0) :
    emqMsgRelease msg mem = some (mem.drop msg) := by
  rw [emqMsgRelease, hmsg]
  simp only [Option.bind_eq_bind, Option.bind_some, hdata, if_neg hzero]
  exact Memory.free_block_eq (msgAt_eq_some.mp hmsg)

/-- The block holds this message. -/
def Stands (caller : CallerMemory) (msg : Nat) (mem : Memory Cell) (m : Client.EmqMsg) : Prop :=
  messageData caller msg mem = some m.data ∧
    ∃ cell, msgAt msg mem = some cell ∧ cell.size = m.size ∧ cell.tag = m.tag ∧
      cell.expire = m.expire ∧ (cell.zeroCopy ≠ 0 ↔ m.zeroCopy = true)

theorem messageData_owning (hdata : cell.data = some (.block (mem.calls + 1)))
    (hsize : bytes.length = cell.size) :
    messageData caller mem.calls (owning cell bytes mem) = some bytes := by
  exact messageData_eq_some.mpr
    ⟨cell, _, msgAt_eq_some.mpr owning_msg, hdata, read_whole owning_bytes hsize⟩

theorem stands_owning {m : EmqMsg} (hbytes : m.data = bytes) (hsize : cell.size = m.size)
    (htag : cell.tag = m.tag) (hexpire : cell.expire = m.expire)
    (hzero : cell.zeroCopy ≠ 0 ↔ m.zeroCopy = true)
    (hdata : cell.data = some (.block (mem.calls + 1))) :
    Stands caller mem.calls (owning cell bytes mem) m := by
  have hmsg := msgAt_eq_some.mpr (@owning_msg mem cell bytes)
  refine ⟨?_, cell, hmsg, hsize, htag, hexpire, hzero⟩
  rw [hbytes]
  exact messageData_owning hdata (by rw [hsize, ← hbytes, EmqMsg.size])

end Memory

/-- The function that the calls are modelled with returns the message that the memory
holds. -/
theorem emqReadMessageTag_refines {a : Allocator} {k : Kernel} {size : Nat} {m : EmqMsg}
    {w w' : World} {mem : Memory Cell} (hsize : size < 4294967296)
    (h : Commands.emqReadMessageTag k size w = .next (some m) w') (hgrants : a.grants = k.malloc)
    (hcalls : mem.calls = w.mallocs) :
    ∃ mem', emqReadMessageTag a size (some m.tag) (some m.data) mem =
        some (some mem.calls, mem') ∧
      Stands caller mem.calls mem' m := by
  have houtcome : ReadOutcome k 8 [] w (emqClientRead k 8 w) :=
    emqClientRead_outcome k (by decide) w
  unfold Commands.emqReadMessageTag at h
  unfold emqReadMessageTag
  have hcases := tagSize_cases hsize
  generalize hrest : (size + 18446744073709551616 - 8) % 18446744073709551616 = rest
    at h hcases ⊢
  generalize hread : emqClientRead k 8 w = exit at houtcome
  cases houtcome with
  | failed =>
      rw [Code.bind_of_next hread] at h
      cases h
  | whole reads henough hreads hpos =>
      rw [Code.bind_of_next hread] at h
      simp only at h
      generalize hw : received w 8 reads w.failures = w1 at h
      have hmallocs : w1.mallocs = mem.calls := by
        rw [← hw, hcalls]
        rfl
      have hmessage := emqReadMessage_outcome k hcases w1
      generalize hrun : Commands.emqReadMessage k rest w1 = exit at hmessage
      cases hmessage with
      | failed =>
          rw [Code.bind_of_next hrun] at h
          cases h
      | faulted =>
          rw [Code.bind_of_fault hrun] at h
          cases h
      | whole reads' mallocs hle henough' hreads' =>
          obtain ⟨hmsg, hdata, _⟩ := MessageBounds.emqReadMessage_some hcases hrun
          rw [Code.bind_of_next hrun] at h
          cases h
          rw [hmallocs, ← hgrants] at hmsg hdata
          have hlength : (w1.input.take rest).length = rest := by
            rw [List.length_take, Nat.min_eq_left henough']
          have hmade := @emqReadMessage_made a mem (w1.input.take rest) hmsg
            (hlength.symm ▸ hdata)
          rw [hlength] at hmade
          simp only [hmade, Option.bind_eq_bind, Option.bind_some, setMsg_owning]
          refine ⟨_, rfl, stands_owning rfl hlength.symm rfl rfl ?_ rfl⟩
          simp

end Libemq.Messages
