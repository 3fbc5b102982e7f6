import Libemq.Events
import Libemq.Relational

namespace Libemq.Segmentation

open Libemq.CStrings
open Libemq.ExitCode
open Libemq.Relational
open Libemq.Client
open Libemq.Network
open Libemq.Protocol
open Libemq.Packet
open Libemq.Commands
open Libemq.Transactions
open Libemq.Events

/-- The kernel with a `read` that never fails and delivers pieces of these sizes. -/
def reading (k : Kernel) (pieces : Nat → Nat → Nat) : Kernel :=
  { k with read := fun call n => some (pieces call n) }

theorem reading_readsOk (k : Kernel) (pieces : Nat → Nat → Nat) :
    Kernel.ReadsOk (reading k pieces) :=
  fun call n => ⟨pieces call n, rfl⟩

/-- The worlds differ at most in how often `read` was called. -/
def SameButReads (w w' : World) : Prop := ∃ reads, w' = { w with reads := reads }

/-- The code does the same from worlds that differ in nothing else. -/
abbrev Alike {α : Type} (x y : Emq α) : Prop := Agree SameButReads x y

inductive Program where
  | done (ret : Int)
  | inspect (next : EmqClient → Program)
  | call (command : Command) (next : Reply → Program)
  | noack (enable : Bool) (next : Program)

def Program.run (k : Kernel) : Program → World → Result Int
  | .done ret, w => .returned ret w
  | .inspect next, w => (next w.client).run k w
  | .call command next, w =>
      match issue k command w with
      | .returned reply w' => (next reply).run k w'
      | .fault reason w' => .fault reason w'
  | .noack enable next, w => next.run k (if enable then emqNoackEnable w else emqNoackDisable w)

variable {k : Kernel} {pieces pieces' : Nat → Nat → Nat}

theorem sameButReads_client {w w' : World} (h : SameButReads w w') : w'.client = w.client := by
  obtain ⟨reads, rfl⟩ := h
  rfl

theorem updateClient_alike (f : EmqClient → EmqClient) :
    Alike (updateClient f) (updateClient f) := by
  apply agree_modify
  rintro w _ ⟨reads, rfl⟩
  exact ⟨reads, rfl⟩

theorem failWith_alike {α : Type} (error : EmqError) :
    Alike (failWith error : Emq α) (failWith error) :=
  (updateClient_alike _).bind fun _ => agree_raise

theorem readsClient_alike {α : Type} (f : EmqClient → α) :
    Alike (Code.reads fun w => f w.client) (Code.reads fun w => f w.client) := by
  apply agree_reads
  rintro w _ ⟨reads, rfl⟩
  rfl

theorem malloc_alike (size : Nat) :
    Alike (malloc (reading k pieces) size) (malloc (reading k pieces') size) := by
  rintro w _ ⟨reads, rfl⟩
  cases h : k.malloc w.mallocs size with
  | true =>
      have hrun := @malloc_granted (reading k pieces) size w h
      have hrun' := @malloc_granted (reading k pieces') size { w with reads := reads } h
      rw [hrun, hrun']
      exact .next true ⟨reads, rfl⟩
  | false =>
      have hrun := @malloc_refused (reading k pieces) size w h
      have hrun' := @malloc_refused (reading k pieces') size { w with reads := reads } h
      rw [hrun, hrun']
      exact .next false ⟨reads, rfl⟩

theorem sysWrite_alike (bytes : List UInt8) :
    Alike (sysWrite (reading k pieces) bytes) (sysWrite (reading k pieces') bytes) := by
  rintro w _ ⟨reads, rfl⟩
  simp only [sysWrite, reading]
  cases k.write w.writes bytes.length with
  | none => exact .next none ⟨reads, rfl⟩
  | some m => exact .next _ ⟨reads, rfl⟩

theorem sysWritev_alike (iov : List (List UInt8)) :
    Alike (sysWritev (reading k pieces) iov) (sysWritev (reading k pieces') iov) := by
  rintro w _ ⟨reads, rfl⟩
  simp only [sysWritev, reading]
  cases k.writev w.writes iov.flatten.length with
  | none => exact .next none ⟨reads, rfl⟩
  | some m => exact .next _ ⟨reads, rfl⟩

theorem received_sameButReads (w : World) (dropped reads reads' reads'' failures : Nat) :
    SameButReads (received w dropped reads failures)
      (received { w with reads := reads'' } dropped reads' failures) :=
  ⟨reads', rfl⟩

theorem drained_sameButReads {w : World} {dropped dropped' reads reads' reads'' : Nat}
    (failures : Nat) (hle : w.input.length ≤ dropped) (hle' : w.input.length ≤ dropped') :
    SameButReads (received w dropped reads failures)
      (received { w with reads := reads'' } dropped' reads' failures) := by
  refine ⟨reads', ?_⟩
  simp only [received, List.drop_eq_nil_of_le hle, List.drop_eq_nil_of_le hle']

theorem emqClientRead_alike {count : Int} (hlow : intMin ≤ count) (hhigh : count ≤ intMax) :
    Alike (emqClientRead (reading k pieces) count) (emqClientRead (reading k pieces') count) := by
  rintro w _ ⟨start, rfl⟩
  have hok := reading_readsOk k pieces
  have hok' := reading_readsOk k pieces'
  by_cases hneg : count < 0
  · have houtcome := emqClientRead_overlong (reading k pieces) hneg hlow w
    have houtcome' := emqClientRead_overlong (reading k pieces') hneg hlow
      { w with reads := start }
    generalize emqClientRead (reading k pieces) count w = exit at houtcome
    generalize emqClientRead (reading k pieces') count _ = exit' at houtcome'
    cases houtcome with
    | failed dropped reads _ hend =>
        cases houtcome' with
        | failed dropped' reads' _ hend' =>
            exact .next none (drained_sameButReads _ (hend hok).2 (hend' hok').2)
        | overflow _ _ _ hmore => exact absurd (hend hok).1 (not_le.mpr hmore)
    | overflow dropped reads _ hmore =>
        cases houtcome' with
        | failed _ _ _ hend' => exact absurd (hend' hok').1 (not_le.mpr hmore)
        | overflow dropped' reads' _ _ => exact .fault _ _ _
  · obtain ⟨size, rfl⟩ := Int.eq_ofNat_of_zero_le (not_lt.mp hneg)
    have hsize : size ≤ intMax := Int.ofNat_le.mp hhigh
    have houtcome := emqClientRead_outcome (reading k pieces) hsize w
    have houtcome' := emqClientRead_outcome (reading k pieces') hsize { w with reads := start }
    generalize emqClientRead (reading k pieces) _ w = exit at houtcome
    generalize emqClientRead (reading k pieces') _ _ = exit' at houtcome'
    cases houtcome with
    | whole reads henough _ _ =>
        cases houtcome' with
        | whole reads' _ _ _ => exact .next _ (received_sameButReads w _ _ _ _ _)
        | failed _ _ _ hend' => exact absurd henough (not_le.mpr (hend' hok').1)
    | failed dropped reads _ hend =>
        cases houtcome' with
        | whole _ henough' _ _ => exact absurd henough' (not_le.mpr (hend hok).1)
        | failed dropped' reads' _ hend' =>
            exact .next none (drained_sameButReads _ (hend hok).2 (hend' hok').2)

theorem readToInt_alike (size : Nat) :
    Alike (emqClientRead (reading k pieces) (toInt size))
      (emqClientRead (reading k pieces') (toInt size)) :=
  emqClientRead_alike (intMin_le_toInt size) (toInt_le_intMax size)

theorem emqClientWriteLoop_alike (count : Int) (fuel : Nat) :
    ∀ (totlen : Int) (buf : List UInt8),
      Alike (emqClientWriteLoop (reading k pieces) count fuel totlen buf)
        (emqClientWriteLoop (reading k pieces') count fuel totlen buf) := by
  induction fuel with
  | zero => exact fun _ _ => agree_undefined _
  | succ fuel ih =>
      intro totlen buf
      unfold emqClientWriteLoop
      refine agree_ite (agree_pure _) ((sysWrite_alike _).bind fun nwritten => ?_)
      cases nwritten with
      | none => exact agree_pure _
      | some n =>
          cases n with
          | zero => exact agree_pure _
          | succ n => exact ih _ _

theorem retryWritev_alike (iov : List (List UInt8)) (interrupts : Nat) :
    Alike (retryWritev (reading k pieces) iov interrupts)
      (retryWritev (reading k pieces') iov interrupts) := by
  induction interrupts with
  | zero =>
      refine (sysWritev_alike iov).bind fun ret => ?_
      cases ret with
      | none => exact agree_pure _
      | some ret => exact agree_pure _
  | succ interrupts ih =>
      refine (agree_modify ?_).bind fun _ => ih
      rintro w _ ⟨reads, rfl⟩
      exact ⟨reads, rfl⟩

theorem emqClientWritev_alike (iov : List (List UInt8)) :
    Alike (emqClientWritev (reading k pieces) iov) (emqClientWritev (reading k pieces') iov) := by
  refine (agree_reads ?_).bind fun interrupts => retryWritev_alike iov interrupts
  rintro w _ ⟨reads, rfl⟩
  rfl

theorem emqCheckReallocClientRequest_alike (size : Nat) :
    Alike (emqCheckReallocClientRequest (reading k pieces) size)
      (emqCheckReallocClientRequest (reading k pieces') size) := by
  refine (readsClient_alike id).bind fun client => agree_ite ?_ (agree_pure _)
  refine agree_ite (agree_pure _) ((malloc_alike size).bind fun granted => agree_ite ?_ ?_)
  · exact (updateClient_alike _).bind fun _ => agree_pure _
  · exact (updateClient_alike _).bind fun _ => agree_pure _

theorem emqSetClientRequest_alike (frame : List UInt8) :
    Alike (emqSetClientRequest frame) (emqSetClientRequest frame) := by
  refine (readsClient_alike EmqClient.request).bind fun buffer => ?_
  cases buffer with
  | none => exact agree_undefined _
  | some buffer => exact agree_ite (agree_undefined _) (updateClient_alike _)

theorem build_alike (r : Request) :
    Alike (r.build (reading k pieces)) (r.build (reading k pieces')) := by
  rw [Request.build_eq, Request.build_eq]
  refine agree_ite (agree_pure _) ((readsClient_alike EmqClient.noack).bind fun noack => ?_)
  refine (emqCheckReallocClientRequest_alike _).bind fun status => ?_
  cases status with
  | err => exact agree_pure _
  | ok => exact (emqSetClientRequest_alike _).bind fun _ => agree_pure _

theorem sendRequest_alike (parts : Parts) :
    Alike (sendRequest (reading k pieces) parts) (sendRequest (reading k pieces') parts) := by
  cases parts with
  | none =>
      refine (readsClient_alike id).bind fun client => ?_
      refine (emqClientWriteLoop_alike _ _ _ _).bind fun ret => ?_
      exact agree_ite (failWith_alike _) (agree_pure _)
  | some parts =>
      refine (readsClient_alike id).bind fun client => ?_
      refine (emqClientWritev_alike _).bind fun ret => ?_
      exact agree_ite (failWith_alike _) (agree_pure _)

theorem issueRequest_alike (valid : Bool) (r : Request) (parts : Parts) :
    Alike (issueRequest (reading k pieces) valid (r.build (reading k pieces)) parts)
      (issueRequest (reading k pieces') valid (r.build (reading k pieces')) parts) := by
  refine agree_ite ((build_alike r).bind fun status => ?_) (failWith_alike _)
  cases status with
  | err => exact failWith_alike _
  | ok => exact sendRequest_alike parts

theorem awaitResponse_alike {size : Nat} (hsize : size ≤ intMax)
    (check : ProtocolResponseHeader → Status) :
    Alike (awaitResponse (reading k pieces) size check)
      (awaitResponse (reading k pieces') size check) := by
  have hread := @emqClientRead_alike k pieces pieces' size (by unfold intMin; omega) (by omega)
  refine hread.bind fun response => ?_
  cases response with
  | none => exact failWith_alike _
  | some response =>
      exact agree_ite (failWith_alike _) (agree_ite (failWith_alike _) (agree_pure _))

theorem acknowledge_alike (check : ProtocolResponseHeader → Status) :
    Alike (acknowledge (reading k pieces) check) (acknowledge (reading k pieces') check) := by
  refine (readsClient_alike EmqClient.noack).bind fun noack => agree_ite (agree_pure _) ?_
  exact (awaitResponse_alike (by decide) check).bind fun _ => agree_pure _

theorem emqListAddValue_alike {α : Type} (list : List α) (value : α) :
    Alike (emqListAddValue (reading k pieces) list value)
      (emqListAddValue (reading k pieces') list value) :=
  (malloc_alike 24).bind fun _ => agree_ite (agree_pure _) (agree_pure _)

theorem commit_alike (commit : Commit) :
    Alike (commit.run (reading k pieces)) (commit.run (reading k pieces')) := by
  cases commit with
  | nothing => exact agree_pure _
  | subscribeQueue name callback =>
      refine Agree.bind ((malloc_alike 72).bind fun _ => agree_ite ?_ (agree_pure _))
        fun subscription => ?_
      · split
        · exact agree_pure _
        · exact agree_undefined _
      · cases subscription with
        | none => exact failWith_alike _
        | some subscription =>
            refine (readsClient_alike EmqClient.queueSubscriptions).bind fun list => ?_
            exact (emqListAddValue_alike list subscription).bind fun _ => updateClient_alike _
  | subscribeChannel name data callback =>
      refine Agree.bind ((malloc_alike 104).bind fun _ => agree_ite ?_ (agree_pure _))
        fun subscription => ?_
      · split
        · exact agree_pure _
        · exact agree_undefined _
      · cases subscription with
        | none => exact failWith_alike _
        | some subscription =>
            refine (readsClient_alike EmqClient.channelSubscriptions).bind fun list => ?_
            exact (emqListAddValue_alike list subscription).bind fun _ => updateClient_alike _
  | unsubscribeQueue name =>
      unfold Commit.run
      exact updateClient_alike _
  | unsubscribeChannel name =>
      unfold Commit.run
      exact updateClient_alike _

theorem recordLoop_alike (kind : RecordKind) (buffer : List UInt8) (bodylen fuel : Nat) :
    ∀ (i : Nat) (list : List Record),
      Alike (recordLoop (reading k pieces) kind buffer bodylen fuel i list)
        (recordLoop (reading k pieces') kind buffer bodylen fuel i list) := by
  induction fuel with
  | zero => exact fun _ _ => agree_undefined _
  | succ fuel ih =>
      intro i list
      refine agree_ite ((malloc_alike kind.size).bind fun _ => agree_ite ?_ ?_) (agree_pure _)
      · refine agree_ite ?_ (agree_undefined _)
        exact (emqListAddValue_alike list _).bind fun added => ih _ added.2
      · exact failWith_alike _

theorem readRecords_alike (kind : RecordKind) (bodylen : Nat) :
    Alike (readRecords (reading k pieces) kind bodylen)
      (readRecords (reading k pieces') kind bodylen) := by
  refine (malloc_alike bodylen).bind fun _ => agree_ite ?_ (failWith_alike _)
  refine (readToInt_alike bodylen).bind fun buffer => ?_
  cases buffer with
  | none => exact failWith_alike _
  | some buffer =>
      refine (malloc_alike 32).bind fun _ => agree_ite ?_ (failWith_alike _)
      exact (recordLoop_alike kind buffer bodylen _ 0 []).bind fun _ => agree_pure _

theorem emqReadMessage_alike (size : Nat) :
    Alike (emqReadMessage (reading k pieces) size) (emqReadMessage (reading k pieces') size) := by
  have hfail (error : EmqError) : Alike
      (do emqClientSetError error; pure (none : Option EmqMsg))
      (do emqClientSetError error; pure none) :=
    (updateClient_alike _).bind fun _ => agree_pure _
  refine (malloc_alike 32).bind fun _ => agree_ite ?_ (hfail .alloc)
  refine (malloc_alike size).bind fun _ => agree_ite ?_ (hfail .alloc)
  refine (readToInt_alike size).bind fun data => ?_
  cases data with
  | none => exact hfail .read
  | some data => exact agree_pure _

theorem emqReadMessageTag_alike (size : Nat) :
    Alike (emqReadMessageTag (reading k pieces) size)
      (emqReadMessageTag (reading k pieces') size) := by
  have hread := @emqClientRead_alike k pieces pieces' 8 (by decide) (by decide)
  refine hread.bind fun tag => ?_
  cases tag with
  | none => exact agree_pure _
  | some tag =>
      refine (emqReadMessage_alike _).bind fun msg => ?_
      cases msg with
      | none => exact agree_undefined _
      | some msg => exact agree_pure _

theorem finish_alike (finish : Finish) :
    Alike (finish.run (reading k pieces)) (finish.run (reading k pieces')) := by
  cases finish with
  | acknowledge check commit =>
      refine (acknowledge_alike check).bind fun _ => ?_
      exact (commit_alike commit).bind fun _ => agree_pure _
  | stat => exact (awaitResponse_alike (by decide) _).bind fun _ => agree_pure _
  | value cmd failure =>
      refine (awaitResponse_alike (by decide) _).bind fun _ => ?_
      have hread := @emqClientRead_alike k pieces pieces' 4 (by decide) (by decide)
      refine hread.bind fun body => ?_
      cases body with
      | none => exact failWith_alike _
      | some body => exact agree_pure _
  | records kind =>
      exact (awaitResponse_alike (by decide) _).bind fun _ => readRecords_alike kind _
  | message cmd =>
      refine (awaitResponse_alike (by decide) _).bind fun _ => ?_
      refine (emqReadMessageTag_alike _).bind fun msg => ?_
      cases msg with
      | none => exact agree_raise
      | some msg => exact agree_pure _

theorem setStatus_sameButReads (status : Status) (w w' : World) (h : SameButReads w w') :
    SameButReads (setStatus status w) (setStatus status w') := by
  obtain ⟨reads, rfl⟩ := h
  exact ⟨reads, rfl⟩

theorem exec_alike (c : Command) {w w' : World} (h : SameButReads w w') :
    SameOutcome SameButReads (exec (reading k pieces) c w) (exec (reading k pieces') c w') := by
  rw [exec_eq, exec_eq]
  refine agree_body _ ?_ (setStatus_sameButReads .ok) (setStatus_sameButReads .err) h
  refine (updateClient_alike _).bind fun _ => ?_
  exact (issueRequest_alike _ _ _).bind fun _ => finish_alike _

theorem issue_alike (c : Command) {w w' : World} (h : SameButReads w w') :
    SameOutcome SameButReads (issue (reading k pieces) c w) (issue (reading k pieces') c w') := by
  have houtcome := @exec_alike k pieces pieces' c w w' h
  unfold issue
  generalize exec (reading k pieces) c w = outcome at houtcome
  generalize exec (reading k pieces') c w' = outcome' at houtcome
  cases houtcome with
  | returned reply h =>
      obtain ⟨reads, rfl⟩ := h
      exact .returned reply ⟨reads, rfl⟩
  | fault reason s t => exact .fault reason s t

/-- A callback that is a function of its arguments does not see the pieces either. -/
theorem program_alike (program : Program) :
    ∀ {w w' : World}, SameButReads w w' →
      SameOutcome SameButReads (program.run (reading k pieces) w)
        (program.run (reading k pieces') w') := by
  induction program with
  | done ret => exact fun h => .returned ret h
  | inspect next ih =>
      intro w w' h
      unfold Program.run
      rw [sameButReads_client h]
      exact ih w.client h
  | call command next ih =>
      intro w w' h
      have houtcome := @issue_alike k pieces pieces' command w w' h
      unfold Program.run
      generalize issue (reading k pieces) command w = outcome at houtcome
      generalize issue (reading k pieces') command w' = outcome' at houtcome
      cases houtcome with
      | returned reply h => exact ih reply h
      | fault reason s t => exact .fault reason s t
  | noack enable next ih =>
      rintro w _ ⟨reads, rfl⟩
      cases enable with
      | true => exact ih ⟨reads, rfl⟩
      | false => exact ih ⟨reads, rfl⟩

theorem readArray_alike {size : Nat} (hsize : size ≤ intMax) :
    Alike (readArray (reading k pieces) size) (readArray (reading k pieces') size) := by
  have hread := @emqClientRead_alike k pieces pieces' size (by unfold intMin; omega) (by omega)
  refine hread.bind fun bytes => ?_
  cases bytes with
  | none => exact (updateClient_alike _).bind fun _ => agree_pure _
  | some bytes => exact agree_pure _

theorem emqQueueReceive_alike (header : ProtocolEventHeader) :
    Alike (emqQueueReceive (reading k pieces) header)
      (emqQueueReceive (reading k pieces') header) := by
  refine (readArray_alike (by decide)).bind fun name => ?_
  cases name with
  | none => exact agree_pure _
  | some name =>
      refine (readsClient_alike EmqClient.queueSubscriptions).bind fun list => ?_
      split
      · exact agree_pure _
      · refine agree_ite ((emqReadMessage_alike _).bind fun msg => ?_) (agree_pure _)
        cases msg with
        | none => exact agree_pure _
        | some msg => exact agree_pure _

theorem readPattern_alike (extended : Bool) :
    Alike (readPattern (reading k pieces) extended) (readPattern (reading k pieces') extended) := by
  refine agree_ite ((readArray_alike (by decide)).bind fun pattern => ?_) (agree_pure _)
  cases pattern with
  | none => exact agree_pure _
  | some pattern => exact agree_pure _

theorem emqChannelReceive_alike (header : ProtocolEventHeader) (extended : Bool) :
    Alike (emqChannelReceive (reading k pieces) header extended)
      (emqChannelReceive (reading k pieces') header extended) := by
  refine (readArray_alike (by decide)).bind fun name => ?_
  cases name with
  | none => exact agree_pure _
  | some name =>
      refine (readArray_alike (by decide)).bind fun topic => ?_
      cases topic with
      | none => exact agree_pure _
      | some topic =>
          refine (readPattern_alike extended).bind fun pattern => ?_
          cases pattern with
          | none => exact agree_pure _
          | some pattern =>
              refine (readsClient_alike EmqClient.channelSubscriptions).bind fun list => ?_
              split
              · exact agree_pure _
              · refine (emqReadMessage_alike _).bind fun msg => ?_
                cases msg with
                | none => exact agree_pure _
                | some msg => exact agree_pure _

theorem receiveBody_alike (header : ProtocolEventHeader) :
    Alike (receiveBody (reading k pieces) header) (receiveBody (reading k pieces') header) :=
  agree_ite (emqQueueReceive_alike header)
    (agree_ite (emqChannelReceive_alike header _) (emqChannelReceive_alike header _))

theorem readEventHeader_alike :
    Alike (readEventHeader (reading k pieces)) (readEventHeader (reading k pieces')) := by
  have hread := @emqClientRead_alike k pieces pieces' 8 (by decide) (by decide)
  refine hread.bind fun bytes => ?_
  cases bytes with
  | none => exact failWith_alike _
  | some bytes =>
      exact agree_ite (failWith_alike _) (agree_ite (failWith_alike _) (agree_pure _))

/-- The callbacks do the same from worlds that differ in nothing else. -/
def SameCallbacks (callbacks callbacks' : Callbacks) : Prop :=
  ∀ callback args w w', SameButReads w w' →
    SameOutcome SameButReads (callbacks callback args w) (callbacks' callback args w')

theorem deliver_alike {callbacks callbacks' : Callbacks}
    (hcallbacks : SameCallbacks callbacks callbacks') (delivery : Option Delivery) :
    Alike (deliver callbacks delivery) (deliver callbacks' delivery) := by
  cases delivery with
  | none => exact agree_pure _
  | some delivery =>
      refine Agree.bind ?_ fun ret => ?_
      · rintro w _ ⟨reads, rfl⟩
        have houtcome := hcallbacks delivery.1 delivery.2
          { w with trace := w.trace ++ [.invoked delivery.1 delivery.2] } _ ⟨reads, rfl⟩
        unfold invoke
        generalize callbacks delivery.1 delivery.2 _ = outcome at houtcome ⊢
        generalize callbacks' delivery.1 delivery.2 _ = outcome' at houtcome ⊢
        cases houtcome with
        | returned ret h => exact .next ret h
        | fault reason s t => exact .fault reason s t
      · refine (readsClient_alike fun c => c.queueSubscriptions.length).bind fun length => ?_
        exact agree_ite (agree_pure _) (agree_pure _)

theorem emqProcessLoop_alike {callbacks callbacks' : Callbacks}
    (hcallbacks : SameCallbacks callbacks callbacks') (fuel : Nat) :
    Alike (emqProcessLoop (reading k pieces) callbacks fuel)
      (emqProcessLoop (reading k pieces') callbacks' fuel) := by
  induction fuel with
  | zero => exact agree_undefined _
  | succ fuel ih =>
      refine (readsClient_alike id).bind fun client => agree_ite (agree_pure _) ?_
      refine readEventHeader_alike.bind fun header => ?_
      rw [dispatch_eq, dispatch_eq]
      refine ((receiveBody_alike header).bind fun delivery =>
        deliver_alike hcallbacks delivery).bind fun status => ?_
      exact agree_ite (agree_pure _) (agree_ite agree_raise ih)

theorem emqProcess_alike {callbacks callbacks' : Callbacks}
    (hcallbacks : SameCallbacks callbacks callbacks') {w w' : World} (h : SameButReads w w') :
    SameOutcome SameButReads (emqProcess (reading k pieces) callbacks w)
      (emqProcess (reading k pieces') callbacks' w') := by
  refine agree_body _ ?_ (setStatus_sameButReads .ok) (setStatus_sameButReads .err) h
  refine (updateClient_alike _).bind fun _ => (agree_reads ?_).bind fun fuel => ?_
  · rintro w _ ⟨reads, rfl⟩
    rfl
  · exact (emqProcessLoop_alike hcallbacks fuel).bind fun _ => agree_pure _

/-- Two ways to cut the same stream into pieces give the same reply, client,
decoded data, callback invocations and rest of the stream, for every call and for
`emq_process` with callbacks that are functions of their arguments. -/
theorem segmentation_independent (k : Kernel) (pieces pieces' : Nat → Nat → Nat) (w : World) :
    (∀ c : Command, SameOutcome SameButReads (exec (reading k pieces) c w)
      (exec (reading k pieces') c w)) ∧
    ∀ callback : CallbackPtr → CallbackArgs → Program,
      SameOutcome SameButReads
        (emqProcess (reading k pieces)
          (fun p args => (callback p args).run (reading k pieces)) w)
        (emqProcess (reading k pieces')
          (fun p args => (callback p args).run (reading k pieces')) w) := by
  have hsame : SameButReads w w := ⟨w.reads, rfl⟩
  refine ⟨fun c => exec_alike c hsame, fun callback => ?_⟩
  exact emqProcess_alike (fun p args _ _ h => program_alike (callback p args) h) hsame

end Libemq.Segmentation
