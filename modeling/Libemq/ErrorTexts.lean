import Libemq.FrameLength
import Libemq.MessageBounds
import Libemq.Triples

namespace Libemq.ErrorTexts

open Libemq.CStrings
open Libemq.PackedLayout (valueLE)
open Libemq.ExitCode
open Libemq.Triples
open Libemq.Client
open Libemq.Network
open Libemq.Protocol
open Libemq.Packet
open Libemq.Commands
open Libemq.Transactions
open Libemq.Responses
open Libemq.Calls
open Libemq.Completion
open Libemq.Events
open Libemq.Runs
open Libemq.FrameLength
open Libemq.Consumption
open Libemq.Stopping
open Libemq.MessageBounds

theorem emqErrorArray_eq_empty {error : EmqError} : emqErrorArray error = "" ↔ error = .none := by
  cases error <;> simp [emqErrorArray]

def Mute (w : World) : Prop := w.client.error = ""

def Loud (w : World) : Prop := w.client.error ≠ ""

/-- No error is recorded, and so many failures are below. -/
def Clean (n : Nat) (w : World) : Prop := w.failures = n ∧ Mute w

/-- A failure since then has left its error. -/
def Told (n : Nat) (w : World) : Prop := Loud w ∨ w.failures = n

theorem loud_withError {error : EmqError} (h : error ≠ .none) (w : World) :
    Loud (withError error w) :=
  fun hmute => h (emqErrorArray_eq_empty.mp hmute)

section Texts

variable (k : Kernel) {P : World → Prop}

theorem triple_failWith {α : Type} {Q : α → World → Prop} {error : EmqError}
    (h : error ≠ .none) : Triple P (failWith error : Emq α) Q Loud where
  next _ hx := by cases hx
  error _ hx := by
    cases hx
    exact fun hmute => h (emqErrorArray_eq_empty.mp hmute)

theorem triple_emqClientSetError {error : EmqError} {E : World → Prop} (h : error ≠ .none) :
    Triple P (emqClientSetError error) (fun _ => Loud) E :=
  triple_of_exit fun w _ => loud_withError h w

theorem triple_malloc (n size : Nat) {E : World → Prop} :
    Triple (Clean n) (malloc k size) (fun granted w => granted = true → Clean n w) E := by
  refine triple_of_exit fun w hw => ?_
  rw [malloc_apply]
  intro hgranted
  refine ⟨?_, hw.2⟩
  rw [consumed_failures, failuresAfter, if_pos hgranted]
  exact hw.1

theorem triple_emqClientRead (n : Nat) {count : Int} (hlow : intMin ≤ count)
    (hhigh : count ≤ intMax) {E : World → Prop} :
    Triple (Clean n) (emqClientRead k count) (fun r w => r ≠ none → Clean n w) E := by
  refine triple_of_exit fun w hw => ?_
  rcases lt_or_ge count 0 with hneg | hpos
  · have houtcome := emqClientRead_overlong k hneg hlow w
    generalize emqClientRead k count w = exit at houtcome
    cases houtcome with
    | failed dropped reads => exact fun h => absurd rfl h
    | overflow dropped reads => trivial
  · obtain ⟨size, rfl⟩ := Int.eq_ofNat_of_zero_le hpos
    have houtcome := emqClientRead_outcome k (by omega : size ≤ intMax) w
    generalize emqClientRead k size w = exit at houtcome
    cases houtcome with
    | whole reads => exact fun _ => hw
    | failed dropped reads => exact fun h => absurd rfl h

theorem triple_emqReadMessage (n size : Nat) {E : World → Prop} :
    Triple (Clean n) (emqReadMessage k size)
      (fun msg w => match msg with
        | none => Loud w
        | some _ => Clean n w) E := by
  have hrefused : ∀ {P : World → Prop} {error : EmqError}, error ≠ .none →
      Triple P (emqClientSetError error >>= fun _ => pure none : Emq (Option EmqMsg))
        (fun msg w => match msg with
          | none => Loud w
          | some _ => Clean n w) E := fun h =>
    (triple_emqClientSetError h).bind fun _ => triple_pure fun _ hloud => hloud
  refine (triple_malloc k n 32).bind fun granted => ?_
  refine triple_ite (fun hgranted => ?_) fun _ => hrefused (by decide)
  refine Triple.weaken ?_ (fun w h => h hgranted) (fun _ _ h => h) (fun _ h => h)
  refine (triple_malloc k n size).bind fun granted' => ?_
  refine triple_ite (fun hgranted' => ?_) fun _ => hrefused (by decide)
  refine Triple.weaken ?_ (fun w h => h hgranted') (fun _ _ h => h) (fun _ h => h)
  refine (triple_emqClientRead k n (intMin_le_toInt size) (toInt_le_intMax size)).bind fun r => ?_
  cases r with
  | none => exact hrefused (by decide)
  | some data => exact triple_pure fun w h => h (Option.some_ne_none _)

theorem triple_readArray (n : Nat) {size : Nat} (hsize : size ≤ intMax) {E : World → Prop} :
    Triple (Clean n) (readArray k size)
      (fun bytes w => match bytes with
        | none => Loud w
        | some _ => Clean n w) E := by
  refine (triple_emqClientRead k n (by unfold intMin; omega) (by exact_mod_cast hsize)).bind
    fun r => ?_
  cases r with
  | none =>
      exact (triple_emqClientSetError (by decide)).bind fun _ => triple_pure fun _ h => h
  | some data => exact triple_pure fun w h => h (Option.some_ne_none _)

theorem triple_emqQueueReceive (n : Nat) (header : ProtocolEventHeader) {E : World → Prop} :
    Triple (Clean n) (emqQueueReceive k header)
      (fun delivery w => match delivery with
        | none => Told n w
        | some _ => Clean n w) E := by
  refine (triple_readArray k n (by decide)).bind fun name => ?_
  cases name with
  | none => exact triple_pure fun _ h => .inl h
  | some name =>
      refine (triple_reads (Q := fun _ => Clean n) fun _ h => h).bind fun list => ?_
      cases list.find? fun s => strcmpEq s.name.array name with
      | none => exact triple_pure fun _ h => .inr h.1
      | some subscription =>
          refine triple_ite (fun _ => ?_) fun _ => triple_pure fun _ h => h
          refine (triple_emqReadMessage k n _).bind fun msg => ?_
          cases msg with
          | none => exact triple_pure fun _ h => .inl h
          | some msg => exact triple_pure fun _ h => h

theorem triple_readPattern (n : Nat) (extended : Bool) {E : World → Prop} :
    Triple (Clean n) (readPattern k extended)
      (fun pattern w => match pattern with
        | none => Loud w
        | some _ => Clean n w) E := by
  refine triple_ite (fun _ => ?_) fun _ => triple_pure fun _ h => h
  refine (triple_readArray k n (by decide)).bind fun pattern => ?_
  cases pattern <;> exact triple_pure fun _ h => h

theorem triple_emqChannelReceive (n : Nat) (header : ProtocolEventHeader) (extended : Bool)
    {E : World → Prop} :
    Triple (Clean n) (emqChannelReceive k header extended)
      (fun delivery w => match delivery with
        | none => Told n w
        | some _ => Clean n w) E := by
  refine (triple_readArray k n (by decide)).bind fun name => ?_
  cases name with
  | none => exact triple_pure fun _ h => .inl h
  | some name =>
      refine (triple_readArray k n (by decide)).bind fun topic => ?_
      cases topic with
      | none => exact triple_pure fun _ h => .inl h
      | some topic =>
          refine (triple_readPattern k n extended).bind fun pattern => ?_
          cases pattern with
          | none => exact triple_pure fun _ h => .inl h
          | some pattern =>
              refine (triple_reads (Q := fun _ => Clean n) fun _ h => h).bind fun list => ?_
              cases list.find? fun s => strcmpEq s.name.array name with
              | none => exact triple_pure fun _ h => .inr h.1
              | some subscription =>
                  refine (triple_emqReadMessage k n _).bind fun msg => ?_
                  cases msg with
                  | none => exact triple_pure fun _ h => .inl h
                  | some msg => exact triple_pure fun _ h => h

theorem triple_receiveEvent (n : Nat) :
    Triple (Clean n) (receiveEvent k) (fun _ => Clean n) (Told n) := by
  have hloud : ∀ {P : World → Prop} {Q : ProtocolEventHeader → World → Prop},
      Triple P (failWith .read : Emq ProtocolEventHeader) Q (Told n) := fun {P Q} =>
    Triple.weaken (triple_failWith (P := P) (by decide)) (fun _ h => h) (fun _ _ h => h)
      fun _ h => .inl h
  have hheader : Triple (Clean n) (readEventHeader k) (fun _ => Clean n) (Told n) := by
    refine (triple_emqClientRead k n (by decide) (by decide)).bind fun bytes => ?_
    cases bytes with
    | none => exact hloud
    | some bytes =>
        refine triple_ite (fun _ => hloud) fun _ => triple_ite (fun _ => hloud) fun _ => ?_
        exact triple_pure fun _ h => h (Option.some_ne_none _)
  refine hheader.bind fun header => ?_
  have hbody : Triple (Clean n) (receiveBody k header)
      (fun delivery w => match delivery with
        | none => Told n w
        | some _ => Clean n w) (Told n) :=
    triple_ite (fun _ => triple_emqQueueReceive k n header) fun _ =>
      triple_ite (fun _ => triple_emqChannelReceive k n header false) fun _ =>
        triple_emqChannelReceive k n header true
  refine hbody.bind fun delivery => ?_
  cases delivery with
  | none => exact triple_raise fun _ h => h
  | some delivery => exact triple_pure fun _ h => h

theorem triple_emqListAddValue {α : Type} (list : List α) (value : α) {E : World → Prop} :
    Triple Mute (emqListAddValue k list value) (fun _ => Mute) E :=
  triple_of_exit fun w hw => by
    rw [emqListAddValue_apply]
    exact hw

theorem triple_recordLoop (kind : RecordKind) (buffer : List UInt8) (bodylen fuel : Nat) :
    ∀ (i : Nat) (list : List Record), Triple Mute
      (recordLoop k kind buffer bodylen fuel i list) (fun _ => Mute) Loud := by
  have hmalloc : ∀ size, Triple Mute (malloc k size) (fun _ => Mute) Loud := fun size =>
    triple_of_exit fun w hw => by
      rw [malloc_apply]
      exact hw
  induction fuel with
  | zero => exact fun _ _ => triple_undefined
  | succ fuel ih =>
      intro i list
      refine triple_ite (fun _ => ?_) fun _ => triple_pure fun _ h => h
      refine (hmalloc _).bind fun granted => ?_
      refine triple_ite (fun _ => ?_) fun _ => triple_failWith (by decide)
      refine triple_ite (fun _ => ?_) fun _ => triple_undefined
      exact (triple_emqListAddValue k list _).bind fun added => ih _ _

theorem triple_readRecords (n : Nat) (kind : RecordKind) (bodylen : Nat) :
    Triple (Clean n) (readRecords k kind bodylen) (fun _ => Mute) Loud := by
  refine (triple_malloc k n bodylen).bind fun granted => ?_
  refine triple_ite (fun hgranted => ?_) fun _ => triple_failWith (by decide)
  refine Triple.weaken ?_ (fun w h => h hgranted) (fun _ _ h => h) (fun _ h => h)
  refine (triple_emqClientRead k n (intMin_le_toInt _) (toInt_le_intMax _)).bind fun buffer => ?_
  cases buffer with
  | none => exact triple_failWith (by decide)
  | some buffer =>
      refine Triple.weaken ?_ (fun w h => h (Option.some_ne_none _)) (fun _ _ h => h)
        (fun _ h => h)
      refine (triple_malloc k n 32).bind fun granted' => ?_
      refine triple_ite (fun hgranted' => ?_) fun _ => triple_failWith (by decide)
      refine Triple.weaken ?_ (fun w h => (h hgranted').2) (fun _ _ h => h) (fun _ h => h)
      exact (triple_recordLoop k kind buffer bodylen _ _ _).bind fun list =>
        triple_pure fun _ h => h

/-- Every failure of a call after its response is accepted records its error, but for
the one of a tag that is not read. -/
theorem triple_body (n : Nat) {f : Finish} (hf : ∀ cmd, f ≠ .message cmd)
    (hfits : Commit.Fits (Finish.commit f)) (response : List UInt8) :
    Triple (Clean n) (Finish.body k f response) (fun _ => Mute) Loud := by
  cases f with
  | acknowledge check commit =>
      have hcommit : Triple (Clean n) (commit.run k) (fun _ => Mute) Loud := by
        refine triple_of_exit fun w hw => ?_
        have houtcome := commit_outcome k commit w hfits
        generalize commit.run k w = exit at houtcome
        cases houtcome with
        | applied => exact hw.2
        | lost => exact hw.2
        | exhausted => exact loud_withError (by decide) _
      exact hcommit.bind fun _ => triple_pure fun _ h => h
  | stat => exact triple_pure fun _ h => h.2
  | value cmd failure =>
      refine (triple_emqClientRead k n (by decide) (by decide)).bind fun body => ?_
      cases body with
      | none => exact triple_failWith (by decide)
      | some body => exact triple_pure fun _ h => (h (Option.some_ne_none _)).2
  | records kind => exact triple_readRecords k n kind _
  | message cmd => exact absurd rfl (hf cmd)

theorem triple_messageRest (n size : Nat) (f : EmqMsg → Reply) :
    Triple (Clean n) (emqReadMessage k size >>= fun msg =>
        match msg with
        | none => Code.undefined .nullDereference
        | some msg => pure (f msg))
      (fun _ => Mute) (fun _ => False) := by
  refine (triple_emqReadMessage k n size).bind fun msg => ?_
  cases msg with
  | none => exact triple_undefined
  | some msg => exact triple_pure fun _ h => h.2

end Texts

/-- The calls whose failure value is also an answer. -/
def IsExist : Command → Bool
  | .queueExist .. | .routeExist .. | .channelExist .. => true
  | _ => false

/-- A returned call reports a failure by its value iff by its status, and by its status
iff there is an error text. -/
structure Agrees (c : Command) (reply : Reply) (w' : World) : Prop where
  value : IsExist c = false → (reply = (finish c).failure ↔ w'.client.status = .err)
  text : w'.client.status = .err ↔ Loud w'

/-- The response has a status for which there is no error. -/
def Unmapped (c : Command) (w : World) : Prop :=
  Denied c w ∧ emqGetError (.parse w.input) = .none

/-- The header of a message is read and its tag is not: the stream ends before it, or a read
of it fails. -/
def Untagged (k : Kernel) (c : Command) (w : World) : Prop :=
  (∃ cmd, finish c = .message cmd) ∧ Answered c w ∧ Delivers k w.reads [8] ∧
    (w.input.length < 16 ∨ ¬ Delivers k w.reads [8, 8])

/-- The size of the queue is the one that reads as the failure value. -/
def SizeFails (c : Command) (w : World) : Prop :=
  (∃ name, c = .queueSize name) ∧ Answered c w ∧
    (w.input.drop 8).take 4 = [255, 255, 255, 255]

theorem accepted_clean {k : Kernel} {c : Command} {w w2 : World} {response : List UInt8}
    (h : Accepted k c w response w2) : Clean w.failures w2 := by
  cases h with
  | answered w1 reads hissued =>
      cases hissued
      exact ⟨rfl, rfl⟩
  | unanswered _ hissued =>
      cases hissued
      exact ⟨rfl, rfl⟩

theorem valueLE_eq_max {bytes : List UInt8} (hlength : bytes.length = 4)
    (h : 4294967295 ≤ valueLE bytes) : bytes = [255, 255, 255, 255] := by
  match bytes, hlength with
  | [a, b, c, d], _ =>
      simp only [valueLE] at h
      have ha := a.toNat_lt
      have hb := b.toNat_lt
      have hc := c.toNat_lt
      have hd := d.toNat_lt
      have hbyte : ∀ byte : UInt8, byte.toNat = 255 → byte = 255 := fun byte hmax =>
        UInt8.toNat_inj.mp hmax
      rw [hbyte a (by omega), hbyte b (by omega), hbyte c (by omega), hbyte d (by omega)]

theorem value_body {k : Kernel} {cmd : ProtocolCommand} {failure : Int} {response : List UInt8}
    {w w' : World} {reply : Reply}
    (h : Finish.body k (.value cmd failure) response w = .next reply w') :
    4 ≤ w.input.length ∧ Delivers k w.reads [4] ∧
      reply = .value (toInt (valueLE (w.input.take 4))) := by
  have houtcome : ReadOutcome k 4 [] w (emqClientRead k 4 w) :=
    emqClientRead_outcome k (by decide) w
  rw [Finish.body] at h
  generalize hread : emqClientRead k 4 w = exit at houtcome
  cases houtcome with
  | whole reads henough _ _ hdelivers =>
      rw [Code.bind_of_next hread] at h
      cases h
      exact ⟨henough, (hdelivers []).mpr (.done _), rfl⟩
  | failed =>
      rw [Code.bind_of_next hread] at h
      cases h

/-- No answer of a successful call is its failure value. -/
theorem success_differs {k : Kernel} {c : Command} {w w2 w3 : World} {response : List UInt8}
    {reply : Reply} (haccepted : Accepted k c w response w2)
    (hbody : Finish.body k (finish c) response w2 = .next reply w3)
    (hexist : IsExist c = false) (hsize : Delivers k w.reads [8, 4] → ¬ SizeFails c w) :
    reply ≠ (finish c).failure := by
  have hsuccessful : Finish.Successful (finish c) reply := by
    obtain ⟨w1, _, hissued, _⟩ := haccepted.issued
    have houtcome := body_outcome k (finish c) response w2 (issued_fits hissued)
    rw [hbody] at houtcome
    generalize hexit : Exit.next reply w3 = exit at houtcome
    cases houtcome with
    | done reply' done reads mallocs failures _ _ _ _ _ hreply =>
        cases hexit
        exact hreply
    | _ => cases hexit
  rintro rfl
  cases hfinish : finish c with
  | acknowledge check commit => rw [hfinish] at hsuccessful; cases hsuccessful
  | stat => rw [hfinish] at hsuccessful; obtain ⟨_, h⟩ := hsuccessful; cases h
  | records kind => rw [hfinish] at hsuccessful; obtain ⟨_, h⟩ := hsuccessful; cases h
  | message cmd => rw [hfinish] at hsuccessful; obtain ⟨_, h⟩ := hsuccessful; cases h
  | value cmd failure =>
      have hname : ∃ name, c = .queueSize name := by
        cases c <;> first | exact ⟨_, rfl⟩ | (cases hfinish; done) | cases hexist
      obtain ⟨name, rfl⟩ := hname
      obtain ⟨hlong, hread, hvalue⟩ := value_body hbody
      cases haccepted with
      | unanswered _ _ hnot => cases hnot
      | answered w1 reads hissued _ _ henough hcheck hstatus hdelivers =>
          refine hsize ((hdelivers [4]).mpr hread)
            ⟨⟨name, rfl⟩, ⟨hissued.accepts, henough, hcheck, hstatus⟩, ?_⟩
          rw [received_input, hissued.input] at hlong hvalue
          refine valueLE_eq_max ?_ (toInt_eq_neg_one ?_)
          · rw [List.length_take]
            exact Nat.min_eq_left hlong
          · exact (Reply.value.inj hvalue).symm

/-- Outside the three cases every returned call agrees with itself. -/
theorem exec_agrees {k : Kernel} {c : Command} {w w' : World} {reply : Reply}
    (hready : Ready w.client)
    (hmapped : Delivers k w.reads [Finish.head (finish c)] → ¬ Unmapped c w)
    (htagged : ¬ Untagged k c w) (hsize : Delivers k w.reads [8, 4] → ¬ SizeFails c w)
    (h : exec k c w = .returned reply w') : Agrees c reply w' := by
  rcases exec_body k c w hready.1 with ⟨error, s, hexec, htext⟩ |
    ⟨response, w2, haccepted, hexec⟩
  · have hloud : Loud (withError error s) := by
      refine loud_withError ?_ s
      rcases htext with hsome | ⟨hdenied, hread, rfl⟩
      · exact hsome
      · exact fun hnone => hmapped hread ⟨hdenied, hnone⟩
    rw [h] at hexec
    cases hexec
    exact ⟨fun _ => iff_of_true rfl rfl, iff_of_true rfl hloud⟩
  · have hclean := accepted_clean haccepted
    obtain ⟨w1, _, hissued, _⟩ := haccepted.issued
    rw [h] at hexec
    cases hbody : Finish.body k (finish c) response w2 with
    | fault reason w3 =>
        rw [hbody] at hexec
        cases hexec
    | next reply' w3 =>
        rw [hbody] at hexec
        cases hexec
        have hmute : Mute w3 := by
          by_cases hmessage : ∃ cmd, finish c = .message cmd
          · obtain ⟨cmd, hc⟩ := hmessage
            rcases body_message hc k response w2 with
              ⟨_, _, _, herror, _⟩ | ⟨tag, reads, _, _, _, hrest⟩
            · rw [hbody] at herror
              cases herror
            · rw [hbody] at hrest
              exact (triple_messageRest k w.failures _ _).next
                (s := received w2 8 reads w2.failures) hclean hrest.symm
          · exact (triple_body k w.failures (fun cmd hc => hmessage ⟨cmd, hc⟩)
              (issued_fits hissued) response).next hclean hbody
        refine ⟨fun hexist => iff_of_false (success_differs haccepted hbody hexist hsize) ?_,
          iff_of_false ?_ fun hloud => hloud hmute⟩
        · exact fun herr => by cases herr
        · exact fun herr => by cases herr
    | error w3 =>
        rw [hbody] at hexec
        cases hexec
        refine ⟨fun _ => iff_of_true rfl rfl, iff_of_true rfl ?_⟩
        change Loud w3
        by_cases hmessage : ∃ cmd, finish c = .message cmd
        · obtain ⟨cmd, hc⟩ := hmessage
          obtain ⟨hanswered, _, hlength, _, hheader⟩ := accepted_message hc hready haccepted
          rcases body_message hc k response w2 with
            ⟨_, _, _, _, hcut⟩ | ⟨tag, reads, _, _, _, hrest⟩
          · refine absurd ⟨⟨cmd, hc⟩, hanswered, (hheader []).mpr (.done _), ?_⟩ htagged
            by_cases hlong : 8 ≤ w2.input.length
            · exact .inr fun hread => hcut hlong [] ((hheader [8]).mp hread)
            · exact .inl (by omega)
          · rw [hbody] at hrest
            exact ((triple_messageRest k w.failures _ _).error
              (s := received w2 8 reads w2.failures) hclean hrest.symm).elim
        · exact (triple_body k w.failures (fun cmd hc => hmessage ⟨cmd, hc⟩)
            (issued_fits hissued) response).error hclean hbody

/-- A kernel that takes nothing of a message, so that no count of its `writev` reads as a
failure. -/
def withholding (k : Kernel) : Kernel := { transmitting k with writev := fun _ _ => some 0 }

theorem delivers_withholding {k : Kernel} {call : Nat} {counts : List Nat} :
    Delivers (withholding k) call counts ↔ Delivers k call counts :=
  @delivers_congr k (withholding k) rfl call counts

section Withholding

variable (k : Kernel)

theorem emqClientWriteLoop_withholding (count : Int) (fuel : Nat) :
    ∀ (totlen : Int) (buf : List UInt8),
      emqClientWriteLoop (withholding k) count fuel totlen buf =
        emqClientWriteLoop (transmitting k) count fuel totlen buf := by
  induction fuel with
  | zero => exact fun _ _ => rfl
  | succ fuel ih =>
      intro totlen buf
      simp only [emqClientWriteLoop, ih]
      rfl

theorem build_withholding (r : Request) :
    r.build (withholding k) = r.build (transmitting k) := by
  rw [Request.build_eq, Request.build_eq]
  rfl

theorem writeRequest_withholding :
    writeRequest (withholding k) = writeRequest (transmitting k) := by
  simp only [writeRequest, emqClientWrite, emqClientWriteLoop_withholding]

theorem issueRequest_withholding {c : Command} {w : World} (hready : Ready w.client)
    (haccepts : Accepts c) :
    ∃ w1, issueRequest (withholding k) (valid c) ((request c).build (withholding k)) (parts c)
        (withError .none w) = .next () w1 ∧ Issued (withholding k) c w w1 := by
  suffices h : ∃ w1, issueRequest (withholding k) (valid c)
      ((request c).build (withholding k)) (parts c) (withError .none w) = .next () w1 by
    obtain ⟨w1, h⟩ := h
    exact ⟨w1, h, issued_of_next hready.1 h⟩
  cases hparts : parts c with
  | none =>
      have hread : ¬ Misread (transmitting k) w.writes (frame c w.client.noack).length
          (parts c) := by
        rw [hparts]
        exact not_false
      obtain ⟨w1, h, _⟩ := issueRequest_next (transmitting_writes k) hready haccepts hread
      rw [hparts] at h
      refine ⟨w1, ?_⟩
      rwa [build_withholding, issueRequest, sendRequest, writeRequest_withholding]
  | some extra =>
      have hhands := handsOver_of_accepts (k := withholding k) hready haccepts hparts
      obtain ⟨w1, hissue⟩ := issueRequest_handsOver hhands
      generalize (request c).bytes w.client.noack :: extra = iov at hissue
      have hcall : emqClientWritev (withholding k) iov w1 =
          .next (toInt (min 0 iov.flatten.length : Nat))
            (sent w1 (iov.flatten.take 0) (w1.writes + 0 + 1) w1.failures) :=
        emqClientWritev_eq (withholding k) iov w1
      have hcount : ¬ toInt (min 0 iov.flatten.length : Nat) = -1 := by
        rw [Nat.zero_min]
        decide
      rw [← hparts, hissue, Code.bind_of_next hcall, if_neg hcount]
      exact ⟨_, rfl⟩

theorem unmapped_disagrees {c : Command} {w : World} (hready : Ready w.client)
    (hread : Delivers k w.reads [Finish.head (finish c)]) (h : Unmapped c w) :
    ∃ reply w', exec (withholding k) c w = .returned reply w' ∧ ¬ Agrees c reply w' := by
  obtain ⟨⟨haccepts, hawaits, henough, hcheck, hstatus⟩, hnone⟩ := h
  obtain ⟨w1, hissue, hissued⟩ := issueRequest_withholding k hready haccepts
  have houtcome := awaitResponse_outcome (withholding k) (Finish.head_bounds (finish c))
    (Finish.check (finish c)) w1
  rw [transact_eq, Code.bind_of_next hissue, Finish.run_eq, hissued.noack, hawaits, if_pos rfl]
  generalize hawait : awaitResponse (withholding k) _ _ w1 = exit at houtcome
  cases houtcome with
  | unread dropped reads _ _ hcut =>
      rw [hissued.input, hissued.reads] at hcut
      exact absurd (delivers_withholding.mpr hread) (hcut henough [])
  | rejected reads _ _ herr =>
      rw [hissued.input, hcheck] at herr
      cases herr
  | accepted reads _ _ _ hsuccess =>
      rw [hissued.input] at hsuccess
      exact absurd hsuccess hstatus
  | denied reads =>
      rw [Code.bind_of_error hawait]
      refine ⟨_, _, rfl, fun hagrees => hagrees.text.mp rfl ?_⟩
      change emqErrorArray (emqGetError (.parse w1.input)) = ""
      rw [hissued.input, hnone]
      rfl

theorem untagged_disagrees {c : Command} {w : World} (hready : Ready w.client)
    (h : Untagged k c w) :
    ∃ reply w', exec (transmitting k) c w = .returned reply w' ∧ ¬ Agrees c reply w' := by
  obtain ⟨⟨cmd, hc⟩, ⟨haccepts, henough, hcheck, hstatus⟩, hheader, hcut⟩ := h
  have hread : Delivers (transmitting k) w.reads [Finish.head (finish c)] := by
    rw [hc]
    exact delivers_transmitting.mpr hheader
  obtain ⟨w2, haccepted, _, hexec⟩ := answered_body (transmitting_writes k) hready haccepts
    (not_misread_of_awaits (by rw [hc]; rfl) _ _) hread (by rw [hc]; rfl) henough hcheck hstatus
  obtain ⟨_, _, hlength, _, hrest⟩ := accepted_message hc hready haccepted
  rcases body_message hc (transmitting k) (w.input.take (Finish.head (finish c))) w2 with
    ⟨w3, _, hclient, hbody, _⟩ | ⟨_, _, _, hlong, hdelivers, _⟩
  · rw [hbody] at hexec
    refine ⟨_, _, hexec, fun hagrees => hagrees.text.mp rfl ?_⟩
    change w3.client.error = ""
    rw [hclient]
    exact (accepted_clean haccepted).2
  · have htag := (hrest [8]).mpr ((hdelivers []).mpr (.done _))
    rcases hcut with hshort | hcut
    · omega
    · exact absurd (delivers_transmitting.mp htag) hcut

theorem sizeFails_disagrees {c : Command} {w : World} (hready : Ready w.client)
    (hreads : Delivers k w.reads [8, 4]) (h : SizeFails c w) :
    ∃ reply w', exec (transmitting k) c w = .returned reply w' ∧ ¬ Agrees c reply w' := by
  obtain ⟨⟨name, rfl⟩, ⟨haccepts, henough, hcheck, hstatus⟩, hbytes⟩ := h
  have hread : Delivers (transmitting k) w.reads [8, 4] :=
    delivers_transmitting.mpr hreads
  obtain ⟨w2, haccepted, hvalue, hexec⟩ := answered_body (transmitting_writes k) hready haccepts
    (not_false : ¬ Misread _ _ _ none) hread rfl henough hcheck hstatus
  have hinput : w2.input.take 4 = [255, 255, 255, 255] := by
    obtain ⟨w1, reads, hissued, _, rfl⟩ := haccepted.issued
    rw [received_input, hissued.input]
    exact hbytes
  have hlong : 4 ≤ w2.input.length := by
    have := congrArg List.length hinput
    rw [List.length_take] at this
    simp only [List.length_cons, List.length_nil] at this
    omega
  have houtcome : ReadOutcome (transmitting k) 4 [] w2 (emqClientRead (transmitting k) 4 w2) :=
    emqClientRead_outcome (transmitting k) (by decide) w2
  change exec (transmitting k) _ w = close _ ((emqClientRead (transmitting k) 4 >>= fun body =>
    match body with
    | none => failWith .read
    | some body => pure (.value (toInt (valueLE body)))) w2) at hexec
  generalize hread : emqClientRead (transmitting k) 4 w2 = exit at houtcome
  cases houtcome with
  | failed dropped reads _ _ hcut => exact absurd hvalue (hcut hlong [])
  | whole reads =>
      have hvalue : toInt (valueLE [255, 255, 255, 255]) = -1 := by decide
      rw [Code.bind_of_next hread, List.nil_append, hinput] at hexec
      simp only [hvalue] at hexec
      refine ⟨_, _, hexec, fun hagrees => ?_⟩
      have herr : Status.ok = .err := (hagrees.value rfl).mp rfl
      cases herr

end Withholding

/-- The callbacks issue no commands: all they do to the connection is to switch the
acknowledgements. -/
def Inert (callbacks : Callbacks) : Prop :=
  ∀ f args w ret w', callbacks f args w = .returned ret w' →
    ∃ noack, w' = { w with client := { w.client with noack := noack } }

/-- The event is read up to its message and has a name that is not registered. -/
def Stray (k : Kernel) (w : World) : Prop :=
  WellFormed (.parse w.input) ∧ 8 + prefixSize (.parse w.input) ≤ w.input.length ∧
    subscriber (.parse w.input) w.client ((w.input.drop 8).take 64) = none ∧
    Delivers k w.reads (8 :: arraySizes (.parse w.input))

structure ProcessAgrees (status : Status) (w' : World) : Prop where
  value : status = .err ↔ w'.client.status = .err
  text : w'.client.status = .err ↔ Loud w'

theorem Inert.useLibrary {callbacks : Callbacks} (h : Inert callbacks) (k : Kernel) :
    UseLibrary k callbacks := by
  intro f args w ret w' hcallback
  obtain ⟨noack, rfl⟩ := h f args w ret w' hcallback
  cases noack with
  | true => exact .single (.noackEnable w)
  | false => exact .single (.noackDisable w)

theorem mute_served {k : Kernel} {callbacks : Callbacks} (hinert : Inert callbacks)
    {w1 s s' : World} {delivery : Delivery} {ret : Int} (hmute : Mute w1)
    (hreceive : receiveEvent k w1 = .next delivery s)
    (hcallback : callbacks delivery.1 delivery.2 (invoked delivery s) = .returned ret s') :
    Mute s' := by
  obtain ⟨noack, rfl⟩ := hinert _ _ _ _ _ hcallback
  change s.client.error = ""
  rw [(receiveEvent_client hreceive).1]
  exact hmute

theorem mute_head {k : Kernel} {callbacks : Callbacks} (hinert : Inert callbacks) {w w1 : World}
    (hmute : Mute w) (hhead : LoopHead k callbacks w w1) : Mute w1 :=
  Runs.of_steps (P := Mute) (fun hnow hturn => by
    obtain ⟨delivery, s, ret, hreceive, hcallback, _⟩ := hturn.goes_on
    exact mute_served hinert hnow hreceive hcallback) hhead hmute

/-- The only event that is refused without an error text is a stray one. -/
theorem stray_of_mute {k : Kernel} {w w' : World} (hmute : Mute w)
    (h : receiveEvent k w = .error w') (hmute' : Mute w') : Stray k w := by
  have htold := (triple_receiveEvent k w.failures).error ⟨rfl, hmute⟩ h
  have hsame : w'.failures = w.failures := htold.resolve_left fun hloud => hloud hmute'
  have houtcome := receiveEvent_outcome k w
  rw [h] at houtcome
  generalize hexit : Exit.error w' = exit at houtcome
  cases houtcome with
  | unread dropped reads =>
      cases hexit
      exact absurd hmute' (loud_withError (by decide) _)
  | malformed reads =>
      cases hexit
      exact absurd hmute' (loud_withError (by decide) _)
  | unregistered reads _ hheader henough hnone hdelivers =>
      exact ⟨hheader, henough, hnone, hdelivers⟩
  | truncated error dropped reads mallocs failures _ _ hfailures =>
      cases hexit
      exact absurd hsame (Nat.ne_of_gt hfailures)
  | complete => cases hexit
  | faulted => cases hexit

theorem mute_of_stray {k : Kernel} {w : World} (hmute : Mute w) (h : Stray k w) :
    ∃ w', receiveEvent k w = .error w' ∧ Mute w' := by
  obtain ⟨hwf, hlong, hnone, hreads⟩ := h
  have hnot : ¬ Addressed (.parse w.input) w.client (w.input.drop 8) := fun haddressed =>
    haddressed.2 hnone
  rcases receiveEvent_arrays k w with ⟨w2, _, hcut⟩ |
    ⟨s, exit, _, hclient, hinput, hdelivers, _, houtcome, hreceive⟩
  · exact absurd hreads (hcut (by omega) hwf _)
  · cases houtcome with
    | refused s' _ hsilent =>
        refine ⟨s', hreceive, ?_⟩
        have hsame := hsilent ((hdelivers _).mp hreads)
          (by rw [hinput, List.length_drop]; omega)
        rw [Mute, hsame, hclient]
        exact hmute
    | notified delivery s' haddressed =>
        rw [hclient, hinput] at haddressed
        exact absurd haddressed hnot
    | reading s' f hread =>
        have haddressed := hread.addressed.1
        rw [hclient, hinput] at haddressed
        exact absurd haddressed hnot

theorem emqProcess_agrees {k : Kernel} {callbacks : Callbacks} (hinert : Inert callbacks)
    {w w' : World} {status : Status}
    (hnever : ∀ w1, LoopHead k callbacks (withError .none w) w1 → ¬ Idle w1.client →
      ¬ Stray k w1)
    (h : emqProcess k callbacks w = .returned status w') : ProcessAgrees status w' := by
  have hstart : Mute (withError .none w) := rfl
  cases status with
  | ok =>
      have hmute : Mute w' ∧ w'.client.status = .ok := by
        rcases emqProcess_ok h with ⟨_, rfl⟩ | ⟨delivery, s, ⟨_, ret, hserves, _⟩, rfl⟩
        · exact ⟨hstart, rfl⟩
        · obtain ⟨w1, s', hhead, _, hreceive, hcallback⟩ := hserves
          have hmute : Mute s :=
            mute_served hinert (mute_head hinert hstart hhead) hreceive hcallback
          exact ⟨hmute, rfl⟩
      obtain ⟨hmute, hok⟩ := hmute
      have hnot : w'.client.status ≠ .err := by
        rw [hok]
        decide
      exact ⟨iff_of_false (by decide) hnot, iff_of_false hnot fun hloud => hloud hmute⟩
  | err =>
      obtain ⟨w1, s, hhead, hactive, hreceive, rfl⟩ := emqProcess_err h
      refine ⟨iff_of_true rfl rfl, iff_of_true rfl fun hmute => ?_⟩
      exact hnever w1 hhead hactive
        (stray_of_mute (mute_head hinert hstart hhead) hreceive hmute)

theorem untagged_congr {k k' : Kernel} (hread : k'.read = k.read) (c : Command) (w : World) :
    Untagged k' c w ↔ Untagged k c w := by
  simp only [Untagged, delivers_congr hread]

/-- Whatever the reads of the kernel do, the return value, the status and the error text of
a call agree under every way of taking its writes and allocations iff what is read of its
response is none of the three; and those of `emq_process` agree iff no stray event comes
up. -/
theorem results_agree_iff (k : Kernel) (w : World) (hready : Ready w.client) :
    (∀ c, (∀ k', k'.read = k.read → ∀ reply w', exec k' c w = .returned reply w' →
        Agrees c reply w') ↔
      (Delivers k w.reads [Finish.head (finish c)] → ¬ Unmapped c w) ∧ ¬ Untagged k c w ∧
        (Delivers k w.reads [8, 4] → ¬ SizeFails c w)) ∧
    ∀ callbacks, Inert callbacks →
      ((∀ status w', emqProcess k callbacks w = .returned status w' →
          ProcessAgrees status w') ↔
        ∀ w1, LoopHead k callbacks (withError .none w) w1 → ¬ Idle w1.client →
          ¬ Stray k w1) := by
  constructor
  · intro c
    constructor
    · intro h
      refine ⟨fun hread hunmapped => ?_, fun huntagged => ?_, fun hread hsize => ?_⟩
      · obtain ⟨reply, w', hexec, hnot⟩ := unmapped_disagrees k hready hread hunmapped
        exact hnot (h (withholding k) rfl reply w' hexec)
      · obtain ⟨reply, w', hexec, hnot⟩ := untagged_disagrees k hready huntagged
        exact hnot (h (transmitting k) rfl reply w' hexec)
      · obtain ⟨reply, w', hexec, hnot⟩ := sizeFails_disagrees k hready hread hsize
        exact hnot (h (transmitting k) rfl reply w' hexec)
    · rintro ⟨hmapped, htagged, hsize⟩ k' hread reply w' hexec
      rw [← delivers_congr hread] at hmapped hsize
      rw [← untagged_congr hread] at htagged
      exact exec_agrees hready hmapped htagged hsize hexec
  · intro callbacks hinert
    constructor
    · intro h w1 hhead hactive hstray
      obtain ⟨w2, hreceive, hmute⟩ :=
        mute_of_stray (mute_head hinert (w := withError .none w) rfl hhead) hstray
      have hprocess := emqProcess_of_error (hinert.useLibrary k) hready hhead hactive hreceive
      exact (h _ _ hprocess).text.mp rfl hmute
    · intro hnever status w' hprocess
      exact emqProcess_agrees hinert hnever hprocess

def erring : World :=
  World.connected [] (ProtocolResponseHeader.mk emqProtocolRes ProtocolCommand.ping.code
    ProtocolResponseStatus.error.code 0).bytes

/-- The general error has no text. -/
theorem general_error_untold :
    ¬ ((∀ (k : Kernel) (c : Command) (w w' : World) (reply : Reply), Kernel.ReadsOk k →
        Reachable k w → exec k c w = .returned reply w' → Agrees c reply w') ∧
      ∀ (k : Kernel) (callbacks : Callbacks) (w w' : World) (status : Status),
        Kernel.ReadsOk k → Inert callbacks → Reachable k w →
        emqProcess k callbacks w = .returned status w' → ProcessAgrees status w') := by
  rintro ⟨h, _⟩
  have hresult : (exec generous .ping erring).result = some (.status .err) := by decide +kernel
  have htext : (exec generous .ping erring).state.client.error = "" := by decide +kernel
  have hagrees := h generous .ping erring _ _ generous_reliable.reads ⟨[], _, .refl⟩
    (Outcome.eq_returned_state hresult)
  exact hagrees.text.mp ((hagrees.value rfl).mp rfl) htext

theorem results_agree_iff_pong :
    (∀ reply w', exec generous .ping pong = .returned reply w' → Agrees .ping reply w') ∧
      ∀ status w', emqProcess generous content notified = .returned status w' →
        ProcessAgrees status w' := by
  have hready : Ready notified.client := ⟨⟨_, rfl, by decide +kernel⟩, rfl⟩
  have hinert : Inert content := fun _ _ w _ _ h => by
    cases h
    exact ⟨w.client.noack, rfl⟩
  constructor
  · refine ((results_agree_iff generous pong (ready_connected _ _)).1 .ping).mpr ⟨?_, ?_, ?_⟩
      generous rfl
    · rintro _ ⟨⟨_, _, _, _, hstatus⟩, _⟩
      exact hstatus (by decide +kernel)
    · rintro ⟨⟨_, h⟩, _⟩
      cases h
    · rintro _ ⟨⟨_, h⟩, _⟩
      cases h
  · refine ((results_agree_iff generous notified hready).2 content hinert).mpr
      fun w1 hhead _ hstray => ?_
    rcases Relation.ReflTransGen.cases_head hhead with heq | ⟨s, hturn, hmore⟩
    · have hknown : subscriber (.parse (withError .none notified).input)
          (withError .none notified).client
          (((withError .none notified).input.drop 8).take 64) ≠ none := by
        decide +kernel
      rw [heq] at hknown
      exact hknown hstray.2.2.1
    · have huse := hinert.useLibrary generous
      obtain ⟨hreadyS, hless⟩ := turn_input huse (w := withError .none notified) hready hturn
      have hsuffix := (Steps.advances (LoopHead.steps huse hmore) hreadyS).suffix.length_le
      have hlength : (withError .none notified).input.length = 72 := by decide +kernel
      have hlong := hstray.2.1
      have harrays := prefixSize_ge (.parse w1.input)
      omega

end Libemq.ErrorTexts
