import Libemq.Lifetimes

namespace Libemq.Lockstep

open Libemq.CStrings
open Libemq.ExitCode
open Libemq.Blocks (Memory)
open Libemq.Inventories
open Libemq.Client
open Libemq.Network
open Libemq.Commands
open Libemq.Responses
open Libemq.HeapLists
open Libemq.Connections
open Libemq.Subscriptions
open Libemq.RecordLists

def registry (w : World) : Registry := ⟨w.client.queueSubscriptions, w.client.channelSubscriptions⟩

section Commits

variable {k : Kernel} {commit : Commit} {w : World}

/-- What a commit does is known from the two allocations that it makes. -/
inductive CommitCourse (k : Kernel) (commit : Commit) (w : World) : Exit World Fault Unit → Prop
  | done (w' : World) (hcreated : created k.malloc w.mallocs commit = true)
      (hregistry : registry w' = (registry w).after k.malloc w.mallocs commit) :
      CommitCourse k commit w (.next () w')
  | refused (w' : World) (hcreated : created k.malloc w.mallocs commit = false)
      (hregistry : registry w' = registry w) : CommitCourse k commit w (.error w')

theorem commit_course (hfits : Commit.Fits commit) : CommitCourse k commit w (commit.run k w) := by
  cases commit with
  | nothing => exact .done w rfl rfl
  | unsubscribeQueue name => exact .done _ rfl rfl
  | unsubscribeChannel name => exact .done _ rfl rfl
  | subscribeQueue name callback =>
      have hfits' : strlen name < 64 := hfits
      simp only [Commit.run]
      rw [Code.bind_of_next (emqQueueSubscriptionCreate_apply k hfits callback w)]
      cases hfirst : k.malloc w.mallocs 72 with
      | false => exact .refused _ (by simp [created, Commit.allocation, hfirst]) rfl
      | true =>
          simp only [if_true]
          rw [Code.bind_reads, Code.bind_of_next (emqListAddValue_apply ..)]
          refine .done _ (by simp [created, Commit.allocation, hfirst]) ?_
          cases hsecond : k.malloc (w.mallocs + 1) 24 <;>
            simp [registry, Registry.after, created, listed, Commit.allocation, hfirst, hsecond,
              Commit.queueList, Commit.channelList, hfits']
  | subscribeChannel name data callback =>
      have hfits' : strlen name < 64 ∧ strlen data < 32 := hfits
      simp only [Commit.run]
      rw [Code.bind_of_next (emqChannelSubscriptionCreate_apply k hfits callback w)]
      cases hfirst : k.malloc w.mallocs 104 with
      | false => exact .refused _ (by simp [created, Commit.allocation, hfirst]) rfl
      | true =>
          simp only [if_true]
          rw [Code.bind_reads, Code.bind_of_next (emqListAddValue_apply ..)]
          refine .done _ (by simp [created, Commit.allocation, hfirst]) ?_
          cases hsecond : k.malloc (w.mallocs + 1) 24 <;>
            simp [registry, Registry.after, created, listed, Commit.allocation, hfirst, hsecond,
              Commit.queueList, Commit.channelList, hfits']

end Commits

section Records

variable {k : Kernel} {kind : RecordKind} {body : List UInt8}

/-- What the loop does with these records is known from the allocations, too. -/
inductive LoopCourse (k : Kernel) (kind : RecordKind) (body : List UInt8) (i : Nat)
    (list : List Record) (w : World) : Exit World Fault (List Record) → Prop
  | listed (w' : World) (hwhole : kind.size ∣ body.length - i)
      (hgranted : recordsGranted k.malloc kind (turns kind (body.length - i)) w.mallocs = true) :
      LoopCourse k kind body i list w
        (.next (listedRecords k.malloc kind body (turns kind (body.length - i)) w.mallocs i list)
          w')
  | refused (w' : World)
      (hgranted : recordsGranted k.malloc kind (turns kind (body.length - i)) w.mallocs = false) :
      LoopCourse k kind body i list w (.error w')
  | overrun (w' : World) (hwhole : ¬ kind.size ∣ body.length - i)
      (hgranted : recordsGranted k.malloc kind (turns kind (body.length - i)) w.mallocs = true) :
      LoopCourse k kind body i list w (.fault .bufferOverrun w')

theorem LoopCourse.turn {i : Nat} {list : List Record} {w w2 : World}
    {exit : Exit World Fault (List Record)} (hroom : i + kind.size ≤ body.length)
    (hgrant : k.malloc w.mallocs kind.size = true) (hmallocs : w2.mallocs = w.mallocs + 2)
    (h : LoopCourse k kind body (i + kind.size)
      (if k.malloc (w.mallocs + 1) 24 then kind.decode ((body.drop i).take kind.size) :: list
        else list) w2 exit) : LoopCourse k kind body i list w exit := by
  have hpos := RecordKind.size_pos kind
  have hturns : turns kind (body.length - i) = turns kind (body.length - (i + kind.size)) + 1 := by
    rw [turns_of_pos (by omega), Nat.sub_sub]
  have hgranted : recordsGranted k.malloc kind (turns kind (body.length - i)) w.mallocs =
      recordsGranted k.malloc kind (turns kind (body.length - (i + kind.size))) w2.mallocs := by
    rw [hturns, recordsGranted, hgrant, Bool.true_and, hmallocs]
  have hlisted : listedRecords k.malloc kind body (turns kind (body.length - i)) w.mallocs i list =
      listedRecords k.malloc kind body (turns kind (body.length - (i + kind.size))) w2.mallocs
        (i + kind.size) (if k.malloc (w.mallocs + 1) 24 then
          kind.decode ((body.drop i).take kind.size) :: list else list) := by
    rw [hturns, listedRecords, hmallocs]
  have hwhole : kind.size ∣ body.length - i ↔ kind.size ∣ body.length - (i + kind.size) := by
    have hrest : body.length - i = body.length - (i + kind.size) + kind.size := by omega
    rw [hrest]
    exact Nat.dvd_add_self_right
  cases h with
  | listed w' hdvd hall =>
      rw [← hlisted]
      exact .listed w' (hwhole.mpr hdvd) (hgranted.trans hall)
  | refused w' hall => exact .refused w' (hgranted.trans hall)
  | overrun w' hdvd hall =>
      exact .overrun w' (fun h => hdvd (hwhole.mp h)) (hgranted.trans hall)

theorem loop_course (hbody : body.length < 4294967296) (fuel : Nat) :
    ∀ {i : Nat} {list : List Record} {w : World}, body.length - i < fuel →
      LoopCourse k kind body i list w
        (Commands.recordLoop k kind body body.length fuel i list w) := by
  induction fuel with
  | zero =>
      intro i list w hfuel
      exact absurd hfuel (Nat.not_lt_zero _)
  | succ fuel ih =>
      intro i list w hfuel
      have hpos := RecordKind.size_pos kind
      by_cases hi : i < body.length
      · simp only [Commands.recordLoop, hi, if_true]
        rw [Code.bind_of_next (malloc_apply ..)]
        cases hgrant : k.malloc w.mallocs kind.size with
        | false =>
            refine .refused _ ?_
            rw [turns_of_pos (Nat.sub_pos_of_lt hi), recordsGranted, hgrant, Bool.false_and]
        | true =>
            by_cases hroom : i + kind.size ≤ body.length
            · have hwrap : (i + kind.size) % 4294967296 = i + kind.size :=
                Nat.mod_eq_of_lt (by omega)
              simp only [if_true, hroom, hwrap]
              rw [Code.bind_of_next (emqListAddValue_apply ..)]
              generalize hadded : (if k.malloc _ 24 = true then _ else _) = added
              have hlist : added.2 = if k.malloc (w.mallocs + 1) 24 then
                  kind.decode ((body.drop i).take kind.size) :: list else list := by
                rw [← hadded, consumed_mallocs]
                cases k.malloc (w.mallocs + 1) 24 <;> rfl
              generalize hstate : consumed _ _ _ _ _ = w2
              have hrest := @ih (i + kind.size) added.2 w2 (by omega)
              rw [hlist] at hrest ⊢
              refine LoopCourse.turn hroom hgrant ?_ hrest
              rw [← hstate]
              rfl
            · simp only [if_true, hroom, if_false]
              have hlast : body.length - i - kind.size = 0 := by omega
              refine .overrun _ (fun hdvd => ?_) ?_
              · have hle := Nat.le_of_dvd (Nat.sub_pos_of_lt hi) hdvd
                omega
              · rw [turns_of_pos (Nat.sub_pos_of_lt hi), hlast, turns_zero, recordsGranted, hgrant,
                  recordsGranted, Bool.true_and]
      · have hzero : body.length - i = 0 := by omega
        simp only [Commands.recordLoop, hi, if_false]
        have hlisted : listedRecords k.malloc kind body (turns kind (body.length - i)) w.mallocs i
            list = list := by
          rw [hzero, turns_zero, listedRecords]
        have hdone := @LoopCourse.listed k kind body i list w w (by simp [hzero])
          (by rw [hzero, turns_zero, recordsGranted])
        rw [hlisted] at hdone
        exact hdone

end Records

inductive EditsAgree (client : Nat) (fd : Option Nat) :
    Exit World Fault Unit → Option (Status × Memory Resource) → Prop
  | done (w' : World) (mem' : Memory Resource) (place : Site) (hclient : place.client = client)
      (hkeeps : Keeps mem' place fd (registry w')) :
      EditsAgree client fd (.next () w') (some (.ok, mem'))
  | refused (w' : World) (mem' : Memory Resource) (place : Site) (hclient : place.client = client)
      (hkeeps : Keeps mem' place fd (registry w')) :
      EditsAgree client fd (.error w') (some (.err, mem'))

inductive ListsAgree : Exit World Fault Reply → Option (Option Nat × Memory Resource) → Prop
  | listed (records : List Record) (w' : World) (mem' : Memory Resource) (l : Nat)
      (nodes : List (Nat × Nat)) (hlists : Lists mem' l nodes records) :
      ListsAgree (.next (.list (some records)) w') (some (some l, mem'))
  | failed (w' : World) (mem' : Memory Resource) : ListsAgree (.error w') (some (none, mem'))
  | overrun (w' : World) : ListsAgree (.fault .bufferOverrun w') none

theorem read_body (k : Kernel) {bodylen : Nat} (hbodylen : bodylen < 4294967296) {w w' : World}
    {received : Option (List UInt8)}
    (hread : emqClientRead k (toInt bodylen) w = .next received w') :
    (∀ body ∈ received, body.length = bodylen) ∧ w'.mallocs = w.mallocs := by
  by_cases hle : bodylen ≤ intMax
  · have houtcome := emqClientRead_outcome k hle w
    rw [toInt_natCast hle] at hread
    rw [hread] at houtcome
    generalize hexit : Exit.next received w' = exit at houtcome
    cases houtcome with
    | whole reads henough hreads hpos =>
        cases hexit
        refine ⟨fun body hbody => ?_, rfl⟩
        obtain rfl := Option.some.inj hbody
        rw [List.nil_append, List.length_take, Nat.min_eq_left henough]
    | failed dropped reads hreads hend =>
        cases hexit
        exact ⟨fun _ => nofun, rfl⟩
  · have htoInt := toInt_of_overlong (not_le.mp hle) hbodylen
    have houtcome := @emqClientRead_overlong k (toInt bodylen) (by omega)
      (intMin_le_toInt bodylen) w
    rw [hread] at houtcome
    generalize hexit : Exit.next received w' = exit at houtcome
    cases houtcome with
    | failed dropped reads hreads hend =>
        cases hexit
        exact ⟨fun _ => nofun, rfl⟩
    | overflow => cases hexit

/-- What a list function does once its body is read. -/
inductive ReadCourse (k : Kernel) (kind : RecordKind) (bodylen : Nat)
    (received : Option (List UInt8)) (w : World) : Exit World Fault Reply → Prop
  | listed (w' : World) (hwhole : kind.size ∣ bodylen)
      (hcompleted : completed k.malloc kind bodylen received w.mallocs = true) :
      ReadCourse k kind bodylen received w
        (.next (.list (some (fetched k.malloc kind bodylen received w.mallocs))) w')
  | refused (w' : World)
      (hcompleted : completed k.malloc kind bodylen received w.mallocs = false) :
      ReadCourse k kind bodylen received w (.error w')
  | overrun (w' : World) (hwhole : ¬ kind.size ∣ bodylen)
      (hcompleted : completed k.malloc kind bodylen received w.mallocs = true) :
      ReadCourse k kind bodylen received w (.fault .bufferOverrun w')

def allocated (w : World) : World := consumed w 0 w.reads (w.mallocs + 1) w.failures

theorem read_course (k : Kernel) (kind : RecordKind) {bodylen : Nat}
    (hbodylen : bodylen < 4294967296) {w w1 : World} {received : Option (List UInt8)}
    (hread : emqClientRead k (toInt bodylen) (allocated w) = .next received w1) :
    ReadCourse k kind bodylen received w (Commands.readRecords k kind bodylen w) := by
  unfold Commands.readRecords
  rw [Code.bind_of_next (malloc_apply ..)]
  cases hbuffer : k.malloc w.mallocs bodylen with
  | false => exact .refused _ (by simp [completed, looped, hbuffer])
  | true =>
      have hstate : consumed w 0 w.reads (w.mallocs + 1) (failuresAfter k w bodylen) =
          allocated w := by
        rw [failuresAfter, if_pos hbuffer, allocated]
      obtain ⟨hlength, hmallocs⟩ := read_body k hbodylen hread
      have hmallocs : w1.mallocs = w.mallocs + 1 := hmallocs
      simp only [if_true]
      rw [hstate, Code.bind_of_next hread]
      cases received with
      | none => exact .refused _ (by simp [completed, looped])
      | some body =>
          obtain rfl := hlength body rfl
          simp only
          rw [Code.bind_of_next (malloc_apply ..), hmallocs]
          cases hlist : k.malloc (w.mallocs + 1) 32 with
          | false => exact .refused _ (by simp [completed, looped, hlist])
          | true =>
              have hlooped : looped k.malloc body.length (some body) w.mallocs = true := by
                simp [looped, hbuffer, hlist]
              simp only [if_true]
              generalize hstate2 : consumed w1 _ _ _ _ = w2
              have hmallocs2 : w2.mallocs = w.mallocs + 2 := by
                rw [← hstate2]
                rfl
              have hcompleted : completed k.malloc kind body.length (some body) w.mallocs =
                  recordsGranted k.malloc kind (turns kind (body.length - 0)) w2.mallocs := by
                rw [completed, hlooped, Bool.true_and, hmallocs2, Nat.sub_zero]
              have hcourse := @loop_course k kind body hbodylen (body.length + 1) 0 [] w2
                (Nat.lt_succ_self _)
              generalize hloop : Commands.recordLoop k kind body body.length _ _ _ w2 = exit
                at hcourse
              cases hcourse with
              | listed w' hwhole hgranted =>
                  rw [Code.bind_of_next hloop]
                  have hfetched : fetched k.malloc kind body.length (some body) w.mallocs =
                      listedRecords k.malloc kind body (turns kind (body.length - 0)) w2.mallocs 0
                        [] := by
                    rw [fetched, Option.getD_some, hmallocs2, Nat.sub_zero]
                  rw [← hfetched]
                  exact .listed w' hwhole (hcompleted.trans hgranted)
              | refused w' hgranted =>
                  rw [Code.bind_of_error hloop]
                  exact .refused w' (hcompleted.trans hgranted)
              | overrun w' hwhole hgranted =>
                  rw [Code.bind_of_fault hloop]
                  exact .overrun w' hwhole (hcompleted.trans hgranted)

/-- Whatever is granted, a call that changes subscriptions ends in memory as it does on lists,
and memory holds what the lists have become. -/
theorem edits_agree (k : Kernel) {w : World} {mem : Memory Resource} {place : Site}
    {fd : Option Nat} {rest : List Nat} {commit : Commit} {edit : Edit}
    (hkeeps : Keeps mem place fd (registry w)) (hstock : Stocks mem (place.blocks ++ rest))
    (hcalls : mem.calls = w.mallocs) (hcommit : edit.commit mem = some commit)
    (hfits : Commit.Fits commit) (hsafe : ¬ edit.Dangles place.client mem) :
    EditsAgree place.client fd (commit.run k w) (edit.run k.malloc place.client mem) := by
  obtain ⟨mem', place', hrun, hedited⟩ :=
    @Edit.run_spec k.malloc _ _ _ _ _ _ _ hkeeps hstock hcommit hfits hsafe
  have hcourse := @commit_course k commit w hfits
  have hkept := hedited.keeps
  rw [hcalls] at hkept hrun
  rw [hrun]
  generalize commit.run k w = exit at hcourse ⊢
  cases hcourse with
  | done w' hcreated hregistry =>
      rw [← hregistry] at hkept
      rw [statusAfter, if_pos hcreated]
      exact .done w' mem' place' hedited.client hkept
  | refused w' hcreated hregistry =>
      have hafter : (registry w).after k.malloc w.mallocs commit = registry w' := by
        simp [Registry.after, hcreated, hregistry]
      rw [hafter] at hkept
      rw [statusAfter, hcreated, if_neg Bool.false_ne_true]
      exact .refused w' mem' place' hedited.client hkept

/-- The first subscription of a connection, whose node is refused. -/
theorem edits_agree_unlisted : ∃ (mem : Memory Resource) (place : Site) (fd : Option Nat),
    EditsAgree place.client fd
    (Commit.run { generous with malloc := fun _ size => size ≠ 24 }
      (.subscribeQueue ⟨[97], by decide⟩ 1) { World.connected [] [] with mallocs := 5 })
    (Edit.run (fun _ size => size ≠ 24) place.client
      (.subscribeQueue (.string ⟨[97], by decide⟩) 1) mem) := by
  obtain ⟨mem, fd, _, hcalls, hconnected, hstock⟩ := first_connection
  have hfits : Commit.Fits (.subscribeQueue ⟨[97], by decide⟩ 1) := by
    show 1 < 64
    decide
  exact ⟨mem, site .empty, some fd, edits_agree _ (Lifetimes.keeps_site hconnected) hstock
    hcalls rfl hfits id⟩

/-- Whatever is granted and whatever arrives, a list function returns a list in memory when it
does on lists, with the same records, and reads beyond the buffer when it does there. -/
theorem lists_agree (k : Kernel) (kind : RecordKind) {bodylen : Nat}
    (hbodylen : bodylen < 4294967296) {w w1 : World} {received : Option (List UInt8)}
    (hread : emqClientRead k (toInt bodylen) (allocated w) = .next received w1)
    {mem : Memory Resource} {rest : List Nat} (hstock : Stocks mem rest)
    (hcalls : mem.calls = w.mallocs) :
    ListsAgree (Commands.readRecords k kind bodylen w)
      (RecordLists.readRecords k.malloc kind bodylen received mem) := by
  have hcourse := read_course k kind hbodylen hread
  have houtcome := @readRecords_spec k.malloc kind bodylen received mem rest hstock
    fun body hbody => ⟨(read_body k hbodylen hread).1 body hbody, hbodylen⟩
  generalize Commands.readRecords k kind bodylen w = exit at hcourse ⊢
  generalize RecordLists.readRecords k.malloc kind bodylen received mem = result at houtcome ⊢
  cases houtcome with
  | listed mem' l nodes hwhole hcompleted hlists htraded =>
      rw [hcalls] at hcompleted hlists
      cases hcourse with
      | listed w' => exact .listed _ w' mem' l nodes hlists
      | refused w' hrefused =>
          rw [hrefused] at hcompleted
          cases hcompleted
      | overrun w' hcut => exact absurd hwhole hcut
  | refused mem' hrefused htraded =>
      rw [hcalls] at hrefused
      cases hcourse with
      | listed w' hwhole hcompleted =>
          rw [hcompleted] at hrefused
          cases hrefused
      | refused w' => exact .failed w' mem'
      | overrun w' hcut hcompleted =>
          rw [hcompleted] at hrefused
          cases hrefused
  | overrun hcut hcompleted =>
      rw [hcalls] at hcompleted
      cases hcourse with
      | listed w' hwhole => exact absurd hwhole hcut
      | refused w' hrefused =>
          rw [hrefused] at hcompleted
          cases hcompleted
      | overrun w' => exact .overrun w'

theorem lists_agree_refused : ListsAgree
    (Commands.readRecords { generous with malloc := fun _ size => size ≠ 24 } .users 72
      (World.connected [] (List.replicate 72 65)))
    (RecordLists.readRecords (fun _ size => size ≠ 24) .users 72 (some (List.replicate 72 65))
      .empty) :=
  @lists_agree { generous with malloc := fun _ size => size ≠ 24 } .users 72 (by decide) _ _ _ rfl
    .empty [] .empty rfl

end Libemq.Lockstep
