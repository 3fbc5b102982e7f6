import Libemq.Subscriptions

namespace Libemq.RecordLists

open Libemq.Blocks (Memory)
open Libemq.ExitCode
open Libemq.Inventories
open Libemq.Client
open Libemq.Network
open Libemq.Commands
open Libemq.Responses
open Libemq.LinkedLists
open Libemq.HeapLists
open Libemq.Connections
open Libemq.Subscriptions

def zeroRecord (kind : RecordKind) : Resource := .record (kind.decode (List.replicate kind.size 0))

/-- The loop over the records of a body in `buffer`, from offset `i`, with what follows it. A
record that is refused ends it. The result of `emq_list_add_value` is not looked at. -/
def recordLoop (grants : Nat → Nat → Bool) (kind : RecordKind) (bodylen buffer l : Nat) :
    (fuel : Nat) → (i : Nat) → Life (Option Nat)
  | 0, _ => failure
  | fuel + 1, i =>
      if i < bodylen then do
        match ← acquire grants kind.size (zeroRecord kind) with
        | none => do
            emqListRelease l
            free buffer
            pure none
        | some record => do
            let body ← load Resource.buffer? buffer
            if i + kind.size ≤ body.length then do
              store record (.record (kind.decode ((body.drop i).take kind.size)))
              let _ ← emqListAddValue grants l record
              recordLoop grants kind bodylen buffer l fuel ((i + kind.size) % 4294967296)
            else failure
      else do
        free buffer
        pure (some l)

/-- A list function once the status of its response is checked, with what `emq_client_read`
puts into the buffer, or nothing when it fails. -/
def readRecords (grants : Nat → Nat → Bool) (kind : RecordKind) (bodylen : Nat)
    (received : Option (List UInt8)) : Life (Option Nat) := do
  match ← acquire grants bodylen (.buffer []) with
  | none => pure none
  | some buffer =>
      match received with
      | none => do
          free buffer
          pure none
      | some body => do
          store buffer (.buffer body)
          match ← emqListInit grants with
          | none => do
              free buffer
              pure none
          | some l => do
              setFreeMethod (some l)
              recordLoop grants kind bodylen buffer l (bodylen + 1) 0

section Turns

variable (grants : Nat → Nat → Bool) (kind : RecordKind)

/-- How often the loop asks for a record when so many bytes are left. The last record may be cut
short. -/
def turns (length : Nat) : Nat := (length + kind.size - 1) / kind.size

def recordsGranted : (turns call : Nat) → Bool
  | 0, _ => true
  | turns + 1, call => grants call kind.size && recordsGranted turns (call + 2)

/-- The records whose node is refused, up to the first record that is. -/
def strayRecords : (turns call : Nat) → List Nat
  | 0, _ => []
  | turns + 1, call =>
      if grants call kind.size then
        (if grants (call + 1) 24 then [] else [call]) ++ strayRecords turns (call + 2)
      else []

def listedRecords (body : List UInt8) : (turns call i : Nat) → List Record → List Record
  | 0, _, _, list => list
  | turns + 1, call, i, list =>
      listedRecords body turns (call + 2) (i + kind.size)
        (if grants (call + 1) 24 then kind.decode ((body.drop i).take kind.size) :: list else list)

variable {kind}

theorem turns_zero : turns kind 0 = 0 := by
  rw [turns, Nat.zero_add]
  exact Nat.div_eq_of_lt (Nat.sub_lt (RecordKind.size_pos kind) Nat.one_pos)

theorem turns_of_pos {length : Nat} (hpos : 0 < length) :
    turns kind length = turns kind (length - kind.size) + 1 := by
  have hsize := RecordKind.size_pos kind
  have hmore : length + kind.size - 1 = length - 1 + kind.size := by omega
  rw [turns, turns, hmore, Nat.add_div_right _ hsize, Nat.add_left_inj]
  by_cases hlast : length ≤ kind.size
  · rw [Nat.div_eq_of_lt (by omega), Nat.div_eq_of_lt (by omega)]
  · congr 1
    omega

end Turns

/-- The list at `l` consists of nodes that hold these records. -/
def Lists (mem : Memory Resource) (l : Nat) (nodes : List (Nat × Nat)) (records : List Record) :
    Prop :=
  Chain mem l true nodes ∧ Contents mem nodes (records.map .record)

section Loop

variable {grants : Nat → Nat → Bool} {kind : RecordKind} {mem mem' : Memory Resource}
  {bodylen buffer l : Nat} {nodes : List (Nat × Nat)} {records : List Record} {rest : List Nat}
  {body : List UInt8}

theorem Lists.freeable (h : Lists mem l nodes records) : Freeable mem nodes := by
  intro v hv
  obtain ⟨cell, hmem, hcell⟩ := h.2.value hv
  obtain ⟨record, _, rfl⟩ := List.mem_map.mp hmem
  exact ⟨_, hcell, rfl⟩

theorem Lists.congr (h : Lists mem l nodes records)
    (hsame : ∀ b ∈ owned l nodes, mem'.cells b = mem.cells b) : Lists mem' l nodes records :=
  ⟨h.1.congr fun b hb => hsame b (List.cons_subset_cons _ (pointers_subset _) hb),
    h.2.congr fun v hv => hsame v (List.mem_cons_of_mem _ (values_subset _ hv))⟩

variable (grants kind body l)

/-- What can come of the loop when it is at offset `i`. -/
inductive LoopOutcome (i : Nat) (mem : Memory Resource) (records : List Record)
    (rest : List Nat) : Option (Option Nat × Memory Resource) → Prop
  | listed (mem' : Memory Resource) (nodes : List (Nat × Nat))
      (hwhole : kind.size ∣ body.length - i)
      (hgranted : recordsGranted grants kind (turns kind (body.length - i)) mem.calls = true)
      (hlists : Lists mem' l nodes
        (listedRecords grants kind body (turns kind (body.length - i)) mem.calls i records))
      (htraded : Traded mem mem' (owned l nodes ++
        strayRecords grants kind (turns kind (body.length - i)) mem.calls) rest) :
      LoopOutcome i mem records rest (some (some l, mem'))
  | refused (mem' : Memory Resource)
      (hgranted : recordsGranted grants kind (turns kind (body.length - i)) mem.calls = false)
      (htraded : Traded mem mem'
        (strayRecords grants kind (turns kind (body.length - i)) mem.calls) rest) :
      LoopOutcome i mem records rest (some (none, mem'))
  | overrun (hwhole : ¬ kind.size ∣ body.length - i)
      (hgranted : recordsGranted grants kind (turns kind (body.length - i)) mem.calls = true) :
      LoopOutcome i mem records rest none

variable {grants kind body l}

theorem free_buffer (hstock : Stocks mem (buffer :: rest))
    (hbuffer : mem.cells buffer = some (.buffer body)) :
    free buffer mem = some ((), mem.drop buffer) ∧ Traded mem (mem.drop buffer) [] rest :=
  ⟨free_eq hbuffer rfl, Traded.drop (show Stocks mem (buffer :: [] ++ rest) from hstock)⟩

theorem loop_done {i : Nat} (hdone : body.length - i = 0) (hi : ¬ i < body.length)
    (hstock : Stocks mem (owned l nodes ++ (buffer :: rest)))
    (hbuffer : mem.cells buffer = some (.buffer body)) (hlists : Lists mem l nodes records)
    (fuel : Nat) :
    LoopOutcome grants kind l body i mem records rest
      (recordLoop grants kind body.length buffer l (fuel + 1) i mem) := by
  have hstock' : Stocks mem (buffer :: owned l nodes ++ rest) := hstock.perm List.perm_middle
  have hnot := (List.nodup_cons.mp hstock'.nodup).1
  have hdrop := Traded.drop hstock'
  rw [recordLoop, if_neg hi, bind_of_some (free_eq hbuffer rfl), pure_apply]
  refine .listed _ nodes ?_ ?_ ?_ ?_
  · simp [hdone]
  · rw [hdone, turns_zero, recordsGranted]
  · rw [hdone, turns_zero, listedRecords]
    refine hlists.congr fun b hb => Memory.drop_cells_of_ne ?_
    rintro rfl
    exact hnot (List.mem_append_left _ hb)
  · rw [hdone, turns_zero, strayRecords, List.append_nil]
    exact hdrop

theorem loop_refused {i : Nat} (hi : i < body.length) (hgrant : grants mem.calls kind.size = false)
    (hstock : Stocks mem (owned l nodes ++ (buffer :: rest)))
    (hbuffer : mem.cells buffer = some (.buffer body)) (hlists : Lists mem l nodes records)
    (fuel : Nat) :
    LoopOutcome grants kind l body i mem records rest
      (recordLoop grants kind body.length buffer l (fuel + 1) i mem) := by
  have hturns := @turns_of_pos kind _ (Nat.sub_pos_of_lt hi)
  obtain ⟨mem1, hrelease, _, htraded1⟩ := emqListRelease_chain (fun _ => rfl) hstock.refuse
    (hlists.1.congr fun _ _ => rfl) (hlists.freeable : Freeable mem.refuse nodes)
  have hbuffer1 : mem1.cells buffer = some (.buffer body) :=
    (htraded1.frame buffer List.mem_cons_self).trans hbuffer
  obtain ⟨hfree, htraded2⟩ := free_buffer htraded1.stock hbuffer1
  rw [recordLoop, if_pos hi, bind_of_some (acquire_refused hgrant)]
  simp only
  rw [bind_of_some hrelease, bind_of_some hfree, pure_apply]
  refine .refused _ ?_ ?_
  · rw [hturns, recordsGranted, hgrant, Bool.false_and]
  · rw [hturns, strayRecords, hgrant, if_neg Bool.false_ne_true]
    have hrefuse := Traded.refuse hstock
    exact hrefuse.andThen (List.subset_cons_self _ rest)
      (htraded1.andThen (List.subset_cons_self _ rest) htraded2)

theorem LoopOutcome.turn {i : Nat} {mem2 : Memory Resource} {extra new kept : List Nat}
    {result : Option (Option Nat × Memory Resource)} (hroom : i + kind.size ≤ body.length)
    (hgrant : grants mem.calls kind.size = true)
    (hextra : (if grants (mem.calls + 1) 24 then [] else [mem.calls]) = extra)
    (hcalls : mem2.calls = mem.calls + 2) (hbefore : Traded mem mem2 new kept)
    (hsubset : rest ⊆ kept) (h : LoopOutcome grants kind l body (i + kind.size) mem2
      (if grants (mem.calls + 1) 24 then kind.decode ((body.drop i).take kind.size) :: records
        else records) (extra ++ rest) result) :
    LoopOutcome grants kind l body i mem records rest result := by
  have hpos := RecordKind.size_pos kind
  have hturns : turns kind (body.length - i) = turns kind (body.length - (i + kind.size)) + 1 := by
    rw [turns_of_pos (by omega), Nat.sub_sub]
  have hgranted : recordsGranted grants kind (turns kind (body.length - i)) mem.calls =
      recordsGranted grants kind (turns kind (body.length - (i + kind.size))) mem2.calls := by
    rw [hturns, recordsGranted, hgrant, Bool.true_and, hcalls]
  have hstrays : strayRecords grants kind (turns kind (body.length - i)) mem.calls =
      extra ++ strayRecords grants kind (turns kind (body.length - (i + kind.size)))
        mem2.calls := by
    rw [hturns, strayRecords, if_pos hgrant, hextra, hcalls]
  have hwhole : kind.size ∣ body.length - i ↔ kind.size ∣ body.length - (i + kind.size) := by
    have hrest : body.length - i = body.length - (i + kind.size) + kind.size := by omega
    rw [hrest]
    exact Nat.dvd_add_self_right
  have hwiden : ∀ {mem' : Memory Resource} {new : List Nat},
      Traded mem2 mem' new (extra ++ rest) → Traded mem mem' (new ++ extra) rest :=
    fun htraded => hbefore.andThen hsubset htraded.widen
  cases h with
  | listed mem' nodes hdvd hall hlists htraded =>
      refine .listed mem' nodes (hwhole.mpr hdvd) (hgranted.trans hall) ?_ ?_
      · rw [hturns, listedRecords, ← hcalls]
        exact hlists
      · rw [hstrays]
        refine (hwiden htraded).perm ?_
        rw [List.append_assoc]
        exact List.perm_append_comm.append_left _
  | refused mem' hall htraded =>
      refine .refused mem' (hgranted.trans hall) ?_
      rw [hstrays]
      exact (hwiden htraded).perm List.perm_append_comm
  | overrun hdvd hall => exact .overrun (fun h => hdvd (hwhole.mp h)) (hgranted.trans hall)

/-- The record is cut short, and the loop reads beyond the buffer. -/
theorem loop_overrun {i : Nat} (hi : i < body.length) (hroom : ¬ i + kind.size ≤ body.length)
    (hgrant : grants mem.calls kind.size = true) (hsane : mem.Sane)
    (hbuffer : mem.cells buffer = some (.buffer body)) (fuel : Nat) :
    LoopOutcome grants kind l body i mem records rest
      (recordLoop grants kind body.length buffer l (fuel + 1) i mem) := by
  have hbuffer1 : (mem.alloc (zeroRecord kind)).cells buffer = some (.buffer body) := by
    rw [hsane.extends_alloc _ buffer (by simp [hbuffer]), hbuffer]
  have hload : load Resource.buffer? buffer (mem.alloc (zeroRecord kind)) =
      some (body, mem.alloc (zeroRecord kind)) := load_eq hbuffer1 rfl
  have hlast : body.length - i - kind.size = 0 := by omega
  rw [recordLoop, if_pos hi, bind_of_some (acquire_granted hgrant)]
  simp only
  rw [bind_of_some hload, if_neg hroom]
  refine .overrun (fun hdvd => ?_) ?_
  · have hle := Nat.le_of_dvd (Nat.sub_pos_of_lt hi) hdvd
    omega
  · rw [turns_of_pos (Nat.sub_pos_of_lt hi), hlast, turns_zero, recordsGranted, hgrant,
      recordsGranted, Bool.true_and]

theorem recordLoop_spec (hbody : body.length < 4294967296) (fuel : Nat) :
    ∀ {i : Nat} {mem : Memory Resource} {nodes : List (Nat × Nat)} {records : List Record}
      {rest : List Nat}, body.length - i < fuel → Stocks mem (owned l nodes ++ (buffer :: rest)) →
      mem.cells buffer = some (.buffer body) → Lists mem l nodes records →
      LoopOutcome grants kind l body i mem records rest
        (recordLoop grants kind body.length buffer l fuel i mem) := by
  induction fuel with
  | zero =>
      intro i mem nodes records rest hfuel
      exact absurd hfuel (Nat.not_lt_zero _)
  | succ fuel ih =>
      intro i mem nodes records rest hfuel hstock hbuffer hlists
      have hpos := RecordKind.size_pos kind
      by_cases hi : i < body.length
      · cases hgrant : grants mem.calls kind.size with
        | false => exact loop_refused hi hgrant hstock hbuffer hlists fuel
        | true =>
            by_cases hroom : i + kind.size ≤ body.length
            · have hbuffer1 : (mem.alloc (zeroRecord kind)).cells buffer =
                  some (.buffer body) := by
                rw [hstock.sane.extends_alloc _ buffer (by simp [hbuffer]), hbuffer]
              have hload : load Resource.buffer? buffer (mem.alloc (zeroRecord kind)) =
                  some (body, mem.alloc (zeroRecord kind)) := load_eq hbuffer1 rfl
              have hcreated := @created_stored mem (buffer :: rest) (owned l nodes)
                (.record (kind.decode ((body.drop i).take kind.size))) hstock (zeroRecord kind)
              have hwrap : (i + kind.size) % 4294967296 = i + kind.size :=
                Nat.mod_eq_of_lt (by omega)
              rw [recordLoop, if_pos hi, bind_of_some (acquire_granted hgrant)]
              simp only
              rw [bind_of_some hload, if_pos hroom,
                bind_of_some (store_used Memory.alloc_cells_self), hwrap]
              generalize stored _ _ _ = mem1 at hcreated ⊢
              have hlists1 := hlists.congr hcreated.same
              have hbuffer2 : mem1.cells buffer = some (.buffer body) :=
                (hcreated.traded.frame buffer List.mem_cons_self).trans hbuffer
              cases hnode : grants (mem.calls + 1) 24 with
              | true =>
                  rw [← hcreated.calls] at hnode
                  obtain ⟨mem2, hadd, hcalls, htraded, hchain, hvalues⟩ :=
                    emqListAddValue_granted hnode hcreated.traded.stock hlists1.1
                  rw [hcreated.calls] at hnode hcalls
                  rw [bind_of_some hadd]
                  refine .turn hroom hgrant (if_pos hnode) hcalls
                    (hcreated.traded.trans htraded) (List.subset_cons_self _ rest)
                    (ih (by omega) htraded.stock ?_ ⟨hchain, ?_⟩)
                  · exact (htraded.frame buffer List.mem_cons_self).trans hbuffer2
                  · rw [if_pos hnode, List.map_cons]
                    refine .cons ((hvalues _ List.mem_cons_self).trans hcreated.cell) ?_
                    exact hlists1.2.congr fun v hv => hvalues v (List.mem_cons_of_mem _ hv)
              | false =>
                  rw [← hcreated.calls] at hnode
                  have hadd := @emqListAddValue_refused mem1 l mem.calls grants hnode
                  rw [hcreated.calls] at hnode
                  rw [bind_of_some hadd]
                  have hlost : (mem.calls :: owned l nodes ++ (buffer :: rest)).Perm
                      (owned l nodes ++ (buffer :: ([mem.calls] ++ rest))) := by
                    refine List.perm_middle.symm.trans ((List.Perm.append_left _ ?_))
                    exact .swap _ _ _
                  refine .turn hroom hgrant (if_neg (by simp [hnode])) ?_
                    (hcreated.traded.trans (.refuse hcreated.traded.stock))
                    (List.subset_cons_self _ rest)
                    (ih (by omega) (hcreated.traded.stock.refuse.perm hlost) hbuffer2 ?_)
                  · exact congrArg (· + 1) hcreated.calls
                  · rw [if_neg (by simp [hnode])]
                    exact hlists1.congr fun _ _ => rfl
            · exact loop_overrun hi hroom hgrant hstock.sane hbuffer fuel
      · exact loop_done (by omega) hi hstock hbuffer hlists fuel

end Loop

section Read

variable (grants : Nat → Nat → Bool) (kind : RecordKind) (bodylen : Nat)
  (received : Option (List UInt8))

def looped (call : Nat) : Bool := grants call bodylen && received.isSome && grants (call + 1) 32

def completed (call : Nat) : Bool :=
  looped grants bodylen received call && recordsGranted grants kind (turns kind bodylen) (call + 2)

/-- The records that are in no list. -/
def lostRecords (call : Nat) : List Nat :=
  if looped grants bodylen received call then
    strayRecords grants kind (turns kind bodylen) (call + 2)
  else []

def fetched (call : Nat) : List Record :=
  listedRecords grants kind (received.getD []) (turns kind bodylen) (call + 2) 0 []

/-- What can come of a list function. -/
inductive ReadOutcome (mem : Memory Resource) (rest : List Nat) :
    Option (Option Nat × Memory Resource) → Prop
  | listed (mem' : Memory Resource) (l : Nat) (nodes : List (Nat × Nat))
      (hwhole : kind.size ∣ bodylen) (hcompleted : completed grants kind bodylen received mem.calls)
      (hlists : Lists mem' l nodes (fetched grants kind bodylen received mem.calls))
      (htraded : Traded mem mem' (owned l nodes ++
        lostRecords grants kind bodylen received mem.calls) rest) :
      ReadOutcome mem rest (some (some l, mem'))
  | refused (mem' : Memory Resource)
      (hcompleted : completed grants kind bodylen received mem.calls = false)
      (htraded : Traded mem mem' (lostRecords grants kind bodylen received mem.calls) rest) :
      ReadOutcome mem rest (some (none, mem'))
  | overrun (hwhole : ¬ kind.size ∣ bodylen)
      (hcompleted : completed grants kind bodylen received mem.calls) :
      ReadOutcome mem rest none

variable {grants kind bodylen received} {mem : Memory Resource} {rest : List Nat}

theorem ReadOutcome.early {mem' : Memory Resource}
    (hlooped : looped grants bodylen received mem.calls = false)
    (htraded : Traded mem mem' [] rest) :
    ReadOutcome grants kind bodylen received mem rest (some (none, mem')) := by
  refine .refused mem' ?_ ?_
  · rw [completed, hlooped, Bool.false_and]
  · rw [lostRecords, hlooped, if_neg Bool.false_ne_true]
    exact htraded

theorem LoopOutcome.read {mem1 : Memory Resource} {l : Nat} {body : List UInt8} {new : List Nat}
    {result : Option (Option Nat × Memory Resource)}
    (h : LoopOutcome grants kind l body 0 mem1 [] rest result)
    (hlooped : looped grants body.length (some body) mem.calls = true)
    (hcalls : mem1.calls = mem.calls + 2) (hbefore : Traded mem mem1 new rest) :
    ReadOutcome grants kind body.length (some body) mem rest result := by
  have hcompleted : completed grants kind body.length (some body) mem.calls =
      recordsGranted grants kind (turns kind (body.length - 0)) mem1.calls := by
    rw [completed, hlooped, Bool.true_and, hcalls, Nat.sub_zero]
  have hlost : strayRecords grants kind (turns kind (body.length - 0)) mem1.calls =
      lostRecords grants kind body.length (some body) mem.calls := by
    rw [lostRecords, if_pos hlooped, hcalls, Nat.sub_zero]
  cases h with
  | listed mem' nodes hwhole hgranted hlists htraded =>
      rw [Nat.sub_zero] at hwhole hlists
      refine .listed mem' l nodes hwhole (hcompleted.trans hgranted) ?_
        (hlost ▸ hbefore.trans htraded)
      rw [fetched, Option.getD_some, ← hcalls]
      exact hlists
  | refused mem' hgranted htraded =>
      exact .refused mem' (hcompleted.trans hgranted) (hlost ▸ hbefore.trans htraded)
  | overrun hwhole hgranted =>
      exact .overrun hwhole (hcompleted.trans hgranted)

theorem readRecords_spec (hstock : Stocks mem rest)
    (hbody : ∀ body ∈ received, body.length = bodylen ∧ bodylen < 4294967296) :
    ReadOutcome grants kind bodylen received mem rest
      (readRecords grants kind bodylen received mem) := by
  have hnone : Stocks mem ([] ++ rest) := hstock
  cases hbuffer : grants mem.calls bodylen with
  | false =>
      rw [readRecords, bind_of_some (acquire_refused hbuffer)]
      exact .early (by simp [looped, hbuffer]) (.refuse hnone)
  | true =>
      have halloc := Traded.alloc hnone (.buffer [])
      rw [readRecords, bind_of_some (acquire_granted hbuffer)]
      cases received with
      | none =>
          obtain ⟨hfree, hfreed⟩ := free_buffer halloc.stock Memory.alloc_cells_self
          simp only
          rw [bind_of_some hfree]
          exact .early (by simp [looped]) (halloc.trans hfreed)
      | some body =>
          obtain ⟨rfl, hlength⟩ := hbody body rfl
          have hcreated := @created_stored mem rest [] (.buffer body) hnone (.buffer [])
          simp only
          rw [bind_of_some (store_used Memory.alloc_cells_self)]
          generalize stored _ _ _ = mem1 at hcreated ⊢
          cases hlist : grants (mem.calls + 1) 32 with
          | false =>
              have hcell : mem1.refuse.cells mem.calls = some (.buffer body) := hcreated.cell
              obtain ⟨hfree, hfreed⟩ := free_buffer hcreated.traded.stock.refuse hcell
              have hinit : emqListInit grants mem1 = some (none, mem1.refuse) :=
                acquire_refused (by rw [hcreated.calls, hlist])
              rw [bind_of_some hinit]
              simp only
              rw [bind_of_some hfree]
              exact .early (by simp [looped, hlist]) (hcreated.traded.trans
                ((Traded.refuse hcreated.traded.stock).trans hfreed))
          | true =>
              have hinit : emqListInit grants mem1 =
                  some (some mem1.calls, mem1.alloc (.list .init false)) :=
                acquire_granted (by rw [hcreated.calls, hlist])
              have hlooped : looped grants body.length (some body) mem.calls = true := by
                simp [looped, hbuffer, hlist]
              have htraded1 := Traded.alloc hcreated.traded.stock (.list .init false)
              have htraded2 := htraded1.trans
                (@Traded.stored _ _ _ _ _ (.list .init true) htraded1.stock List.mem_cons_self)
              have hbuffer2 : (stored mem1.calls (.list .init true)
                  (mem1.alloc (.list .init false))).cells mem.calls = some (.buffer body) := by
                have hne : mem.calls ≠ mem1.calls := by simp [hcreated.calls]
                rw [stored_cells_of_ne hne, Memory.alloc_cells_of_ne hne, hcreated.cell]
              have hloop := @recordLoop_spec grants kind mem.calls mem1.calls body hlength
                (body.length + 1) 0 _ [] [] rest (Nat.lt_succ_self _) htraded2.stock hbuffer2
                ⟨chain_init stored_cells_self, rfl⟩
              rw [bind_of_some hinit]
              simp only
              rw [bind_of_some (setFreeMethod_eq Memory.alloc_cells_self)]
              exact hloop.read hlooped (congrArg (· + 1) hcreated.calls)
                (hcreated.traded.trans htraded2)

end Read

end Libemq.RecordLists
