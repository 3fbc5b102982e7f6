import Libemq.HeapLists

namespace Libemq.Connections

open Libemq.Blocks (Memory)
open Libemq.Inventories
open Libemq.LinkedLists
open Libemq.Lists
open Libemq.HeapLists

def deref : Option Nat → Life Nat
  | none => failure
  | some b => pure b

def freePointer : Option Nat → Life Unit
  | none => pure ()
  | some b => free b

/-- `close`. A descriptor that is not one of a socket is refused. -/
def close : Option Nat → Life Unit
  | none => pure ()
  | some fd => do
      let _ ← load Resource.socket? fd
      discard fd

def setClient (client : Nat) (f : ClientCell → ClientCell) : Life Unit := do
  let c ← load Resource.client? client
  store client (.client (f c))

/-- `client->member = malloc(size);` -/
def acquireMember (grants : Nat → Nat → Bool) (size : Nat) (fresh : Resource)
    (client : Nat) (member : Option Nat → ClientCell → ClientCell) : Life Unit := do
  let p ← acquire grants size fresh
  setClient client (member p)

def setFreeMethod (l : Option Nat) : Life Unit := do
  let l ← deref l
  let (list, _) ← load Resource.list? l
  store l (.list list true)

def releaseList (l : Option Nat) : Life Unit := do
  let l ← deref l
  emqListRelease l

def freshClient : ClientCell := ⟨none, none, none, none⟩

/-- The three allocations for members of the client. -/
def acquireMembers (grants : Nat → Nat → Bool) (client : Nat) : Life Unit := do
  acquireMember grants 4096 .request client fun p c => { c with request := p }
  acquireMember grants 32 (.list .init false) client fun p c => { c with queueSubscriptions := p }
  acquireMember grants 32 (.list .init false) client fun p c => { c with channelSubscriptions := p }

/-- `if (!client->queue_subscriptions)`. The client is freed, and the code goes on. -/
def checkQueues (client : Nat) : Life Unit := do
  let c ← load Resource.client? client
  if c.queueSubscriptions = none then do
    freePointer c.request
    free client
  else pure ()

/-- `if (!client->channel_subscriptions)`. The same happens here. -/
def checkChannels (client : Nat) : Life Unit := do
  let c ← load Resource.client? client
  if c.channelSubscriptions = none then do
    releaseList c.queueSubscriptions
    freePointer c.request
    free client
  else pure ()

def emqClientInit (grants : Nat → Nat → Bool) : Life (Option Nat) := do
  match ← acquire grants 312 (.client freshClient) with
  | none => pure none
  | some client => do
      acquireMembers grants client
      let c ← load Resource.client? client
      if c.request = none then do
        free client
        pure none
      else do
        checkQueues client
        checkChannels client
        let c ← load Resource.client? client
        setFreeMethod c.queueSubscriptions
        setFreeMethod c.channelSubscriptions
        pure (some client)

def emqClientRelease (client : Nat) : Life Unit := do
  let c ← load Resource.client? client
  releaseList c.queueSubscriptions
  releaseList c.channelSubscriptions
  freePointer c.request
  free client

/-- What the system answers while a connection is set up. -/
structure Attempt where
  socket : Bool
  reuseaddr : Bool
  resolves : Bool
  connects : Bool
  nodelay : Bool
  deriving DecidableEq, Repr

/-- `net_create_socket`. When its option is refused the socket stays open. -/
def netCreateSocket (attempt : Attempt) : Life (Option Nat) := do
  match ← acquire (fun _ _ => attempt.socket) 0 .socket with
  | none => pure none
  | some sock => if attempt.reuseaddr then pure (some sock) else pure none

/-- The course of both ways to connect: whether it ends with `EMQ_NET_OK`. `answers` are those
of the system once there is a socket. -/
def connectSocket (client : Nat) (attempt : Attempt) (answers : Bool) : Life Bool := do
  let fd ← netCreateSocket attempt
  setClient client fun c => { c with fd := fd }
  if fd = none then pure false
  else if answers then pure true
  else do
    let c ← load Resource.client? client
    close c.fd
    pure false

/-- `emq_client_tcp_connect`. Each of the three calls after `net_create_socket` that fails is
answered with `close`. -/
def emqClientTcpConnect (client : Nat) (attempt : Attempt) : Life Bool :=
  connectSocket client attempt (attempt.resolves && attempt.connects && attempt.nodelay)

def emqClientUnixConnect (client : Nat) (attempt : Attempt) : Life Bool :=
  connectSocket client attempt attempt.connects

/-- The course of `emq_tcp_connect` and `emq_unix_connect`. -/
def connectWith (grants : Nat → Nat → Bool) (connect : Nat → Life Bool) : Life (Option Nat) := do
  match ← emqClientInit grants with
  | none => pure none
  | some client => do
      if ← connect client then pure (some client)
      else do
        emqClientRelease client
        pure none

def emqTcpConnect (grants : Nat → Nat → Bool) (attempt : Attempt) : Life (Option Nat) :=
  connectWith grants fun client => emqClientTcpConnect client attempt

def emqUnixConnect (grants : Nat → Nat → Bool) (attempt : Attempt) : Life (Option Nat) :=
  connectWith grants fun client => emqClientUnixConnect client attempt

def emqClientDisconnect (client : Nat) : Life Unit := do
  let c ← load Resource.client? client
  close c.fd

def emqDisconnect : Option Nat → Life Unit
  | none => pure ()
  | some client => do
      emqClientDisconnect client
      emqClientRelease client

/-- Where the memory of a client is. -/
structure Site where
  client : Nat
  request : Nat
  queues : Nat
  channels : Nat
  queueNodes : List (Nat × Nat)
  channelNodes : List (Nat × Nat)

def Site.blocks (site : Site) : List Nat :=
  site.client :: site.request ::
    (owned site.queues site.queueNodes ++ owned site.channels site.channelNodes)

/-- A client with its members. -/
structure Attached (mem : Memory Resource) (site : Site) (fd : Option Nat) : Prop where
  client : mem.cells site.client =
    some (.client ⟨some site.request, some site.queues, some site.channels, fd⟩)
  request : mem.cells site.request = some .request
  queues : Chain mem site.queues true site.queueNodes
  channels : Chain mem site.channels true site.channelNodes
  queueValues : Freeable mem site.queueNodes
  channelValues : Freeable mem site.channelNodes

section Steps

variable {grants : Nat → Nat → Bool} {mem mem' : Memory Resource} {client : Nat} {c : ClientCell}
  {old rest : List Nat}

theorem setClient_eq (hclient : mem.cells client = some (.client c)) (f : ClientCell → ClientCell) :
    setClient client f mem = some ((), stored client (.client (f c)) mem) := by
  have hload : load Resource.client? client mem = some (c, mem) := load_eq hclient rfl
  rw [setClient, bind_of_some hload, store_used hclient]

/-- What an allocation gives. -/
def given (grants : Nat → Nat → Bool) (call size : Nat) : Option Nat :=
  if grants call size then some call else none

theorem acquireMember_spec {size : Nat} {fresh : Resource}
    {member : Option Nat → ClientCell → ClientCell}
    (hclient : mem.cells client = some (.client c)) (hstock : Stocks mem (client :: old ++ rest)) :
    ∃ mem', acquireMember grants size fresh client member mem = some ((), mem') ∧
      mem'.calls = mem.calls + 1 ∧
      mem'.cells client = some (.client (member (given grants mem.calls size) c)) ∧
      (∀ b ∈ given grants mem.calls size, mem'.cells b = some fresh) ∧
      Traded mem mem' (client :: ((given grants mem.calls size).toList ++ old)) rest ∧
      ∀ b ∈ old, mem'.cells b = mem.cells b := by
  have hfresh : mem.calls ∉ client :: old ++ rest := hstock.fresh
  have hnotOld : ∀ b ∈ old, b ≠ client := fun b hb =>
    ne_of_mem_of_not_mem hb (fun hmem => (List.nodup_cons.mp hstock.nodup).1
      (List.mem_append_left _ hmem))
  cases hgrant : grants mem.calls size with
  | true =>
      have hgiven : given grants mem.calls size = some mem.calls := if_pos hgrant
      have hne : client ≠ mem.calls := fun heq => hfresh (by simp [heq])
      have hclient1 : (mem.alloc fresh).cells client = some (.client c) := by
        rw [Memory.alloc_cells_of_ne hne, hclient]
      have halloc := (Traded.alloc hstock fresh).perm (List.Perm.swap client mem.calls old)
      have hstored := halloc.trans
        (@Traded.stored _ _ _ _ _ (.client (member (some mem.calls) c)) halloc.stock
          List.mem_cons_self)
      rw [hgiven]
      refine ⟨_, ?_, rfl, stored_cells_self, ?_, hstored, fun b hb => ?_⟩
      · rw [acquireMember, bind_of_some (acquire_granted hgrant), setClient_eq hclient1]
      · rintro b hb
        obtain rfl := Option.some.inj hb
        rw [stored_cells_of_ne hne.symm, Memory.alloc_cells_self]
      · rw [stored_cells_of_ne (hnotOld b hb), Memory.alloc_cells_of_ne]
        rintro rfl
        exact hfresh (by simp [hb])
  | false =>
      have hgiven : given grants mem.calls size = none := if_neg (by simp [hgrant])
      have hrefuse := Traded.refuse hstock
      have hstored := hrefuse.trans
        (@Traded.stored _ _ _ _ _ (.client (member none c)) hrefuse.stock List.mem_cons_self)
      rw [hgiven]
      refine ⟨_, ?_, rfl, stored_cells_self, by simp, hstored, fun b hb => ?_⟩
      · have hclient1 : mem.refuse.cells client = some (.client c) := hclient
        rw [acquireMember, bind_of_some (acquire_refused hgrant), setClient_eq hclient1]
      · rw [stored_cells_of_ne (hnotOld b hb), Memory.refuse_cells]

theorem acquireMembers_spec (hclient : mem.cells client = some (.client freshClient))
    (hstock : Stocks mem (client :: rest)) {request queues channels : Option Nat}
    (hrequest : given grants mem.calls 4096 = request)
    (hqueues : given grants (mem.calls + 1) 32 = queues)
    (hchannels : given grants (mem.calls + 2) 32 = channels) :
    ∃ mem', acquireMembers grants client mem = some ((), mem') ∧ mem'.calls = mem.calls + 3 ∧
      mem'.cells client = some (.client ⟨request, queues, channels, none⟩) ∧
      (∀ b ∈ request, mem'.cells b = some .request) ∧
      (∀ b ∈ queues, mem'.cells b = some (.list .init false)) ∧
      (∀ b ∈ channels, mem'.cells b = some (.list .init false)) ∧
      Traded mem mem' (client :: (channels.toList ++ (queues.toList ++ request.toList))) rest := by
  have hstock0 : Stocks mem (client :: [] ++ rest) := hstock
  obtain ⟨mem1, hrun1, hcalls1, hclient1, hrequest1, htraded1, _⟩ :=
    @acquireMember_spec grants _ _ _ _ _ 4096 .request
      (fun p c => { c with request := p }) hclient hstock0
  rw [hrequest] at hclient1 hrequest1 htraded1
  obtain ⟨mem2, hrun2, hcalls2, hclient2, hqueues2, htraded2, hsame2⟩ :=
    @acquireMember_spec grants _ _ _ _ _ 32 (.list .init false)
      (fun p c => { c with queueSubscriptions := p }) hclient1 htraded1.stock
  rw [hcalls1, hqueues] at hclient2 hqueues2 htraded2
  obtain ⟨mem3, hrun3, hcalls3, hclient3, hchannels3, htraded3, hsame3⟩ :=
    @acquireMember_spec grants _ _ _ _ _ 32 (.list .init false)
      (fun p c => { c with channelSubscriptions := p }) hclient2 htraded2.stock
  rw [hcalls2, hcalls1, hchannels] at hclient3 hchannels3 htraded3
  refine ⟨mem3, ?_, by rw [hcalls3, hcalls2, hcalls1], hclient3, fun b hb => ?_, fun b hb => ?_,
    hchannels3, ?_⟩
  · rw [acquireMembers, bind_of_some hrun1, bind_of_some hrun2, hrun3]
  · rw [hsame3 b (by simp [Option.mem_def.mp hb]), hsame2 b (by simp [Option.mem_def.mp hb]),
      hrequest1 b hb]
  · rw [hsame3 b (by simp [Option.mem_def.mp hb]), hqueues2 b hb]
  · simpa using (htraded1.trans htraded2).trans htraded3

theorem freePointer_some {b : Nat} {cell : Resource} (hcell : mem.cells b = some cell)
    (hblock : cell.block? = some ()) : freePointer (some b) mem = some ((), mem.drop b) :=
  free_eq hcell hblock

theorem load_dropped {α : Type} {kind : Resource → Option α} {b : Nat} :
    load kind b (mem.drop b) = none := load_unused Memory.drop_cells_self

theorem load_client (hclient : mem.cells client = some (.client c)) :
    load Resource.client? client mem = some (c, mem) := load_eq hclient rfl

theorem chain_init {l : Nat} {method : Bool} (hlist : mem.cells l = some (.list .init method)) :
    Chain mem l method [] := ⟨_, hlist, ⟨rfl, rfl⟩, rfl, List.nodup_nil⟩

theorem freeable_nil : Freeable mem [] := by simp [Freeable]

theorem setFreeMethod_eq {l : Nat} {list : EmqList} {method : Bool}
    (hlist : mem.cells l = some (.list list method)) :
    setFreeMethod (some l) mem = some ((), stored l (.list list true) mem) := by
  have hload : load Resource.list? l mem = some ((list, method), mem) := load_eq hlist rfl
  rw [setFreeMethod, bind_of_some (show deref (some l) mem = some (l, mem) from rfl),
    bind_of_some hload]
  exact store_used hlist

end Steps

section Init

variable {grants : Nat → Nat → Bool} {mem : Memory Resource} {rest : List Nat}

theorem given_granted {call size : Nat} (h : grants call size = true) :
    given grants call size = some call := if_pos h

theorem given_refused {call size : Nat} (h : grants call size = false) :
    given grants call size = none := if_neg (by simp [h])

theorem emqClientInit_refused (hclient : grants mem.calls 312 = false) :
    emqClientInit grants mem = some (none, mem.refuse) := by
  rw [emqClientInit, bind_of_some (acquire_refused hclient)]
  rfl

theorem emqClientInit_members (hclient : grants mem.calls 312 = true) (hstock : Stocks mem rest)
    {request queues channels : Option Nat}
    (hrequest : given grants (mem.calls + 1) 4096 = request)
    (hqueues : given grants (mem.calls + 2) 32 = queues)
    (hchannels : given grants (mem.calls + 3) 32 = channels) :
    ∃ mem', mem'.calls = mem.calls + 4 ∧
      mem'.cells mem.calls = some (.client ⟨request, queues, channels, none⟩) ∧
      (∀ b ∈ request, mem'.cells b = some .request) ∧
      (∀ b ∈ queues, mem'.cells b = some (.list .init false)) ∧
      (∀ b ∈ channels, mem'.cells b = some (.list .init false)) ∧
      Traded mem mem' (mem.calls :: (channels.toList ++ (queues.toList ++ request.toList))) rest ∧
      emqClientInit grants mem = (do
        if request = none then do
          free mem.calls
          pure none
        else do
          checkQueues mem.calls
          checkChannels mem.calls
          let c ← load Resource.client? mem.calls
          setFreeMethod c.queueSubscriptions
          setFreeMethod c.channelSubscriptions
          pure (some mem.calls)) mem' := by
  have halloc : Traded mem (mem.alloc (.client freshClient)) [mem.calls] rest :=
    Traded.alloc (show Stocks mem ([] ++ rest) from hstock) _
  obtain ⟨mem', hrun, hcalls, hclient', hrequest', hqueues', hchannels', htraded⟩ :=
    @acquireMembers_spec grants (mem.alloc (.client freshClient)) mem.calls rest
      Memory.alloc_cells_self halloc.stock _ _ _ hrequest hqueues hchannels
  refine ⟨mem', hcalls, hclient', hrequest', hqueues', hchannels', halloc.trans htraded, ?_⟩
  rw [emqClientInit, bind_of_some (acquire_granted hclient)]
  simp only
  rw [bind_of_some hrun, bind_of_some (load_client hclient')]

theorem emqClientInit_unbuffered (hclient : grants mem.calls 312 = true)
    (hrequest : grants (mem.calls + 1) 4096 = false) (hstock : Stocks mem rest) :
    ∃ mem', emqClientInit grants mem = some (none, mem') ∧
      Traded mem mem' ((given grants (mem.calls + 3) 32).toList ++
        (given grants (mem.calls + 2) 32).toList) rest := by
  obtain ⟨mem', _, hclient', _, _, _, htraded, hinit⟩ :=
    emqClientInit_members hclient hstock (given_refused hrequest) rfl rfl
  have hstock' := htraded.stock
  rw [Option.toList_none, List.append_nil] at hstock'
  have hdrop := Traded.drop hstock'
  refine ⟨mem'.drop mem.calls, ?_, htraded.trans hdrop⟩
  rw [hinit, if_pos rfl, bind_of_some (free_eq hclient' rfl), pure_apply]

/-- The check that fails frees the client, which is looked at afterwards. -/
theorem emqClientInit_undefined (hclient : grants mem.calls 312 = true)
    (hrequest : grants (mem.calls + 1) 4096 = true)
    (hlists : ¬ (grants (mem.calls + 2) 32 = true ∧ grants (mem.calls + 3) 32 = true))
    (hstock : Stocks mem rest) : emqClientInit grants mem = none := by
  obtain ⟨mem', _, hclient', hrequest', hqueues', _, htraded, hinit⟩ :=
    emqClientInit_members hclient hstock (given_granted hrequest) rfl rfl
  rw [hinit, if_neg (by simp)]
  have hbuffer := hrequest' _ rfl
  have hne : mem.calls ≠ mem.calls + 1 := by omega
  cases hqueues : grants (mem.calls + 2) 32 with
  | false =>
      rw [given_refused hqueues] at hclient'
      have hclient1 : (mem'.drop (mem.calls + 1)).cells mem.calls = some (.client _) :=
        (Memory.drop_cells_of_ne hne).trans hclient'
      have hcheck : checkQueues mem.calls mem' =
          some ((), (mem'.drop (mem.calls + 1)).drop mem.calls) := by
        rw [checkQueues, bind_of_some (load_client hclient'), if_pos rfl,
          bind_of_some (freePointer_some hbuffer rfl), free_eq hclient1 rfl]
      rw [bind_of_some hcheck]
      exact bind_of_none (bind_of_none load_dropped)
  | true =>
      have hchannels : grants (mem.calls + 3) 32 = false := by
        rw [← Bool.not_eq_true]
        exact fun htrue => hlists ⟨hqueues, htrue⟩
      rw [given_granted hqueues, given_refused hchannels] at hclient'
      rw [given_granted hqueues] at hqueues'
      have hcheck : checkQueues mem.calls mem' = some ((), mem') := by
        rw [checkQueues, bind_of_some (load_client hclient'), if_neg (by simp), pure_apply]
      rw [given_granted hqueues, given_refused hchannels, Option.toList_none, List.nil_append,
        Option.toList_some, Option.toList_some] at htraded
      have hlist := hqueues' _ rfl
      have hstock' : Stocks mem'
          (owned (mem.calls + 2) [] ++ (mem.calls :: (mem.calls + 1) :: rest)) :=
        htraded.stock.perm (List.Perm.swap _ _ _)
      obtain ⟨mem1, hrelease, _, htraded1⟩ := emqListRelease_chain (fun hne => absurd rfl hne)
        hstock' (chain_init hlist) freeable_nil
      have hbuffer1 : mem1.cells (mem.calls + 1) = some .request :=
        (htraded1.frame _ (by simp)).trans hbuffer
      have hclient1 : (mem1.drop (mem.calls + 1)).cells mem.calls = some (.client _) :=
        (Memory.drop_cells_of_ne hne).trans ((htraded1.frame _ (by simp)).trans hclient')
      have hcheck' : checkChannels mem.calls mem' =
          some ((), (mem1.drop (mem.calls + 1)).drop mem.calls) := by
        have hlistRelease : releaseList (some (mem.calls + 2)) mem' = some ((), mem1) := hrelease
        rw [checkChannels, bind_of_some (load_client hclient'), if_pos rfl,
          bind_of_some hlistRelease,
          bind_of_some (freePointer_some hbuffer1 rfl), free_eq hclient1 rfl]
      rw [bind_of_some hcheck, bind_of_some hcheck']
      exact bind_of_none load_dropped

/-- Where `emq_client_init` puts a client. -/
abbrev site (mem : Memory Resource) : Site :=
  ⟨mem.calls, mem.calls + 1, mem.calls + 2, mem.calls + 3, [], []⟩

theorem emqClientInit_made (hclient : grants mem.calls 312 = true)
    (hrequest : grants (mem.calls + 1) 4096 = true) (hqueues : grants (mem.calls + 2) 32 = true)
    (hchannels : grants (mem.calls + 3) 32 = true) (hstock : Stocks mem rest) :
    ∃ mem', emqClientInit grants mem = some (some mem.calls, mem') ∧
      mem'.calls = mem.calls + 4 ∧ Attached mem' (site mem) none ∧
      Traded mem mem' (site mem).blocks rest := by
  obtain ⟨mem', hcalls, hclient', hrequest', hqueues', hchannels', htraded, hinit⟩ :=
    emqClientInit_members hclient hstock (given_granted hrequest) (given_granted hqueues)
      (given_granted hchannels)
  have hperm : (mem.calls :: ((some (mem.calls + 3)).toList ++ ((some (mem.calls + 2)).toList ++
      (some (mem.calls + 1)).toList))).Perm (site mem).blocks :=
    (List.reverse_perm [mem.calls + 1, mem.calls + 2, mem.calls + 3]).cons _
  have htraded' := htraded.perm hperm
  have hqueuesCell := hqueues' _ rfl
  have hfirst := @Traded.stored _ _ _ _ (mem.calls + 2) (.list .init true) htraded'.stock
    (by simp [Site.blocks])
  have hsecond := @Traded.stored _ _ _ _ (mem.calls + 3) (.list .init true) hfirst.stock
    (by simp [Site.blocks])
  have hchannelsCell : (stored (mem.calls + 2) (.list .init true) mem').cells (mem.calls + 3) =
      some (.list .init false) := by
    rw [stored_cells_of_ne (by omega)]
    exact hchannels' _ rfl
  have hkept : ∀ b, b ≠ mem.calls + 2 → b ≠ mem.calls + 3 →
      (stored (mem.calls + 3) (.list .init true) (stored (mem.calls + 2) (.list .init true)
        mem')).cells b = mem'.cells b := by
    intro b hb hb'
    rw [stored_cells_of_ne hb', stored_cells_of_ne hb]
  refine ⟨stored (mem.calls + 3) (.list .init true)
      (stored (mem.calls + 2) (.list .init true) mem'),
    ?_, hcalls, ⟨?_, ?_, chain_init ?_, chain_init stored_cells_self, freeable_nil, freeable_nil⟩,
    (htraded'.trans hfirst).trans hsecond⟩
  · have hcheck : checkQueues mem.calls mem' = some ((), mem') := by
      rw [checkQueues, bind_of_some (load_client hclient'), if_neg (by simp), pure_apply]
    have hcheck' : checkChannels mem.calls mem' = some ((), mem') := by
      rw [checkChannels, bind_of_some (load_client hclient'), if_neg (by simp), pure_apply]
    rw [hinit, if_neg (by simp), bind_of_some hcheck, bind_of_some hcheck',
      bind_of_some (load_client hclient'), bind_of_some (setFreeMethod_eq hqueuesCell),
      bind_of_some (setFreeMethod_eq hchannelsCell), pure_apply]
  · rw [hkept _ (by simp) (by simp), hclient']
  · rw [hkept _ (by simp) (by simp), hrequest' _ rfl]
  · rw [stored_cells_of_ne (by simp), stored_cells_self]

end Init

section Attached

variable {mem mem' : Memory Resource} {place : Site} {fd : Option Nat} {rest : List Nat}
  {attempt : Attempt}

def Site.members (place : Site) : List Nat :=
  place.request :: (owned place.queues place.queueNodes ++ owned place.channels place.channelNodes)

theorem Attached.congr (hattached : Attached mem place fd) {fd' : Option Nat}
    (hclient : mem'.cells place.client =
      some (.client ⟨some place.request, some place.queues, some place.channels, fd'⟩))
    (hsame : ∀ b ∈ place.members, mem'.cells b = mem.cells b) : Attached mem' place fd' := by
  have hqueues : ∀ b ∈ owned place.queues place.queueNodes, mem'.cells b = mem.cells b :=
    fun b hb => hsame b (List.mem_cons_of_mem _ (List.mem_append_left _ hb))
  have hchannels : ∀ b ∈ owned place.channels place.channelNodes, mem'.cells b = mem.cells b :=
    fun b hb => hsame b (List.mem_cons_of_mem _ (List.mem_append_right _ hb))
  exact
    { client := hclient
      request := (hsame _ List.mem_cons_self).trans hattached.request
      queues := hattached.queues.congr fun b hb =>
        hqueues b (List.cons_subset_cons _ (pointers_subset _) hb)
      channels := hattached.channels.congr fun b hb =>
        hchannels b (List.cons_subset_cons _ (pointers_subset _) hb)
      queueValues := fun v hv => by
        rw [hqueues v (List.mem_cons_of_mem _ (values_subset _ hv))]
        exact hattached.queueValues v hv
      channelValues := fun v hv => by
        rw [hchannels v (List.mem_cons_of_mem _ (values_subset _ hv))]
        exact hattached.channelValues v hv }

/-- Everything that belongs to the client is freed. -/
theorem emqClientRelease_spec (hattached : Attached mem place fd)
    (hstock : Stocks mem (place.blocks ++ rest)) :
    ∃ mem', emqClientRelease place.client mem = some ((), mem') ∧ mem'.calls = mem.calls ∧
      Traded mem mem' [] rest := by
  have hstock1 : Stocks mem (owned place.queues place.queueNodes ++ (place.client ::
      place.request :: (owned place.channels place.channelNodes ++ rest))) := by
    refine hstock.perm ?_
    rw [Site.blocks, List.cons_append, List.cons_append, List.append_assoc]
    exact ((List.perm_middle.symm.cons _).trans List.perm_middle.symm)
  obtain ⟨mem1, hrun1, hcalls1, htraded1⟩ :=
    emqListRelease_chain (fun _ => rfl) hstock1 hattached.queues hattached.queueValues
  have hstock2 : Stocks mem1 (owned place.channels place.channelNodes ++
      (place.client :: place.request :: rest)) := by
    refine htraded1.stock.perm ?_
    rw [List.nil_append]
    exact ((List.perm_middle.symm.cons _).trans List.perm_middle.symm)
  have hsame1 : ∀ b ∈ owned place.channels place.channelNodes, mem1.cells b = mem.cells b :=
    fun b hb => htraded1.frame b
      (List.mem_cons_of_mem _ (List.mem_cons_of_mem _ (List.mem_append_left _ hb)))
  obtain ⟨mem2, hrun2, hcalls2, htraded2⟩ := emqListRelease_chain (fun _ => rfl) hstock2
    (hattached.channels.congr fun b hb => hsame1 b
      (List.cons_subset_cons _ (pointers_subset _) hb))
    (fun v hv => by
      rw [hsame1 v (List.mem_cons_of_mem _ (values_subset _ hv))]
      exact hattached.channelValues v hv)
  have hrequest2 : mem2.cells place.request = some .request := by
    rw [htraded2.frame _ (by simp), htraded1.frame _ (by simp), hattached.request]
  have hstock3 : Stocks mem2 (place.request :: (place.client :: rest)) :=
    htraded2.stock.perm (List.Perm.swap _ _ _)
  have hne : place.client ≠ place.request := by
    have hnot := (List.nodup_cons.mp hstock3.nodup).1
    exact fun heq => hnot (by simp [heq])
  have hclient2 : mem2.cells place.client = mem.cells place.client :=
    (htraded2.frame _ (by simp)).trans (htraded1.frame _ (by simp))
  have hclient3 := ((Memory.drop_cells_of_ne hne).trans hclient2).trans hattached.client
  have hdrop : Traded mem2 (mem2.drop place.request) [] (place.client :: rest) :=
    Traded.drop hstock3
  have hdrop' : Traded _ ((mem2.drop place.request).drop place.client) [] rest :=
    Traded.drop hdrop.stock
  refine ⟨(mem2.drop place.request).drop place.client, ?_, hcalls2.trans hcalls1,
    htraded1.andThen (fun b hb => by simp [hb]) (htraded2.andThen (fun b hb => by simp [hb])
      (hdrop.andThen (List.subset_cons_self _ rest) hdrop'))⟩
  · rw [emqClientRelease, bind_of_some (load_client hattached.client),
      bind_of_some (show releaseList (some place.queues) mem = some ((), mem1) from hrun1),
      bind_of_some (show releaseList (some place.channels) mem1 = some ((), mem2) from hrun2),
      bind_of_some (freePointer_some hrequest2 rfl), free_eq hclient3 rfl]

theorem close_socket {b : Nat} (hsocket : mem.cells b = some .socket) :
    close (some b) mem = some ((), mem.drop b) := by
  have hload : load Resource.socket? b mem = some ((), mem) := load_eq hsocket rfl
  rw [close, bind_of_some hload, discard_used hsocket]

theorem Attached.setFd (hattached : Attached mem place fd)
    (hstock : Stocks mem (place.blocks ++ rest)) (fd' : Option Nat) :
    ∃ mem', setClient place.client (fun c => { c with fd := fd' }) mem = some ((), mem') ∧
      mem'.calls = mem.calls ∧ Attached mem' place fd' ∧ Traded mem mem' place.blocks rest := by
  have hnot := (List.nodup_cons.mp hstock.nodup).1
  refine ⟨_, setClient_eq hattached.client _, rfl, hattached.congr stored_cells_self fun b hb => ?_,
    .stored hstock List.mem_cons_self⟩
  refine stored_cells_of_ne ?_
  rintro rfl
  exact hnot (List.mem_append_left _ hb)

/-- What can come of the way to a socket that is connected. -/
inductive SocketOutcome (attempt : Attempt) (answers : Bool) (mem : Memory Resource) (place : Site)
    (rest : List Nat) : Bool × Memory Resource → Prop
  | connected (mem' : Memory Resource) (hsocket : attempt.socket = true)
      (hreuseaddr : attempt.reuseaddr = true) (hanswers : answers = true)
      (hattached : Attached mem' place (some mem.calls))
      (hcell : mem'.cells mem.calls = some .socket)
      (htraded : Traded mem mem' (place.blocks ++ [mem.calls]) rest) :
      SocketOutcome attempt answers mem place rest (true, mem')
  | failed (mem' : Memory Resource) (fd : Option Nat)
      (hreuseaddr : attempt.socket = true → attempt.reuseaddr = true)
      (hattached : Attached mem' place fd) (htraded : Traded mem mem' place.blocks rest) :
      SocketOutcome attempt answers mem place rest (false, mem')
  | kept (mem' : Memory Resource) (hsocket : attempt.socket = true)
      (hreuseaddr : attempt.reuseaddr = false) (hattached : Attached mem' place none)
      (htraded : Traded mem mem' (place.blocks ++ [mem.calls]) rest) :
      SocketOutcome attempt answers mem place rest (false, mem')

theorem Attached.extends (hattached : Attached mem place fd)
    (hsame : ∀ b ∈ place.blocks, mem'.cells b = mem.cells b) : Attached mem' place fd :=
  hattached.congr ((hsame _ List.mem_cons_self).trans hattached.client)
    fun b hb => hsame b (List.mem_cons_of_mem _ hb)

theorem connectSocket_outcome (attempt : Attempt) (answers : Bool)
    (hattached : Attached mem place none) (hstock : Stocks mem (place.blocks ++ rest)) :
    ∃ result, connectSocket place.client attempt answers mem = some result ∧
      SocketOutcome attempt answers mem place rest result := by
  cases hsocket : attempt.socket with
  | false =>
      have hcreate : netCreateSocket attempt mem = some (none, mem.refuse) := by
        rw [netCreateSocket, bind_of_some (acquire_refused hsocket)]
        rfl
      have hrefused := Traded.refuse hstock
      have hkept : Attached mem.refuse place none := hattached.extends fun _ _ => rfl
      obtain ⟨mem1, hset, _, hattached1, htraded1⟩ := hkept.setFd hrefused.stock none
      refine ⟨_, ?_, .failed mem1 none (by simp [hsocket]) hattached1 (hrefused.trans htraded1)⟩
      rw [connectSocket, bind_of_some hcreate, bind_of_some hset, if_pos rfl, pure_apply]
  | true =>
      have hold : ∀ b ∈ place.blocks, (mem.alloc .socket).cells b = mem.cells b := fun b hb =>
        hstock.sane.extends_alloc _ b ((hstock.used b).mpr (List.mem_append_left _ hb))
      have hcell : (mem.alloc .socket).cells mem.calls = some .socket := Memory.alloc_cells_self
      have hopened := Traded.alloc hstock .socket
      have hstock1 : Stocks (mem.alloc .socket) (place.blocks ++ ([mem.calls] ++ rest)) :=
        hopened.stock.perm List.perm_middle.symm
      have hacquire : acquire (fun _ _ => attempt.socket) 0 .socket mem =
          some (some mem.calls, mem.alloc .socket) := acquire_granted hsocket
      cases hreuseaddr : attempt.reuseaddr with
      | false =>
          have hcreate : netCreateSocket attempt mem = some (none, mem.alloc .socket) := by
            rw [netCreateSocket, bind_of_some hacquire]
            simp only
            rw [if_neg (by simp [hreuseaddr]), pure_apply]
          obtain ⟨mem1, hset, _, hattached1, htraded1⟩ :=
            (hattached.extends hold).setFd hstock1 none
          refine ⟨_, ?_, .kept mem1 hsocket hreuseaddr hattached1 (hopened.trans htraded1.widen)⟩
          rw [connectSocket, bind_of_some hcreate, bind_of_some hset, if_pos rfl, pure_apply]
      | true =>
          have hcreate : netCreateSocket attempt mem =
              some (some mem.calls, mem.alloc .socket) := by
            rw [netCreateSocket, bind_of_some hacquire]
            simp only
            rw [if_pos hreuseaddr, pure_apply]
          obtain ⟨mem1, hset, _, hattached1, htraded1⟩ :=
            (hattached.extends hold).setFd hstock1 (some mem.calls)
          have hcell1 : mem1.cells mem.calls = some .socket :=
            (htraded1.frame _ (by simp)).trans hcell
          rw [connectSocket, bind_of_some hcreate, bind_of_some hset, if_neg (by simp)]
          cases answers with
          | true =>
              exact ⟨_, rfl, .connected mem1 hsocket hreuseaddr rfl hattached1 hcell1
                (hopened.trans htraded1.widen)⟩
          | false =>
              have hstock2 : Stocks mem1 (mem.calls :: place.blocks ++ rest) :=
                htraded1.stock.perm List.perm_middle
              have hclosed := Traded.drop hstock2
              have hnot := (List.nodup_cons.mp hstock2.nodup).1
              refine ⟨_, ?_, .failed (mem1.drop mem.calls) (some mem.calls) (fun _ => hreuseaddr)
                (hattached1.extends fun b hb => Memory.drop_cells_of_ne ?_)
                (hopened.trans (htraded1.andThen (List.subset_append_right _ rest) hclosed))⟩
              · rw [if_neg (by simp), bind_of_some (load_client hattached1.client),
                  bind_of_some (close_socket hcell1), pure_apply]
              · rintro rfl
                exact hnot (List.mem_append_left _ hb)

end Attached

inductive Transport where
  | tcp
  | unix
  deriving DecidableEq, Repr

def Transport.connect (grants : Nat → Nat → Bool) (attempt : Attempt) :
    Transport → Life (Option Nat)
  | .tcp => emqTcpConnect grants attempt
  | .unix => emqUnixConnect grants attempt

/-- What the system answers once there is a socket. -/
def Transport.answers (attempt : Attempt) : Transport → Bool
  | .tcp => attempt.resolves && attempt.connects && attempt.nodelay
  | .unix => attempt.connects

/-- A client with its members and an open socket. -/
structure Connected (mem : Memory Resource) (place : Site) (fd : Nat) : Prop where
  attached : Attached mem place (some fd)
  socket : mem.cells fd = some .socket

theorem emqDisconnect_spec {mem : Memory Resource} {place : Site} {fd : Nat} {rest : List Nat}
    (hconnected : Connected mem place fd) (hstock : Stocks mem (place.blocks ++ fd :: rest)) :
    ∃ mem', emqDisconnect (some place.client) mem = some ((), mem') ∧ Traded mem mem' [] rest := by
  have hstock' : Stocks mem (fd :: place.blocks ++ rest) := hstock.perm List.perm_middle
  have hclosed := Traded.drop hstock'
  have hnot := (List.nodup_cons.mp hstock'.nodup).1
  have hattached : Attached (mem.drop fd) place (some fd) :=
    hconnected.attached.extends fun b hb => Memory.drop_cells_of_ne
      (ne_of_mem_of_not_mem hb fun hmem => hnot (List.mem_append_left _ hmem))
  obtain ⟨mem', hrelease, _, htraded⟩ := emqClientRelease_spec hattached hclosed.stock
  refine ⟨mem', ?_, hclosed.trans htraded⟩
  have hdisconnect : emqClientDisconnect place.client mem = some ((), mem.drop fd) := by
    rw [emqClientDisconnect, bind_of_some (load_client hconnected.attached.client)]
    exact close_socket hconnected.socket
  rw [emqDisconnect, bind_of_some hdisconnect, hrelease]

/-- There is no undefined behaviour. What is returned is a client that is connected, and it
owns everything that was acquired; or `NULL`, and then nothing is left. -/
def Clean (mem : Memory Resource) (rest : List Nat) :
    Option (Option Nat × Memory Resource) → Prop
  | none => False
  | some (none, mem') => Traded mem mem' [] rest
  | some (some client, mem') => ∃ place fd, place.client = client ∧ Connected mem' place fd ∧
      place.queueNodes = [] ∧ place.channelNodes = [] ∧
      Traded mem mem' (place.blocks ++ [fd]) rest

/-- The client is refused. Or it is granted, and what is refused next is either all three of
its members or none; in the latter case a new socket takes its option. -/
def Sound (grants : Nat → Nat → Bool) (call : Nat) (attempt : Attempt) : Prop :=
  grants call 312 = true →
    if grants (call + 1) 4096 then
      grants (call + 2) 32 = true ∧ grants (call + 3) 32 = true ∧
        (attempt.socket = true → attempt.reuseaddr = true)
    else grants (call + 2) 32 = false ∧ grants (call + 3) 32 = false

section Connecting

variable {grants : Nat → Nat → Bool} {mem : Memory Resource} {rest : List Nat}

theorem connect_eq (transport : Transport) (attempt : Attempt) :
    transport.connect grants attempt = connectWith grants fun client =>
      connectSocket client attempt (transport.answers attempt) := by
  cases transport <;> rfl

/-- The client and its buffer are granted and one of its lists is not, so that the client is
looked at after it was freed. -/
def Broken (grants : Nat → Nat → Bool) (call : Nat) : Prop :=
  grants call 312 = true ∧ grants (call + 1) 4096 = true ∧
    ¬ (grants (call + 2) 32 = true ∧ grants (call + 3) 32 = true)

/-- What is acquired for an attempt and never given back: lists without a buffer, and a socket
that does not take its option. -/
def attemptLost (grants : Nat → Nat → Bool) (call : Nat) (attempt : Attempt) : List Nat :=
  if grants call 312 then
    if grants (call + 1) 4096 then
      if attempt.socket && !attempt.reuseaddr then [call + 4] else []
    else (given grants (call + 3) 32).toList ++ (given grants (call + 2) 32).toList
  else []

/-- What can come of an attempt to connect. -/
inductive ConnectOutcome (grants : Nat → Nat → Bool) (attempt : Attempt) (mem : Memory Resource)
    (rest : List Nat) : Option (Option Nat × Memory Resource) → Prop
  | connected (mem' : Memory Resource) (fd : Nat) (hbroken : ¬ Broken grants mem.calls)
      (hlost : attemptLost grants mem.calls attempt = [])
      (hconnected : Connected mem' (site mem) fd)
      (htraded : Traded mem mem' ((site mem).blocks ++ [fd]) rest) :
      ConnectOutcome grants attempt mem rest (some (some mem.calls, mem'))
  | refused (mem' : Memory Resource) (hbroken : ¬ Broken grants mem.calls)
      (htraded : Traded mem mem' (attemptLost grants mem.calls attempt) rest) :
      ConnectOutcome grants attempt mem rest (some (none, mem'))
  | undefined (hbroken : Broken grants mem.calls) : ConnectOutcome grants attempt mem rest none

theorem connectWith_outcome (attempt : Attempt) (answers : Bool) (hstock : Stocks mem rest) :
    ConnectOutcome grants attempt mem rest
      (connectWith grants (fun client => connectSocket client attempt answers) mem) := by
  cases hclient : grants mem.calls 312 with
  | false =>
      have hlost : attemptLost grants mem.calls attempt = [] := by simp [attemptLost, hclient]
      rw [connectWith, bind_of_some (emqClientInit_refused hclient)]
      refine .refused _ (by simp [Broken, hclient]) ?_
      rw [hlost]
      exact Traded.refuse (show Stocks mem ([] ++ rest) from hstock)
  | true =>
      cases hrequest : grants (mem.calls + 1) 4096 with
      | false =>
          have hlost : attemptLost grants mem.calls attempt =
              (given grants (mem.calls + 3) 32).toList ++
                (given grants (mem.calls + 2) 32).toList := by
            simp [attemptLost, hclient, hrequest]
          obtain ⟨mem', hinit, htraded⟩ := emqClientInit_unbuffered hclient hrequest hstock
          rw [connectWith, bind_of_some hinit]
          refine .refused mem' (by simp [Broken, hrequest]) ?_
          rw [hlost]
          exact htraded
      | true =>
          by_cases hlists : grants (mem.calls + 2) 32 = true ∧ grants (mem.calls + 3) 32 = true
          · have hbroken : ¬ Broken grants mem.calls := fun h => h.2.2 hlists
            have hlost : attemptLost grants mem.calls attempt =
                if attempt.socket && !attempt.reuseaddr then [mem.calls + 4] else [] := by
              simp [attemptLost, hclient, hrequest]
            obtain ⟨mem', hinit, hcalls, hattached, htraded⟩ :=
              emqClientInit_made hclient hrequest hlists.1 hlists.2 hstock
            obtain ⟨result, hconnect, houtcome⟩ :=
              connectSocket_outcome attempt answers hattached htraded.stock
            have hrun : ∀ success mem1, result = (success, mem1) →
                connectWith grants (fun client => connectSocket client attempt answers) mem =
                  (if success then pure (some mem.calls) else do
                    emqClientRelease mem.calls
                    pure none : Life (Option Nat)) mem1 := by
              rintro success mem1 rfl
              rw [connectWith, bind_of_some hinit]
              simp only
              rw [bind_of_some hconnect]
            cases houtcome with
            | connected mem1 hsocket hreuseaddr hanswers hattached1 hcell htraded1 =>
                rw [hrun _ _ rfl, if_pos rfl]
                refine .connected mem1 mem'.calls hbroken ?_ ⟨hattached1, hcell⟩
                  (htraded.trans htraded1)
                simp [hlost, hreuseaddr]
            | failed mem1 fd hreuseaddr hattached1 htraded1 =>
                have hnone : attemptLost grants mem.calls attempt = [] := by
                  rw [hlost]
                  cases hsocket : attempt.socket with
                  | false => rfl
                  | true => simp [hreuseaddr hsocket]
                obtain ⟨mem2, hrelease, _, htraded2⟩ :=
                  emqClientRelease_spec hattached1 htraded1.stock
                rw [hrun _ _ rfl, if_neg (by simp), bind_of_some hrelease]
                refine .refused mem2 hbroken ?_
                rw [hnone]
                exact (htraded.trans htraded1).trans htraded2
            | kept mem1 hsocket hreuseaddr hattached1 htraded1 =>
                have hstock1 := htraded1.stock
                rw [List.append_assoc] at hstock1
                obtain ⟨mem2, hrelease, _, htraded2⟩ := emqClientRelease_spec hattached1 hstock1
                have hkept : attemptLost grants mem.calls attempt = [mem'.calls] := by
                  simp [hlost, hsocket, hreuseaddr, hcalls]
                rw [hrun _ _ rfl, if_neg (by simp), bind_of_some hrelease]
                refine .refused mem2 hbroken ?_
                rw [hkept]
                exact (htraded.trans htraded1).trans htraded2.widen
          · rw [connectWith, bind_of_none (emqClientInit_undefined hclient hrequest hlists hstock)]
            exact .undefined ⟨hclient, hrequest, hlists⟩

theorem sound_iff {call : Nat} {attempt : Attempt} :
    Sound grants call attempt ↔ ¬ Broken grants call ∧ attemptLost grants call attempt = [] := by
  unfold Sound Broken attemptLost
  cases grants call 312 <;> cases grants (call + 1) 4096 <;>
    cases hqueues : grants (call + 2) 32 <;> cases hchannels : grants (call + 3) 32 <;>
    simp [given, hqueues, hchannels]

theorem connect_outcome (transport : Transport) (attempt : Attempt) (hstock : Stocks mem rest) :
    ConnectOutcome grants attempt mem rest (transport.connect grants attempt mem) := by
  rw [connect_eq]
  exact connectWith_outcome attempt _ hstock

end Connecting

/-- Whatever is granted and whatever the system answers, it is known from that whether the
attempt to connect has a clean end. Otherwise a client is looked at after it was freed, or the
attempt fails and something is left of it. -/
theorem connects_cleanly_iff (transport : Transport) (grants : Nat → Nat → Bool) (attempt : Attempt)
    {mem : Memory Resource} {rest : List Nat} (hstock : Stocks mem rest) :
    (Clean mem rest (transport.connect grants attempt mem) ↔ Sound grants mem.calls attempt) ∧
      (transport.connect grants attempt mem = none ↔ Broken grants mem.calls) ∧
      (¬ Sound grants mem.calls attempt → ¬ Broken grants mem.calls →
        attemptLost grants mem.calls attempt ≠ [] ∧
          ∃ mem', transport.connect grants attempt mem = some (none, mem') ∧
            Traded mem mem' (attemptLost grants mem.calls attempt) rest) := by
  have houtcome := @connect_outcome grants mem rest transport attempt hstock
  rw [sound_iff]
  generalize transport.connect grants attempt mem = result at houtcome ⊢
  cases houtcome with
  | connected mem' fd hbroken hlost hconnected htraded =>
      refine ⟨iff_of_true ⟨site mem, fd, rfl, hconnected, rfl, rfl, htraded⟩ ⟨hbroken, hlost⟩,
        iff_of_false nofun hbroken, fun hsound => ?_⟩
      exact absurd ⟨hbroken, hlost⟩ hsound
  | refused mem' hbroken htraded =>
      refine ⟨⟨fun hclean => ⟨hbroken, htraded.stock.eq_nil hclean.stock⟩, fun hsound => ?_⟩,
        iff_of_false nofun hbroken, fun hsound _ => ⟨fun hlost => ?_, mem', rfl, htraded⟩⟩
      · rw [hsound.2] at htraded
        exact htraded
      · exact hsound ⟨hbroken, hlost⟩
  | undefined hbroken =>
      exact ⟨iff_of_false id fun hsound => hsound.1 hbroken, iff_of_true rfl hbroken,
        fun _ hnot => absurd hbroken hnot⟩

theorem first_connection : ∃ mem fd,
    Transport.tcp.connect (fun _ _ => true) ⟨true, true, true, true, true⟩ .empty =
        some (some 0, mem) ∧ mem.calls = 5 ∧ Connected mem (site .empty) fd ∧
      Stocks mem ((site .empty).blocks ++ [fd]) := by
  obtain ⟨mem, hconnect, hcalls⟩ : ∃ mem,
      Transport.tcp.connect (fun _ _ => true) ⟨true, true, true, true, true⟩ .empty =
        some (some 0, mem) ∧ mem.calls = 5 := ⟨_, rfl, rfl⟩
  have houtcome := @connect_outcome (fun _ _ => true) .empty [] .tcp
    ⟨true, true, true, true, true⟩ .empty
  rw [hconnect] at houtcome
  generalize hresult : some (some 0, mem) = result at houtcome
  cases houtcome with
  | connected mem' fd _ _ hconnected htraded =>
      cases hresult
      have hstock := htraded.stock
      rw [List.append_nil] at hstock
      exact ⟨mem, fd, hconnect, hcalls, hconnected, hstock⟩
  | refused => cases hresult
  | undefined => cases hresult

/-- A second connection whose socket does not take its option. The socket is left. -/
theorem connects_cleanly_second : ∃ mem rest, mem.cells 0 ≠ none ∧
    attemptLost (fun _ _ => true) mem.calls ⟨true, false, true, true, true⟩ = [9] ∧
    (Clean mem rest
        (Transport.unix.connect (fun _ _ => true) ⟨true, false, true, true, true⟩ mem) ↔
      Sound (fun _ _ => true) mem.calls ⟨true, false, true, true, true⟩) ∧
    (Transport.unix.connect (fun _ _ => true) ⟨true, false, true, true, true⟩ mem = none ↔
      Broken (fun _ _ => true) mem.calls) ∧
    (¬ Sound (fun _ _ => true) mem.calls ⟨true, false, true, true, true⟩ →
      ¬ Broken (fun _ _ => true) mem.calls →
      attemptLost (fun _ _ => true) mem.calls ⟨true, false, true, true, true⟩ ≠ [] ∧
        ∃ mem', Transport.unix.connect (fun _ _ => true) ⟨true, false, true, true, true⟩ mem =
            some (none, mem') ∧
          Traded mem mem'
            (attemptLost (fun _ _ => true) mem.calls ⟨true, false, true, true, true⟩) rest) := by
  obtain ⟨mem, fd, _, hcalls, hconnected, hstock⟩ := first_connection
  refine ⟨mem, _, ?_, ?_, connects_cleanly_iff .unix _ _ hstock⟩
  · rw [show mem.cells 0 = _ from hconnected.attached.client]
    exact Option.some_ne_none _
  · rw [hcalls]
    rfl

end Libemq.Connections
