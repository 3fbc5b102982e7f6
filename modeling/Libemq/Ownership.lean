import Libemq.Messages

namespace Libemq.Ownership

open Libemq.Blocks
open Libemq.Messages

/-- What an application does with messages. A message is received by `emq_queue_get` and
`emq_queue_pop`, which leave that to `emq_read_message_tag`. -/
inductive Act where
  | create (data : Pointer) (size : Nat) (zeroCopy : Int)
  | copy (msg : Nat)
  | receive (size : Nat) (tag : Option UInt64) (received : Option (List UInt8))
  | expire (msg : Nat) (time : UInt32)
  | release (msg : Nat)

/-- The messages that are still to be released are `live`. The rest keeps book: which buffer
was allocated for which message, and which messages `emq_msg_copy` returned. -/
structure State where
  mem : Memory Cell
  live : List Nat
  buffers : List (Nat × Nat)
  copies : List Nat

def State.start : State := ⟨.empty, [], [], []⟩

def ownBuffer (msg : Nat) (mem : Memory Cell) : Option Nat :=
  match (msgAt msg mem).bind MsgCell.data with
  | some (.block b) => some b
  | _ => none

def State.take (s : State) (mem : Memory Cell) : Option Nat → State
  | none => { s with mem := mem }
  | some msg =>
      { s with
        mem := mem
        live := msg :: s.live
        buffers := (ownBuffer msg mem).toList.map (fun b => (msg, b)) ++ s.buffers }

section Runs

variable (a : Allocator) (caller : CallerMemory)

/-- Nothing stands for undefined behaviour. -/
def perform : Act → State → Option State
  | .create data size zeroCopy, s =>
      (emqMsgCreate a caller data size zeroCopy s.mem).map fun made => s.take made.2 made.1
  | .copy msg, s =>
      (emqMsgCopy a caller msg s.mem).map fun made =>
        { s.take made.2 made.1 with copies := made.1.toList ++ s.copies }
  | .receive size tag received, s =>
      (emqReadMessageTag a size tag received s.mem).map fun made => s.take made.2 made.1
  | .expire msg time, s => (emqMsgExpire msg time s.mem).map fun mem => { s with mem := mem }
  | .release msg, s =>
      (emqMsgRelease msg s.mem).map fun mem => { s with mem := mem, live := s.live.erase msg }

/-- The data of a new message can be read, and only memory of the caller is lent to a
message. What is received is a message. Only live messages are used, and so each is released
at most once. -/
def Allowed (s : State) : Act → Prop
  | .create data size zeroCopy => read caller data size s.mem ≠ none ∧
      (zeroCopy ≠ 0 → ∃ c, data = .foreign c)
  | .copy msg => msg ∈ s.live
  | .receive size tag received => ∃ msg mem,
      emqReadMessageTag a size tag received s.mem = some (some msg, mem)
  | .expire msg _ => msg ∈ s.live
  | .release msg => msg ∈ s.live

/-- What an application can do, each time with the state before it, and what comes of it. -/
inductive Run : List (State × Act) → Option State → Prop
  | start : Run [] (some .start)
  | act {history : List (State × Act)} {s : State} (hrun : Run history (some s)) {act : Act}
      (hallowed : Allowed a caller s act) : Run (history ++ [(s, act)]) (perform a caller act s)

def FreedBy (history : List (State × Act)) (msg block : Nat) : Prop :=
  ∃ s s', (s, .release msg) ∈ history ∧ perform a caller (.release msg) s = some s' ∧
    .block block ∉ s.mem.frees ∧ .block block ∈ s'.mem.frees

/-- A copy that is returned has the data and the members of its source. -/
def Copies (s : State) (msg : Nat) : Prop :=
  ∀ newMsg mem, emqMsgCopy a caller msg s.mem = some (some newMsg, mem) →
    messageData caller newMsg mem ≠ none ∧
      messageData caller newMsg mem = messageData caller msg s.mem ∧
      ∃ cell cell', msgAt msg s.mem = some cell ∧ msgAt newMsg mem = some cell' ∧
        cell'.size = cell.size ∧ cell'.tag = cell.tag ∧ cell'.expire = cell.expire

def Spares (s : State) (msg : Nat) : Prop :=
  ∀ mem, emqMsgRelease msg s.mem = some mem → ∀ other ∈ s.live, other ≠ msg →
    messageData caller other mem ≠ none ∧
      messageData caller other mem = messageData caller other s.mem ∧
      msgAt other mem = msgAt other s.mem

/-- Every block was freed once, each buffer by the release of its message, and no memory of
the caller was freed; copies and releases do what they should. -/
structure OwnedOnce (history : List (State × Act)) (s : State) : Prop where
  once : ∀ b ∈ s.mem.allocated, s.mem.frees.count (.block b) = 1
  callers : ∀ c, .foreign c ∉ s.mem.frees
  own : ∀ msg block, (msg, block) ∈ s.buffers →
    block ∈ s.mem.allocated ∧ FreedBy a caller history msg block
  copied : ∀ s' msg, (s', .copy msg) ∈ history → Copies a caller s' msg
  spared : ∀ s' msg, (s', .release msg) ∈ history → Spares caller s' msg

/-- What `zero_copy` is in a message with a buffer of its own. -/
def flag (copies : List Nat) (msg : Nat) : Int :=
  if msg ∈ copies then (a.leftover msg).zeroCopy else 0

inductive Held (s : State) (msg : Nat) : Prop
  | owning (block : Nat) (cell : MsgCell) (bytes : List UInt8) (hbuffer : (msg, block) ∈ s.buffers)
      (hmsg : s.mem.cells msg = some (.msg cell)) (hdata : cell.data = some (.block block))
      (hblock : s.mem.cells block = some (.bytes bytes)) (hsize : bytes.length = cell.size)
      (hzero : cell.zeroCopy = flag a s.copies msg)
  | borrowing (c : Nat) (cell : MsgCell) (hbuffer : ∀ block, (msg, block) ∉ s.buffers)
      (hmsg : s.mem.cells msg = some (.msg cell)) (hdata : cell.data = some (.foreign c))
      (hsize : cell.size ≤ (caller c).length) (hzero : cell.zeroCopy ≠ 0)

/-- A message is gone whose release has to have freed this buffer. -/
def Reclaimed (s : State) (msg block : Nat) : Prop :=
  (msg, block) ∈ s.buffers ∧ msg ∉ s.live ∧ flag a s.copies msg = 0

structure Inv (s : State) : Prop where
  sane : s.mem.Sane
  live : s.live.Nodup
  held : ∀ msg ∈ s.live, Held a caller s msg
  messages : (s.buffers.map Prod.fst).Nodup
  blocks : (s.buffers.map Prod.snd).Nodup
  below : ∀ p ∈ s.buffers, p.1 < s.mem.calls ∧ p.2 ∈ s.mem.allocated
  apart : ∀ msg ∈ s.live, msg ∉ s.buffers.map Prod.snd
  known : ∀ b, s.mem.cells b ≠ none → b ∈ s.live ∨ b ∈ s.buffers.map Prod.snd
  copies : ∀ msg ∈ s.copies, msg ∈ s.buffers.map Prod.fst
  released : ∀ msg block, (msg, block) ∈ s.buffers → msg ∉ s.live →
    (s.mem.cells block = none ↔ flag a s.copies msg = 0)

end Runs

variable {a : Allocator} {caller : CallerMemory} {s s' : State} {msg : Nat}

theorem flag_append {extra copies : List Nat} {new : Nat} (hextra : ∀ m ∈ extra, m = new)
    (hne : msg ≠ new) : flag a (extra ++ copies) msg = flag a copies msg := by
  have hnot : msg ∉ extra := fun hmem => hne (hextra msg hmem)
  simp [flag, hnot]

theorem Held.used (h : Held a caller s msg) : ∃ cell, s.mem.cells msg = some (.msg cell) := by
  cases h with
  | owning _ cell _ _ hmsg => exact ⟨cell, hmsg⟩
  | borrowing _ cell _ hmsg => exact ⟨cell, hmsg⟩

theorem Held.data (h : Held a caller s msg) :
    ∃ cell p data, msgAt msg s.mem = some cell ∧ cell.data = some p ∧
      read caller p cell.size s.mem = some data ∧ ∀ b, p = .block b → (msg, b) ∈ s.buffers := by
  cases h with
  | owning block cell bytes hbuffer hmsg hdata hblock hsize =>
      refine ⟨cell, _, bytes, msgAt_eq_some.mpr hmsg, hdata, read_whole hblock hsize, ?_⟩
      rintro b heq
      cases heq
      exact hbuffer
  | borrowing c cell _ hmsg hdata hsize =>
      refine ⟨cell, _, _, msgAt_eq_some.mpr hmsg, hdata, read_eq_some.mpr ⟨_, rfl, hsize, rfl⟩, ?_⟩
      intro b heq
      cases heq

theorem Held.frame (h : Held a caller s msg)
    (hbuffers : ∀ b, (msg, b) ∈ s'.buffers ↔ (msg, b) ∈ s.buffers)
    (hflag : flag a s'.copies msg = flag a s.copies msg)
    (hsame : ∀ b, b = msg ∨ (msg, b) ∈ s.buffers → s.mem.cells b ≠ none →
      s'.mem.cells b = s.mem.cells b) : Held a caller s' msg := by
  cases h with
  | owning block cell bytes hbuffer hmsg hdata hblock hsize hzero =>
      refine .owning block cell bytes ((hbuffers _).mpr hbuffer) ?_ hdata ?_ hsize
        (hzero.trans hflag.symm)
      · rw [hsame msg (.inl rfl) (by simp [hmsg]), hmsg]
      · rw [hsame block (.inr hbuffer) (by simp [hblock]), hblock]
  | borrowing c cell hbuffer hmsg hdata hsize hzero =>
      refine .borrowing c cell (fun b hb => hbuffer b ((hbuffers b).mp hb)) ?_ hdata hsize hzero
      rw [hsame msg (.inl rfl) (by simp [hmsg]), hmsg]

namespace Inv

theorem start : Inv a caller .start where
  sane := .empty
  live := List.nodup_nil
  held := by simp [State.start]
  messages := List.nodup_nil
  blocks := List.nodup_nil
  below := by simp [State.start]
  apart := by simp [State.start]
  known b hb := absurd rfl hb
  copies := by simp [State.start]
  released := by simp [State.start]

variable (h : Inv a caller s)

include h

theorem live_lt (hmsg : msg ∈ s.live) : msg < s.mem.calls := by
  obtain ⟨cell, hcell⟩ := (h.held msg hmsg).used
  exact h.sane.lt_calls (by simp [hcell])

theorem fresh_not_live : s.mem.calls ∉ s.live :=
  fun hmem => Nat.lt_irrefl _ (h.live_lt hmem)

theorem owner_lt {p : Nat × Nat} (hp : p ∈ s.buffers) : p.1 < s.mem.calls :=
  (h.below p hp).1

theorem buffer_lt {p : Nat × Nat} (hp : p ∈ s.buffers) : p.2 < s.mem.calls :=
  h.sane.below _ (h.below p hp).2

theorem copies_lt (hmsg : msg ∈ s.copies) : msg < s.mem.calls := by
  obtain ⟨p, hp, rfl⟩ := List.mem_map.mp (h.copies msg hmsg)
  exact h.owner_lt hp

theorem fresh_no_buffer {block : Nat} (hblock : s.mem.calls ≤ block) :
    block ∉ s.buffers.map Prod.snd := by
  intro hmem
  obtain ⟨p, hp, rfl⟩ := List.mem_map.mp hmem
  exact absurd (h.buffer_lt hp) (not_lt.mpr hblock)

theorem buffer_ne (hmsg : msg ∈ s.live) {owner block : Nat} (hmem : (owner, block) ∈ s.buffers) :
    block ≠ msg :=
  fun heq => h.apart msg hmsg (List.mem_map.mpr ⟨_, hmem, heq⟩)

theorem owner_unique {owner owner' block : Nat} (hmem : (owner, block) ∈ s.buffers)
    (hmem' : (owner', block) ∈ s.buffers) : owner = owner' :=
  (Prod.ext_iff.mp (List.inj_on_of_nodup_map h.blocks hmem hmem' rfl)).1

theorem buffer_unique {owner block block' : Nat} (hmem : (owner, block) ∈ s.buffers)
    (hmem' : (owner, block') ∈ s.buffers) : block = block' :=
  (Prod.ext_iff.mp (List.inj_on_of_nodup_map h.messages hmem hmem' rfl)).2

theorem disjoint {other : Nat} (hmsg : msg ∈ s.live) (hother : other ∈ s.live)
    (hne : other ≠ msg) {b : Nat} (hb : b = other ∨ (other, b) ∈ s.buffers) :
    b ≠ msg ∧ (msg, b) ∉ s.buffers := by
  rcases hb with rfl | hb
  · exact ⟨hne, fun hmem => h.buffer_ne hother hmem rfl⟩
  · exact ⟨h.buffer_ne hmsg hb, fun hmem => hne (h.owner_unique hb hmem)⟩

theorem unmade {mem : Memory Cell} (hsane : mem.Sane) (hcells : mem.cells = s.mem.cells)
    (hcalls : s.mem.calls ≤ mem.calls) (hallocated : s.mem.allocated ⊆ mem.allocated) :
    Inv a caller { s with mem := mem } where
  sane := hsane
  live := h.live
  held msg hmsg := (h.held msg hmsg).frame (fun _ => Iff.rfl) rfl fun _ _ _ => by rw [hcells]
  messages := h.messages
  blocks := h.blocks
  below p hp := ⟨Nat.lt_of_lt_of_le (h.below p hp).1 hcalls, hallocated (h.below p hp).2⟩
  apart := h.apart
  known := by simpa only [hcells] using h.known
  copies := h.copies
  released := by simpa only [hcells] using h.released

theorem owning {cell : MsgCell} {bytes : List UInt8} {extra : List Nat}
    (hdata : cell.data = some (.block (s.mem.calls + 1))) (hsize : bytes.length = cell.size)
    (hzero : cell.zeroCopy = flag a (extra ++ s.copies) s.mem.calls)
    (hextra : ∀ m ∈ extra, m = s.mem.calls) :
    Inv a caller
      ⟨Messages.owning cell bytes s.mem, s.mem.calls :: s.live,
        (s.mem.calls, s.mem.calls + 1) :: s.buffers, extra ++ s.copies⟩ := by
  have hextends : s.mem.Extends (Messages.owning cell bytes s.mem) := extends_owning h.sane
  refine
    { sane := (h.sane.alloc _).alloc _
      live := List.nodup_cons.mpr ⟨h.fresh_not_live, h.live⟩
      held := ?_
      messages := ?_
      blocks := ?_
      below := ?_
      apart := ?_
      known := ?_
      copies := ?_
      released := ?_ }
  · intro msg hmsg
    rcases List.mem_cons.mp hmsg with rfl | hmsg
    · exact .owning _ cell bytes List.mem_cons_self owning_msg hdata owning_bytes hsize hzero
    · have hne := Nat.ne_of_lt (h.live_lt hmsg)
      refine (h.held msg hmsg).frame (fun b => ?_) (flag_append hextra hne)
        fun b _ hb => hextends b hb
      simp [hne]
  · refine List.nodup_cons.mpr ⟨fun hmem => ?_, h.messages⟩
    obtain ⟨p, hp, heq⟩ := List.mem_map.mp hmem
    exact absurd heq (Nat.ne_of_lt (h.owner_lt hp))
  · exact List.nodup_cons.mpr ⟨h.fresh_no_buffer (Nat.le_succ _), h.blocks⟩
  · intro p hp
    rcases List.mem_cons.mp hp with rfl | hp
    · exact ⟨Nat.lt_succ_of_lt (Nat.lt_succ_self _), List.mem_cons_self⟩
    · refine ⟨Nat.lt_succ_of_lt (Nat.lt_succ_of_lt (h.owner_lt hp)), ?_⟩
      exact List.mem_cons_of_mem _ (List.mem_cons_of_mem _ (h.below p hp).2)
  · intro msg hmsg hmem
    rcases List.mem_cons.mp hmsg with rfl | hmsg
    · rcases List.mem_cons.mp hmem with heq | hmem
      · exact absurd heq (Nat.ne_of_lt (Nat.lt_succ_self _))
      · exact h.fresh_no_buffer le_rfl hmem
    · rcases List.mem_cons.mp hmem with heq | hmem
      · exact absurd heq (Nat.ne_of_lt (Nat.lt_succ_of_lt (h.live_lt hmsg)))
      · exact h.apart msg hmsg hmem
  · intro b hb
    by_cases hnewer : b = s.mem.calls + 1
    · exact .inr (hnewer ▸ List.mem_cons_self)
    · by_cases hnew : b = s.mem.calls
      · exact .inl (hnew ▸ List.mem_cons_self)
      · rw [Memory.alloc_cells_of_ne hnewer, Memory.alloc_cells_of_ne hnew] at hb
        exact (h.known b hb).imp (List.mem_cons_of_mem _) (List.mem_cons_of_mem _)
  · intro msg hmsg
    rcases List.mem_append.mp hmsg with hmsg | hmsg
    · exact hextra msg hmsg ▸ List.mem_cons_self
    · exact List.mem_cons_of_mem _ (h.copies msg hmsg)
  · intro msg block hmem hnot
    rcases List.mem_cons.mp hmem with heq | hmem
    · cases heq
      exact absurd List.mem_cons_self hnot
    · have hne : msg ≠ s.mem.calls := Nat.ne_of_lt (h.owner_lt hmem)
      have hblock : block < s.mem.calls := h.buffer_lt hmem
      rw [flag_append hextra hne,
        ← h.released msg block hmem fun hlive => hnot (List.mem_cons_of_mem _ hlive),
        Memory.alloc_cells_of_ne (Nat.ne_of_lt (Nat.lt_succ_of_lt hblock)),
        Memory.alloc_cells_of_ne (Nat.ne_of_lt hblock)]

theorem borrowing {cell : MsgCell} {c : Nat} (hdata : cell.data = some (.foreign c))
    (hsize : cell.size ≤ (caller c).length) (hzero : cell.zeroCopy ≠ 0) :
    Inv a caller { s with mem := s.mem.alloc (.msg cell), live := s.mem.calls :: s.live } := by
  refine
    { sane := h.sane.alloc _
      live := List.nodup_cons.mpr ⟨h.fresh_not_live, h.live⟩
      held := ?_
      messages := h.messages
      blocks := h.blocks
      below := fun p hp => ⟨Nat.lt_succ_of_lt (h.owner_lt hp), List.mem_cons_of_mem _ (h.below p hp).2⟩
      apart := ?_
      known := ?_
      copies := h.copies
      released := ?_ }
  · intro msg hmsg
    rcases List.mem_cons.mp hmsg with rfl | hmsg
    · exact .borrowing c cell (fun block hmem => Nat.lt_irrefl _ (h.owner_lt hmem))
        Memory.alloc_cells_self hdata hsize hzero
    · exact (h.held msg hmsg).frame (fun _ => Iff.rfl) rfl
        fun b _ hb => h.sane.extends_alloc _ b hb
  · intro msg hmsg hmem
    rcases List.mem_cons.mp hmsg with rfl | hmsg
    · exact absurd hmem (h.fresh_no_buffer le_rfl)
    · exact h.apart msg hmsg hmem
  · intro b hb
    by_cases hnew : b = s.mem.calls
    · exact .inl (hnew ▸ List.mem_cons_self)
    · rw [Memory.alloc_cells_of_ne hnew] at hb
      exact (h.known b hb).imp_left (List.mem_cons_of_mem _)
  · intro msg block hmem hnot
    rw [← h.released msg block hmem fun hlive => hnot (List.mem_cons_of_mem _ hlive),
      Memory.alloc_cells_of_ne (Nat.ne_of_lt (h.buffer_lt hmem))]

theorem stored {f : MsgCell → MsgCell} (hmsg : msg ∈ s.live)
    (hf : ∀ cell, (f cell).data = cell.data ∧ (f cell).size = cell.size ∧
      (f cell).zeroCopy = cell.zeroCopy) :
    ∃ mem, setMsg msg f s.mem = some mem ∧ Inv a caller { s with mem := mem } := by
  obtain ⟨old, hold⟩ := (h.held msg hmsg).used
  have hstore := Memory.store_eq hold (.msg (f old))
  have hcells : ∀ b, b ≠ msg →
      Function.update s.mem.cells msg (some (.msg (f old))) b = s.mem.cells b :=
    fun b hb => Function.update_of_ne hb ..
  have hnone : ∀ b, Function.update s.mem.cells msg (some (.msg (f old))) b = none ↔
      s.mem.cells b = none := by
    intro b
    by_cases hb : b = msg
    · simp [hb, hold]
    · rw [hcells b hb]
  refine ⟨_, ?_,
    { sane := h.sane.store hstore
      live := h.live
      held := ?_
      messages := h.messages
      blocks := h.blocks
      below := h.below
      apart := h.apart
      known := by simpa only [ne_eq, hnone] using h.known
      copies := h.copies
      released := by simpa only [hnone] using h.released }⟩
  · rw [setMsg, msgAt_eq_some.mpr hold]
    exact hstore
  · intro other hother
    by_cases hne : other = msg
    · subst hne
      obtain ⟨hdata', hsize', hzero'⟩ := hf old
      cases h.held other hmsg with
      | owning block cell bytes hbuffer hcell hdata hblock hsize hzero =>
          obtain rfl : old = cell := by simpa [hold] using hcell
          have hsame := hcells block (h.buffer_ne hmsg hbuffer)
          exact .owning block (f old) bytes hbuffer (Function.update_self ..)
            (hdata'.trans hdata) (hsame.trans hblock) (hsize.trans hsize'.symm)
            (hzero'.trans hzero)
      | borrowing c cell hbuffer hcell hdata hsize hzero =>
          obtain rfl : old = cell := by simpa [hold] using hcell
          exact .borrowing c (f old) hbuffer (Function.update_self ..) (hdata'.trans hdata)
            (hsize'.le.trans hsize) (by rwa [hzero'])
    · exact (h.held other hother).frame (fun _ => Iff.rfl) rfl
        fun b hb _ => hcells b (h.disjoint hmsg hother hne hb).1

/-- The block of a live message is given back, and its buffer, when this is what `zero_copy`
asks for. -/
theorem given_back {mem : Memory Cell} (hmsg : msg ∈ s.live) (hsane : mem.Sane)
    (hcalls : mem.calls = s.mem.calls) (hallocated : mem.allocated = s.mem.allocated)
    (hused : ∀ b, mem.cells b ≠ none → b ≠ msg ∧ s.mem.cells b ≠ none)
    (hother : ∀ b, b ≠ msg → (msg, b) ∉ s.buffers → mem.cells b = s.mem.cells b)
    (hown : ∀ block, (msg, block) ∈ s.buffers →
      (mem.cells block = none ↔ flag a s.copies msg = 0)) :
    Inv a caller { s with mem := mem, live := s.live.erase msg } := by
  have hlive : ∀ other, other ∈ s.live.erase msg ↔ other ≠ msg ∧ other ∈ s.live :=
    fun _ => h.live.mem_erase_iff
  refine
    { sane := hsane
      live := h.live.erase msg
      held := ?_
      messages := h.messages
      blocks := h.blocks
      below := by simpa only [hcalls, hallocated] using h.below
      apart := fun other hmem => h.apart other ((hlive other).mp hmem).2
      known := ?_
      copies := h.copies
      released := ?_ }
  · intro other hmem
    obtain ⟨hne, hmem⟩ := (hlive other).mp hmem
    refine (h.held other hmem).frame (fun _ => Iff.rfl) rfl fun b hb _ => ?_
    obtain ⟨hbmsg, hbbuffer⟩ := h.disjoint hmsg hmem hne hb
    exact hother b hbmsg hbbuffer
  · intro b hb
    obtain ⟨hne, hold⟩ := hused b hb
    exact (h.known b hold).imp_left fun hmem => (hlive b).mpr ⟨hne, hmem⟩
  · intro other block hmem hnot
    by_cases hne : other = msg
    · subst hne
      exact hown block hmem
    · have hdead : other ∉ s.live := fun hmem => hnot ((hlive other).mpr ⟨hne, hmem⟩)
      rw [← h.released other block hmem hdead,
        hother block (h.buffer_ne hmsg hmem) fun hmem' => hne (h.owner_unique hmem hmem')]

theorem release (hmsg : msg ∈ s.live) :
    ∃ mem, emqMsgRelease msg s.mem = some mem ∧
      Inv a caller { s with mem := mem, live := s.live.erase msg } ∧
      (∀ b, b ≠ msg → (msg, b) ∉ s.buffers → mem.cells b = s.mem.cells b) ∧
      ∀ block, (msg, block) ∈ s.buffers → flag a s.copies msg = 0 →
        .block block ∉ s.mem.frees ∧ .block block ∈ mem.frees := by
  have hdropped : ∀ b, b ≠ msg → (s.mem.drop msg).cells b = s.mem.cells b :=
    fun _ => Memory.drop_cells_of_ne
  cases h.held msg hmsg with
  | owning block cell bytes hbuffer hcell hdata hblock hsize hzero =>
      have hrelease := emqMsgRelease_owning (msgAt_eq_some.mpr hcell) hdata
        (bytesAt_eq_some.mpr hblock)
      have honly : ∀ b, (msg, b) ∈ s.buffers → b = block :=
        fun b hb => h.buffer_unique hb hbuffer
      have hne := h.buffer_ne hmsg hbuffer
      rw [hzero] at hrelease
      by_cases hflag : flag a s.copies msg = 0
      · rw [if_pos hflag] at hrelease
        have hleft : (s.mem.drop block).cells msg = some (.msg cell) := by
          rw [Memory.drop_cells_of_ne hne.symm, hcell]
        have hother : ∀ b, b ≠ msg → (msg, b) ∉ s.buffers →
            ((s.mem.drop block).drop msg).cells b = s.mem.cells b := by
          intro b hb hnot
          rw [Memory.drop_cells_of_ne hb, Memory.drop_cells_of_ne]
          rintro rfl
          exact hnot hbuffer
        refine ⟨_, hrelease, h.given_back hmsg ((h.sane.drop hblock).drop hleft) rfl rfl ?_ hother
          ?_, hother, ?_⟩
        · intro b hb
          obtain ⟨hbmsg, hb⟩ := Memory.used_of_drop hb
          exact ⟨hbmsg, (Memory.used_of_drop hb).2⟩
        · intro b hb
          rw [honly b hb, Memory.drop_cells_of_ne hne, Memory.drop_cells_self]
          simp [hflag]
        · intro b hb _
          rw [honly b hb]
          refine ⟨h.sane.block_notMem (by simp [hblock]), ?_⟩
          exact List.mem_append_left _ (List.mem_append_right _ (List.mem_singleton_self _))
      · rw [if_neg hflag] at hrelease
        refine ⟨_, hrelease, h.given_back hmsg (h.sane.drop hcell) rfl rfl
          (fun _ => Memory.used_of_drop) (fun b hb _ => hdropped b hb) ?_,
          fun b hb _ => hdropped b hb, fun _ _ hzero => absurd hzero hflag⟩
        intro b hb
        rw [honly b hb, hdropped block hne, hblock]
        simp [hflag]
  | borrowing c cell hbuffer hcell hdata hsize hzero =>
      refine ⟨_, emqMsgRelease_borrowing (msgAt_eq_some.mpr hcell) hdata hzero, ?_,
        fun b hb _ => hdropped b hb, fun block hmem => absurd hmem (hbuffer block)⟩
      exact h.given_back hmsg (h.sane.drop hcell) rfl rfl (fun _ => Memory.used_of_drop)
        (fun b hb _ => hdropped b hb) fun block hmem => absurd hmem (hbuffer block)

end Inv

theorem undone_cells {mem : Memory Cell} (hsane : mem.Sane) (cell : MsgCell) :
    ((mem.alloc (.msg cell)).refuse.drop mem.calls).cells = mem.cells := by
  funext b
  by_cases hb : b = mem.calls
  · rw [hb, Memory.drop_cells_self, hsane.fresh (le_refl _)]
  · rw [Memory.drop_cells_of_ne hb, Memory.refuse_cells, Memory.alloc_cells_of_ne hb]

theorem ownBuffer_owning {mem : Memory Cell} {cell : MsgCell} {bytes : List UInt8}
    (hdata : cell.data = some (.block (mem.calls + 1))) :
    ownBuffer mem.calls (owning cell bytes mem) = some (mem.calls + 1) := by
  rw [ownBuffer, msgAt_eq_some.mpr owning_msg, Option.bind_some, hdata]

theorem ownBuffer_borrowing {mem : Memory Cell} {cell : MsgCell} {c : Nat}
    (hdata : cell.data = some (.foreign c)) :
    ownBuffer mem.calls (mem.alloc (.msg cell)) = none := by
  rw [ownBuffer, msgAt_eq_some.mpr Memory.alloc_cells_self, Option.bind_some, hdata]

/-- What a step makes of a state: the invariant stays, and a buffer is reclaimed by nothing
but the release of its message. -/
structure Keeps (a : Allocator) (caller : CallerMemory) (act : Act) (s s' : State) : Prop where
  inv : Inv a caller s'
  reclaimed : ∀ msg block, Reclaimed a s' msg block → Reclaimed a s msg block ∨
    act = .release msg ∧ .block block ∉ s.mem.frees ∧ .block block ∈ s'.mem.frees

theorem take_copies (s : State) (mem : Memory Cell) (result : Option Nat) :
    { s.take mem result with copies := [] ++ s.copies } = s.take mem result := by
  cases result <;> rfl

/-- The application gets a message with a buffer of its own; `extra` are the copies among
these. -/
theorem keeps_owning (h : Inv a caller s) (act : Act) {cell : MsgCell} {bytes : List UInt8}
    (hdata : cell.data = some (.block (s.mem.calls + 1))) (hsize : bytes.length = cell.size)
    {extra : List Nat} (hextra : ∀ m ∈ extra, m = s.mem.calls)
    (hzero : cell.zeroCopy = flag a (extra ++ s.copies) s.mem.calls) :
    Keeps a caller act s
      { s.take (owning cell bytes s.mem) (some s.mem.calls) with copies := extra ++ s.copies } := by
  have htake : s.take (owning cell bytes s.mem) (some s.mem.calls) =
      ⟨owning cell bytes s.mem, s.mem.calls :: s.live,
        (s.mem.calls, s.mem.calls + 1) :: s.buffers, s.copies⟩ := by
    rw [State.take, ownBuffer_owning hdata]
    rfl
  rw [htake]
  refine ⟨h.owning hdata hsize hzero hextra, ?_⟩
  rintro msg block ⟨hmem, hnot, hflag⟩
  obtain ⟨hne, hdead⟩ := not_or.mp fun hor => hnot (List.mem_cons.mpr hor)
  have hold : (msg, block) ∈ s.buffers :=
    (List.mem_cons.mp hmem).resolve_left fun heq => hne (Prod.ext_iff.mp heq).1
  rw [flag_append hextra hne] at hflag
  exact .inl ⟨hold, hdead, hflag⟩

theorem keeps_refused (h : Inv a caller s) (act : Act) :
    Keeps a caller act s (s.take s.mem.refuse none) :=
  ⟨h.unmade h.sane.refuse rfl (Nat.le_succ _) fun _ hb => hb, fun _ _ => .inl⟩

/-- A function that makes a message with a buffer of its own, or fails. `extra` says what
becomes of its result in the list of copies. -/
theorem keeps_of_outcome (h : Inv a caller s) (act : Act) {cell : MsgCell} {bytes : List UInt8}
    {result : Option Nat × Memory Cell} (houtcome : Outcome a s.mem cell bytes result)
    (hdata : cell.data = some (.block (s.mem.calls + 1))) (hsize : bytes.length = cell.size)
    (extra : Option Nat → List Nat) (hnone : extra none = [])
    (hextra : ∀ m ∈ extra (some s.mem.calls), m = s.mem.calls)
    (hzero : cell.zeroCopy = flag a (extra (some s.mem.calls) ++ s.copies) s.mem.calls) :
    Keeps a caller act s
      { s.take result.2 result.1 with copies := extra result.1 ++ s.copies } := by
  cases houtcome with
  | refused =>
      rw [hnone, take_copies]
      exact keeps_refused h act
  | undone left =>
      rw [hnone, take_copies]
      refine ⟨h.unmade ?_ (undone_cells h.sane left) (Nat.le_add_right _ 2)
        fun _ => List.mem_cons_of_mem _, fun _ _ => .inl⟩
      exact (h.sane.alloc (.msg left)).refuse.drop Memory.alloc_cells_self
  | made => exact keeps_owning h act hdata hsize hextra hzero

theorem keeps_borrowing (h : Inv a caller s) (act : Act) {cell : MsgCell} {c : Nat}
    (hdata : cell.data = some (.foreign c)) (hsize : cell.size ≤ (caller c).length)
    (hzero : cell.zeroCopy ≠ 0) :
    Keeps a caller act s (s.take (s.mem.alloc (.msg cell)) (some s.mem.calls)) := by
  have htake : s.take (s.mem.alloc (.msg cell)) (some s.mem.calls) =
      { s with mem := s.mem.alloc (.msg cell), live := s.mem.calls :: s.live } := by
    rw [State.take, ownBuffer_borrowing hdata]
    rfl
  rw [htake]
  refine ⟨h.borrowing hdata hsize hzero, ?_⟩
  rintro msg block ⟨hmem, hnot, hflag⟩
  exact .inl ⟨hmem, fun hlive => hnot (List.mem_cons_of_mem _ hlive), hflag⟩

/-- Nothing that an application may do is undefined, and the invariant stays. -/
theorem perform_keeps (h : Inv a caller s) {act : Act} (hallowed : Allowed a caller s act) :
    ∃ s', perform a caller act s = some s' ∧ Keeps a caller act s s' := by
  have hnew : flag a s.copies s.mem.calls = 0 :=
    if_neg fun hmem => Nat.lt_irrefl _ (h.copies_lt hmem)
  cases act with
  | create data size zeroCopy =>
      obtain ⟨hreadable, hforeign⟩ := hallowed
      obtain ⟨bytes, hread⟩ := Option.ne_none_iff_exists'.mp hreadable
      by_cases hzero : zeroCopy = 0
      · subst hzero
        obtain ⟨result, hcreate, houtcome⟩ := emqMsgCreate_outcome (a := a) h.sane hread
        have hkeeps := keeps_of_outcome h (.create data size 0) houtcome rfl (read_length hread)
          (fun _ => []) rfl (by simp) hnew.symm
        rw [take_copies] at hkeeps
        exact ⟨_, by rw [perform, hcreate]; rfl, hkeeps⟩
      · obtain ⟨c, rfl⟩ := hforeign hzero
        obtain ⟨_, hc, hsize, _⟩ := read_eq_some.mp hread
        have hcreate := @emqMsgCreate_borrowing a caller s.mem (.foreign c) size zeroCopy hzero
        cases hgrants : a.grants s.mem.calls 32 with
        | true =>
            rw [hgrants, if_pos rfl] at hcreate
            refine ⟨_, by rw [perform, hcreate]; rfl, keeps_borrowing h _ rfl ?_ hzero⟩
            rw [Option.some.inj hc]
            exact hsize
        | false =>
            rw [hgrants, if_neg (by decide)] at hcreate
            exact ⟨_, by rw [perform, hcreate]; rfl, keeps_refused h _⟩
  | copy msg =>
      obtain ⟨cell, p, data, hmsg, hp, hread, _⟩ := (h.held msg hallowed).data
      obtain ⟨result, hcopy, houtcome⟩ := emqMsgCopy_outcome (a := a) h.sane hmsg hp hread
      refine ⟨_, by rw [perform, hcopy]; rfl, ?_⟩
      refine keeps_of_outcome h _ houtcome rfl (read_length hread) Option.toList rfl
        (by simp) ?_
      simp [flag]
  | receive size tag received =>
      obtain ⟨msg, mem, hreceive⟩ := hallowed
      obtain ⟨rfl, cell, bytes, hdata, hsize, hzero, rfl⟩ := emqReadMessageTag_some hreceive
      have hkeeps := keeps_owning h (.receive size tag received) hdata hsize
        (fun _ hm => absurd hm List.not_mem_nil) (hzero.trans hnew.symm)
      rw [take_copies] at hkeeps
      exact ⟨_, by rw [perform, hreceive]; rfl, hkeeps⟩
  | expire msg time =>
      obtain ⟨mem, hset, hinv⟩ := h.stored (f := fun m => { m with expire := time }) hallowed
        fun _ => ⟨rfl, rfl, rfl⟩
      exact ⟨_, by rw [perform, emqMsgExpire, hset]; rfl, hinv, fun _ _ => .inl⟩
  | release msg =>
      obtain ⟨mem, hrelease, hinv, _, hfrees⟩ := h.release hallowed
      refine ⟨_, by rw [perform, hrelease]; rfl, hinv, ?_⟩
      rintro other block ⟨hmem, hnot, hflag⟩
      by_cases hne : other = msg
      · subst hne
        exact .inr ⟨rfl, hfrees block hmem hflag⟩
      · exact .inl ⟨hmem, fun hlive => hnot (h.live.mem_erase_iff.mpr ⟨hne, hlive⟩), hflag⟩

theorem copies_source (h : Inv a caller s) (hmsg : msg ∈ s.live) : Copies a caller s msg := by
  intro newMsg mem hcopy
  obtain ⟨cell, p, data, hcell, hp, hread, _⟩ := (h.held msg hmsg).data
  obtain ⟨result, hresult, houtcome⟩ := emqMsgCopy_outcome (a := a) h.sane hcell hp hread
  rw [hresult] at hcopy
  cases hcopy
  cases houtcome with
  | made =>
      have hnew : messageData caller s.mem.calls
          (owning ⟨some (.block (s.mem.calls + 1)), cell.size, cell.tag, cell.expire,
            (a.leftover s.mem.calls).zeroCopy⟩ data s.mem) = some data :=
        messageData_owning rfl (read_length hread)
      have hold := messageData_eq_some.mpr ⟨cell, p, hcell, hp, hread⟩
      refine ⟨by simp [hnew], hnew.trans hold.symm, cell, _, hcell, msgAt_eq_some.mpr owning_msg,
        rfl, rfl, rfl⟩

theorem spares_others (h : Inv a caller s) (hmsg : msg ∈ s.live) : Spares caller s msg := by
  intro mem hrelease other hother hne
  obtain ⟨mem', hrelease', _, hsame, _⟩ := h.release hmsg
  obtain rfl : mem = mem' := Option.some.inj (hrelease.symm.trans hrelease')
  have hcells : ∀ b, b = other ∨ (other, b) ∈ s.buffers → mem.cells b = s.mem.cells b := by
    intro b hb
    obtain ⟨hbmsg, hbbuffer⟩ := h.disjoint hmsg hother hne hb
    exact hsame b hbmsg hbbuffer
  obtain ⟨cell, p, data, hcell, hp, hread, hown⟩ := (h.held other hother).data
  have hold := messageData_eq_some.mpr ⟨cell, p, hcell, hp, hread⟩
  have hdata : messageData caller other mem = messageData caller other s.mem := by
    refine messageData_congr hcell (hcells other (.inl rfl)) fun b hb => hcells b (.inr (hown b ?_))
    exact Option.some.inj (hp.symm.trans hb)
  refine ⟨by simp [hdata, hold], hdata, ?_⟩
  rw [msgAt, msgAt, hcells other (.inl rfl)]

theorem FreedBy.append {history : List (State × Act)} {block : Nat}
    (h : FreedBy a caller history msg block) (more : List (State × Act)) :
    FreedBy a caller (history ++ more) msg block := by
  obtain ⟨s, s', hmem, hfreed⟩ := h
  exact ⟨s, s', List.mem_append_left _ hmem, hfreed⟩

theorem Run.inv {history : List (State × Act)} {result : Option State}
    (hrun : Run a caller history result) :
    (∀ p ∈ history, Inv a caller p.1 ∧ Allowed a caller p.1 p.2) ∧
      ∃ s, result = some s ∧ Inv a caller s ∧
        ∀ msg block, Reclaimed a s msg block → FreedBy a caller history msg block := by
  induction hrun with
  | start =>
      refine ⟨by simp, _, rfl, .start, ?_⟩
      rintro msg block ⟨hmem, _⟩
      cases hmem
  | @act history s hrun act hallowed ih =>
      obtain ⟨hhistory, s0, heq, hinv, hfreed⟩ := ih
      cases heq
      obtain ⟨s', hperform, hkeeps⟩ := perform_keeps hinv hallowed
      refine ⟨?_, s', hperform, hkeeps.inv, fun msg block hreclaimed => ?_⟩
      · intro p hp
        rcases List.mem_append.mp hp with hp | hp
        · exact hhistory p hp
        · rw [List.mem_singleton.mp hp]
          exact ⟨hinv, hallowed⟩
      · rcases hkeeps.reclaimed msg block hreclaimed with hold | ⟨rfl, hbefore, hafter⟩
        · exact (hfreed msg block hold).append _
        · exact ⟨s, s', List.mem_append_right _ (List.mem_singleton_self _), hperform, hbefore,
            hafter⟩

/-- In a run that releases all of its messages, every buffer is owned by one message iff the
memory that `malloc` found for each copy had a zero in the place of `zero_copy`. -/
theorem owned_once_iff {history : List (State × Act)} {result : Option State}
    (hrun : Run a caller history result) (hcomplete : ∀ s, result = some s → s.live = []) :
    ∃ s, result = some s ∧
      (OwnedOnce a caller history s ↔ ∀ msg ∈ s.copies, (a.leftover msg).zeroCopy = 0) := by
  obtain ⟨hhistory, s, rfl, hinv, hfreed⟩ := hrun.inv
  have hdead : ∀ msg, msg ∉ s.live := by simp [hcomplete s rfl]
  refine ⟨s, rfl, ?_⟩
  constructor
  · intro howned msg hcopy
    obtain ⟨⟨msg, block⟩, hmem, rfl⟩ := List.mem_map.mp (hinv.copies msg hcopy)
    have hallocated := (howned.own msg block hmem).1
    have hnone := (hinv.sane.count_frees hallocated).mp (howned.once block hallocated)
    have hzero := (hinv.released msg block hmem (hdead msg)).mp hnone
    rwa [flag, if_pos hcopy] at hzero
  · intro hclean
    have hzero : ∀ msg, flag a s.copies msg = 0 := by
      intro msg
      by_cases hcopy : msg ∈ s.copies
      · rw [flag, if_pos hcopy, hclean msg hcopy]
      · rw [flag, if_neg hcopy]
    have hempty : ∀ b, s.mem.cells b = none := by
      intro b
      by_contra hused
      rcases hinv.known b hused with hlive | hbuffer
      · exact hdead b hlive
      · obtain ⟨⟨msg, block⟩, hmem, rfl⟩ := List.mem_map.mp hbuffer
        exact hused ((hinv.released msg block hmem (hdead msg)).mpr (hzero msg))
    exact
      { once := fun b hb => (hinv.sane.count_frees hb).mpr (hempty b)
        callers := hinv.sane.foreign_notMem
        own := fun msg block hmem =>
          ⟨(hinv.below _ hmem).2, hfreed msg block ⟨hmem, hdead msg, hzero msg⟩⟩
        copied := fun s' msg hmem => copies_source (hhistory _ hmem).1 (hhistory _ hmem).2
        spared := fun s' msg hmem => spares_others (hhistory _ hmem).1 (hhistory _ hmem).2 }

def granting (leftover : Int) : Allocator where
  grants _ _ := true
  leftover _ := ⟨none, 0, 0, 0, leftover⟩
  junk _ _ := 0

def lending : CallerMemory := fun _ => [65]

def copying : List Act := [.create (.foreign 0) 1 0, .copy 0, .release 0, .release 2]

/-- The state after so many of the steps. -/
def stepped (leftover : Int) (n : Nat) : State :=
  (copying.take n).foldl (fun s act => (perform (granting leftover) lending act s).getD s) .start

def copied (leftover : Int) : List (State × Act) :=
  [(stepped leftover 0, .create (.foreign 0) 1 0), (stepped leftover 1, .copy 0),
    (stepped leftover 2, .release 0), (stepped leftover 3, .release 2)]

theorem Run.next {history : List (State × Act)} (hrun : Run a caller history (some s)) (act : Act)
    (hallowed : Allowed a caller s act) (hperform : perform a caller act s = some s') :
    Run a caller (history ++ [(s, act)]) (some s') :=
  hperform ▸ .act hrun hallowed

theorem run_copied (leftover : Int) (hzero : leftover = 0 ∨ leftover = 1) :
    Run (granting leftover) lending (copied leftover) (some (stepped leftover 4)) := by
  have hcreated : Run (granting leftover) lending ((copied leftover).take 1)
      (some (stepped leftover 1)) :=
    Run.start.next (.create (.foreign 0) 1 0) ⟨by decide, fun h => absurd rfl h⟩ rfl
  have hcopied : Run (granting leftover) lending ((copied leftover).take 2)
      (some (stepped leftover 2)) :=
    hcreated.next (.copy 0) List.mem_cons_self rfl
  have hreleased : Run (granting leftover) lending ((copied leftover).take 3)
      (some (stepped leftover 3)) :=
    hcopied.next (.release 0) (List.mem_cons_of_mem _ List.mem_cons_self) rfl
  refine hreleased.next (.release 2) List.mem_cons_self ?_
  rcases hzero with rfl | rfl <;> rfl

/-- The copy finds a one in the place of `zero_copy`, and its buffer is never freed. -/
theorem copy_leaks :
    ¬ ∀ (a : Allocator) (caller : CallerMemory) (history : List (State × Act)) (s : State),
      Run a caller history (some s) → s.live = [] → OwnedOnce a caller history s := by
  intro h
  have howned := h _ _ _ _ (run_copied 1 (.inr rfl)) (by decide)
  exact absurd (howned.once 3 (by decide)) (by decide)

theorem owned_once_iff_copied : OwnedOnce (granting 0) lending (copied 0) (stepped 0 4) := by
  have hcomplete : ∀ s, some (stepped 0 4) = some s → s.live = [] := by
    intro s hs
    cases hs
    decide
  obtain ⟨s, hs, hiff⟩ := owned_once_iff (run_copied 0 (.inl rfl)) hcomplete
  cases hs
  exact hiff.mpr (by decide)

end Libemq.Ownership
