/-
This file embeds `CEventQueue` over an explicit heap of nodes and proves that the
queues of a program are independent first-in first-out queues. A queue is two
pointers; its nodes are shared cells of one heap, and a popped node stays behind with
its stale links. The invariant of a run is one chain for each queue, from `m_head` to
`m_last_node`, and no address on two of them.
-/

import SelftestNet.Chain
import SelftestNet.Run

namespace SelftestNet

open LinkedChain

variable {Event : Type}

/-! ### The queue -/

/-- `CEventQueue`. Its nodes are the cells of the heap, with the events as their data. -/
structure CEventQueue where
  mHead : Option Nat
  mLastNode : Option Nat

namespace CEventQueue

/-- The constructor. -/
def new : CEventQueue where
  mHead := none
  mLastNode := none

/-- `CreateNewNode`, at the address that the allocation gives, which is a free one. -/
def createNewNode (heap : Heap Nat Event) (address : Nat) (event : Event) :
    Option (Heap Nat Event) :=
  if (heap address).isNone then
    some (put heap address { next := none, prev := none, data := event })
  else none

/-- `push`. -/
def push (queue : CEventQueue) (heap : Heap Nat Event) (address : Nat) (event : Event) :
    Option (CEventQueue × Heap Nat Event) :=
  (createNewNode heap address event).bind fun heap =>
    if queue.mHead = none then some ({ mHead := some address, mLastNode := some address }, heap)
    else
      (store heap queue.mLastNode fun cell => { cell with next := some address }).bind fun heap =>
        (store heap (some address) fun cell => { cell with prev := queue.mLastNode }).map
          fun heap => ({ queue with mLastNode := some address }, heap)

/-- The two pointers, and the heap, behind `m_head = m_head->next` in `pop`. -/
def advance (queue : CEventQueue) (heap : Heap Nat Event) (mHead : Option Nat) :
    Option (CEventQueue × Heap Nat Event) :=
  if mHead ≠ none then
    (store heap mHead fun cell => { cell with prev := none }).map
      fun heap => ({ queue with mHead }, heap)
  else some ({ mHead, mLastNode := mHead }, heap)

/-- `pop`, which leaves the popped node where it is. -/
def pop (queue : CEventQueue) (heap : Heap Nat Event) :
    Option (Option Event × CEventQueue × Heap Nat Event) :=
  if queue.mHead = none then some (none, queue, heap)
  else
    (load heap queue.mHead).bind fun tmp =>
      (queue.advance heap tmp.next).bind fun (next, heap) =>
        (load heap queue.mHead).map fun tmp => (some tmp.data, next, heap)

/-- `GetPrioQue`: copies of queues fresh from their constructor, one for each level; nothing for a
level that does not exist. -/
def getPrioQue (prioLevel : Int) : Option (List CEventQueue) :=
  if prioLevel > 2 ∨ 0 > prioLevel then none
  else some (List.replicate (prioLevel.toNat + 1) new)

/-! ### One operation -/

/-- A node behind the first one: the heap with a new node at the address, linked behind the node
at `final`. -/
def linkBehind (heap : Heap Nat Event) (final : Nat) (cell : Cell Nat Event) (address : Nat)
    (event : Event) : Heap Nat Event :=
  put (put (put heap address ⟨none, none, event⟩) final { cell with next := some address }) address
    ⟨none, some final, event⟩

theorem linkBehind_of_ne (heap : Heap Nat Event) {final address other : Nat}
    (cell : Cell Nat Event) (event : Event) (away : other ≠ address) (notLast : other ≠ final) :
    linkBehind heap final cell address event other = heap other := by
  rw [linkBehind, put_of_ne _ away, put_of_ne _ notLast, put_of_ne _ away]

theorem createNewNode_of_free {heap : Heap Nat Event} {address : Nat}
    (free : heap address = none) (event : Event) :
    createNewNode heap address event = some (put heap address ⟨none, none, event⟩) := by
  rw [createNewNode, free]
  rfl

/-- Pushing to an empty queue makes the new node its chain. -/
theorem push_of_nil {queue : CEventQueue} {heap : Heap Nat Event}
    (chain : Chain heap queue.mHead queue.mLastNode []) {address : Nat}
    (free : heap address = none) (event : Event) :
    ∃ next, queue.push heap address event = some (next, put heap address ⟨none, none, event⟩) ∧
      Chain (put heap address ⟨none, none, event⟩) next.mHead next.mLastNode
        [(address, event)] := by
  have noHead := chain.head_eq_none_iff.mpr rfl
  have noLast := chain.last_eq_none_iff.mpr rfl
  rw [push, createNewNode_of_free free, Option.bind_some, if_pos noHead]
  have grown := chain.append (put heap address ⟨none, none, event⟩) free event
    (fun _ _ atEnd => absurd (noLast.symm.trans atEnd) (by rintro ⟨⟩))
    (by rw [put_self, noLast]) (fun _ member => (List.not_mem_nil member).elim)
  rw [noHead] at grown
  exact ⟨_, rfl, grown⟩

theorem ne_of_free {heap : Heap Nat Event} {final address : Nat} {cell : Cell Nat Event}
    (found : heap final = some cell) (free : heap address = none) : final ≠ address := by
  rintro rfl
  cases found.symm.trans free

/-- What a push does to a queue whose two pointers are not null. -/
theorem push_of_some {queue : CEventQueue} {heap : Heap Nat Event} (someHead : queue.mHead ≠ none)
    {final : Nat} (atEnd : queue.mLastNode = some final) {cell : Cell Nat Event}
    (found : heap final = some cell) {address : Nat} (free : heap address = none)
    (event : Event) :
    queue.push heap address event = some ({ queue with mLastNode := some address },
      linkBehind heap final cell address event) := by
  have different := ne_of_free found free
  rw [push, createNewNode_of_free free, Option.bind_some, if_neg someHead, atEnd,
    store_of_some _ ((put_of_ne heap different _).trans found), Option.bind_some,
    store_of_some _ ((put_of_ne _ different.symm _).trans (put_self heap address _)),
    Option.map_some]
  rfl

/-- Pushing to a queue that is not empty links the new node behind its last one. -/
theorem push_of_ne_nil {queue : CEventQueue} {heap : Heap Nat Event} {nodes : List (Nat × Event)}
    (chain : Chain heap queue.mHead queue.mLastNode nodes) (nonempty : nodes ≠ [])
    {address : Nat} (free : heap address = none) (event : Event) :
    ∃ next, ∃ final ∈ addresses nodes, ∃ cell, queue.push heap address event =
        some (next, linkBehind heap final cell address event) ∧
      Chain (linkBehind heap final cell address event) next.mHead next.mLastNode
        (nodes ++ [(address, event)]) := by
  have someHead : queue.mHead ≠ none := chain.head_eq_none_iff.not.mpr nonempty
  obtain ⟨first, starts⟩ := Option.ne_none_iff_exists'.mp someHead
  obtain ⟨final, atEnd⟩ :=
    Option.ne_none_iff_exists'.mp (chain.last_eq_none_iff.not.mpr nonempty)
  have member := chain.last_mem atEnd
  obtain ⟨cell, found⟩ := chain.exists_cell member
  have different := ne_of_free found free
  refine ⟨{ queue with mLastNode := some address }, final, member, cell,
    push_of_some someHead atEnd found free event, ?_⟩
  · have grown := chain.append (linkBehind heap final cell address event) free event ?_ ?_ ?_
    · rw [starts] at grown ⊢
      exact grown
    · intro other cellOther same foundOther
      obtain rfl := Option.some.inj (atEnd.symm.trans same)
      obtain rfl := Option.some.inj (found.symm.trans foundOther)
      rw [linkBehind, put_of_ne _ different, put_self]
    · rw [linkBehind, put_self, atEnd]
    · intro other inside inner
      refine linkBehind_of_ne heap cell event ?_ ?_
      · rintro rfl
        exact chain.allocated free inside
      · rintro rfl
        exact inner atEnd

/-- Pushing appends a node to the chain of the queue and touches no other cell. -/
theorem push_spec {queue : CEventQueue} {heap : Heap Nat Event} {nodes : List (Nat × Event)}
    (chain : Chain heap queue.mHead queue.mLastNode nodes) {address : Nat}
    (free : heap address = none) (event : Event) :
    ∃ next after, queue.push heap address event = some (next, after) ∧
      Chain after next.mHead next.mLastNode (nodes ++ [(address, event)]) ∧
      ∀ other, other ≠ address → other ∉ addresses nodes → after other = heap other := by
  by_cases empty : nodes = []
  · subst empty
    obtain ⟨next, pushed, grown⟩ := push_of_nil chain free event
    exact ⟨next, _, pushed, grown, fun other away _ => put_of_ne heap away _⟩
  · obtain ⟨next, final, member, cell, pushed, grown⟩ := push_of_ne_nil chain empty free event
    refine ⟨next, _, pushed, grown, fun other away outside => ?_⟩
    refine linkBehind_of_ne heap cell event away ?_
    rintro rfl
    exact outside member

/-- Popping an empty queue returns `NULL` and changes nothing. -/
theorem pop_of_nil {queue : CEventQueue} {heap : Heap Nat Event}
    (chain : Chain heap queue.mHead queue.mLastNode []) :
    queue.pop heap = some (none, queue, heap) :=
  if_pos (chain.head_eq_none_iff.mpr rfl)

/-- The cell at the head of a chain. -/
theorem load_head {queue : CEventQueue} {heap : Heap Nat Event} {address : Nat}
    {event : Event} {nodes : List (Nat × Event)}
    (chain : Chain heap queue.mHead queue.mLastNode ((address, event) :: nodes)) :
    load heap queue.mHead = some ⟨(addresses nodes)[0]?, none, event⟩ := by
  have first := chain.cells 0 address event rfl
  rw [chain.head]
  exact first

/-- Popping the only node empties the queue. -/
theorem pop_of_singleton {queue : CEventQueue} {heap : Heap Nat Event} {address : Nat}
    {event : Event} (chain : Chain heap queue.mHead queue.mLastNode [(address, event)]) :
    queue.pop heap = some (some event, .new, heap) := by
  have someHead : queue.mHead ≠ none := by
    rw [chain.head]
    exact Option.some_ne_none address
  have loaded := load_head chain
  rw [pop, if_neg someHead, loaded, Option.bind_some]
  dsimp only
  rw [addresses, List.map_nil, List.getElem?_nil, advance, if_neg (not_not.mpr rfl),
    Option.bind_some, loaded]
  rfl

/-- Popping the first of several nodes makes the second one the head, with nothing before it. -/
theorem pop_of_cons_cons {queue : CEventQueue} {heap : Heap Nat Event} {address second : Nat}
    {event later : Event} {nodes : List (Nat × Event)}
    (chain : Chain heap queue.mHead queue.mLastNode
      ((address, event) :: (second, later) :: nodes)) :
    ∃ cell : Cell Nat Event, queue.pop heap = some (some event, { queue with mHead := some second },
        put heap second { cell with prev := none }) ∧
      Chain (put heap second { cell with prev := none }) (some second) queue.mLastNode
        ((second, later) :: nodes) := by
  have starts : queue.mHead = some address := chain.head
  have someHead : queue.mHead ≠ none := by
    rw [starts]
    exact Option.some_ne_none address
  have different : address ≠ second := by
    rintro rfl
    exact (List.nodup_cons.mp chain.distinct).1 List.mem_cons_self
  have follower : (addresses ((second, later) :: nodes))[0]? = some second := rfl
  obtain ⟨cell, found⟩ := chain.exists_cell (List.mem_cons_of_mem _ List.mem_cons_self)
  have still : load (put heap second { cell with prev := none }) queue.mHead =
      load heap queue.mHead := by
    rw [starts]
    exact put_of_ne heap different _
  refine ⟨cell, ?_, ?_⟩
  · rw [pop, if_neg someHead, load_head chain, Option.bind_some]
    dsimp only
    rw [follower, advance, if_pos (Option.some_ne_none second), store_of_some _ found,
      Option.map_some, Option.bind_some]
    dsimp only
    rw [still, load_head chain]
    rfl
  · have shrunk := chain.tail (put heap second { cell with prev := none }) ?_ ?_
    · rw [if_neg (List.cons_ne_nil _ _), follower] at shrunk
      exact shrunk
    · intro other cellOther same foundOther
      obtain rfl := Option.some.inj (follower.symm.trans same)
      obtain rfl := Option.some.inj (found.symm.trans foundOther)
      exact put_self heap second _
    · intro other _ inner
      refine put_of_ne heap ?_ _
      rintro rfl
      exact inner follower

/-- Popping a queue returns the event of its first node, takes that node off the chain and touches
no cell but those that stay on the chain. -/
theorem pop_of_cons {queue : CEventQueue} {heap : Heap Nat Event} {address : Nat}
    {event : Event} {nodes : List (Nat × Event)}
    (chain : Chain heap queue.mHead queue.mLastNode ((address, event) :: nodes)) :
    ∃ next after, queue.pop heap = some (some event, next, after) ∧
      Chain after next.mHead next.mLastNode nodes ∧
      ∀ other ∉ addresses nodes, after other = heap other := by
  rcases nodes with _ | ⟨⟨second, later⟩, rest⟩
  · exact ⟨_, _, pop_of_singleton chain, Chain.nil heap, fun _ _ => rfl⟩
  · obtain ⟨cell, popped, shrunk⟩ := pop_of_cons_cons chain
    refine ⟨_, _, popped, shrunk, fun other outside => put_of_ne heap ?_ _⟩
    rintro rfl
    exact outside List.mem_cons_self

end CEventQueue

/-! ### Runs of many queues -/

/-- A queue with its history: the events pushed to it, and those that its pops returned. -/
structure Tracked (Event : Type) where
  queue : CEventQueue
  pushed : List Event
  popped : List Event

/-- A queue without history. -/
def Tracked.fresh (queue : CEventQueue) : Tracked Event where
  queue := queue
  pushed := []
  popped := []

/-- One call: a queue is constructed, alone or by `GetPrioQue`, or copied, or pushed to, at the
address that the allocation gives, or popped. -/
inductive QueueCall (Event : Type)
  | construct
  | getPrioQue (prioLevel : Int)
  | copy (source : Nat)
  | push (index : Nat) (event : Event) (address : Nat)
  | pop (index : Nat)

/-- The queues of a program and the heap they share. -/
structure EventQueues (Event : Type) where
  heap : Heap Nat Event
  queues : List (Tracked Event)

namespace EventQueues

/-- A program before its first queue. -/
def empty : EventQueues Event where
  heap _ := none
  queues := []

/-- One call, recorded in the history of its queue. -/
def step (system : EventQueues Event) : QueueCall Event → Option (EventQueues Event)
  | .construct => some { system with queues := system.queues ++ [.fresh .new] }
  | .getPrioQue prioLevel => some
      { system with
        queues := system.queues ++ ((CEventQueue.getPrioQue prioLevel).getD []).map .fresh }
  | .copy source =>
    system.queues[source]?.map fun tracked =>
      { system with queues := system.queues ++ [.fresh tracked.queue] }
  | .push index event address =>
    system.queues[index]?.bind fun tracked =>
      (tracked.queue.push system.heap address event).map fun (queue, heap) =>
        { heap
          queues := system.queues.set index
            { tracked with queue, pushed := tracked.pushed ++ [event] } }
  | .pop index =>
    system.queues[index]?.bind fun tracked =>
      (tracked.queue.pop system.heap).map fun (event, queue, heap) =>
        { heap
          queues := system.queues.set index
            { tracked with queue, popped := tracked.popped ++ event.toList } }

/-- The queue of the call exists; it is empty when it is copied; and an allocation gives a free
address. -/
def Allowed (system : EventQueues Event) : QueueCall Event → Prop
  | .construct | .getPrioQue _ => True
  | .copy source => ∃ tracked, system.queues[source]? = some tracked ∧ tracked.queue.mHead = none
  | .push index _ address => index < system.queues.length ∧ system.heap address = none
  | .pop index => index < system.queues.length

/-- The nodes hold, in a chain of the queue, the events pushed and not yet popped. -/
structure Holds (heap : Heap Nat Event) (tracked : Tracked Event) (nodes : List (Nat × Event)) :
    Prop where
  chain : Chain heap tracked.queue.mHead tracked.queue.mLastNode nodes
  history : tracked.pushed = tracked.popped ++ nodes.map Prod.snd

/-- The next pop returns the first event pushed and not yet popped, and `NULL` when there is
none. -/
theorem Holds.pop {heap : Heap Nat Event} {tracked : Tracked Event} {nodes : List (Nat × Event)}
    (holds : Holds heap tracked nodes) :
    ∃ queue after, tracked.queue.pop heap =
      some (tracked.pushed[tracked.popped.length]?, queue, after) := by
  obtain ⟨chain, history⟩ := holds
  rw [history, List.getElem?_append_right (Nat.le_refl _), Nat.sub_self]
  rcases nodes with _ | ⟨⟨address, event⟩, rest⟩
  · exact ⟨_, _, CEventQueue.pop_of_nil chain⟩
  · obtain ⟨queue, after, popped, -⟩ := CEventQueue.pop_of_cons chain
    exact ⟨queue, after, popped⟩

/-- Nothing is held exactly when every event pushed has been popped. -/
theorem Holds.nodes_eq_nil_iff {heap : Heap Nat Event} {tracked : Tracked Event}
    {nodes : List (Nat × Event)} (holds : Holds heap tracked nodes) :
    nodes = [] ↔ tracked.popped = tracked.pushed := by
  rw [holds.history, eq_comm (a := tracked.popped), List.append_right_eq_self, List.map_eq_nil_iff]

/-- Every queue has its chain, and no two chains share an address. -/
structure Separate (system : EventQueues Event) (nodes : Nat → List (Nat × Event)) : Prop where
  holds : ∀ (index : Nat) tracked, system.queues[index]? = some tracked →
    Holds system.heap tracked (nodes index)
  apart : ∀ first second, first ≠ second → first < system.queues.length →
    second < system.queues.length →
      (addresses (nodes first)).Disjoint (addresses (nodes second))

theorem empty_separate : Separate (empty : EventQueues Event) fun _ => [] where
  holds := fun _ _ found => nomatch found
  apart := fun _ _ _ inside => (Nat.not_lt_zero _ inside).elim

theorem Separate.allocated {system : EventQueues Event} {nodes : Nat → List (Nat × Event)}
    (separate : system.Separate nodes) {index : Nat} (inside : index < system.queues.length)
    {address : Nat} (member : address ∈ addresses (nodes index)) : system.heap address ≠ none :=
  fun free => (separate.holds index _ (List.getElem?_eq_getElem inside)).chain.allocated free member

/-- A change of one queue that touches no allocated cell outside its chain, and takes its new
cells from the free ones, keeps the queues separate. -/
theorem Separate.update {system : EventQueues Event} {nodes : Nat → List (Nat × Event)}
    (separate : system.Separate nodes) {index : Nat} (inside : index < system.queues.length)
    {next : Tracked Event} {heap : Heap Nat Event} (changed : List (Nat × Event))
    (holds : Holds heap next changed)
    (frame : ∀ address ∉ addresses (nodes index), system.heap address ≠ none →
      heap address = system.heap address)
    (taken : ∀ address ∈ addresses changed, address ∈ addresses (nodes index) ∨
      system.heap address = none) :
    Separate { heap, queues := system.queues.set index next }
      (Function.update nodes index changed) := by
  have elsewhere : ∀ other, other ≠ index → other < system.queues.length →
      (addresses changed).Disjoint (addresses (nodes other)) := by
    intro other different insideOther address member memberOther
    rcases taken address member with here | free
    · exact separate.apart index other different.symm inside insideOther here memberOther
    · exact separate.allocated insideOther memberOther free
  refine ⟨fun other tracked found => ?_, fun first second different insideFirst insideSecond => ?_⟩
  · change (system.queues.set index next)[other]? = some tracked at found
    by_cases same : other = index
    · rw [same, List.getElem?_set_self inside] at found
      rw [same, Function.update_self]
      exact Option.some.inj found ▸ holds
    · rw [List.getElem?_set_ne (Ne.symm same)] at found
      rw [Function.update_of_ne same]
      obtain ⟨chain, history⟩ := separate.holds other tracked found
      have insideOther := (List.getElem?_eq_some_iff.mp found).1
      refine ⟨chain.frame fun address member => frame address ?_ ?_, history⟩
      · exact separate.apart other index same insideOther inside member
      · exact separate.allocated insideOther member
  · change first < (system.queues.set index next).length at insideFirst
    change second < (system.queues.set index next).length at insideSecond
    rw [List.length_set] at insideFirst insideSecond
    by_cases atFirst : first = index
    · have notSecond : second ≠ index := fun same => different (atFirst.trans same.symm)
      rw [atFirst, Function.update_self, Function.update_of_ne notSecond]
      exact elsewhere second notSecond insideSecond
    · rw [Function.update_of_ne atFirst]
      by_cases atSecond : second = index
      · rw [atSecond, Function.update_self]
        exact fun _ here there => elsewhere first atFirst insideFirst there here
      · rw [Function.update_of_ne atSecond]
        exact separate.apart first second different insideFirst insideSecond

/-- New queues, all empty, keep the queues separate. -/
theorem Separate.extend {system : EventQueues Event} {nodes : Nat → List (Nat × Event)}
    (separate : system.Separate nodes) {added : List (Tracked Event)}
    (empty : ∀ tracked ∈ added, tracked = .fresh .new) :
    Separate { system with queues := system.queues ++ added }
      fun index => if index < system.queues.length then nodes index else [] := by
  refine ⟨fun index tracked found => ?_, fun first second different insideFirst insideSecond => ?_⟩
  · by_cases old : index < system.queues.length
    · rw [if_pos old]
      exact separate.holds index tracked ((List.getElem?_append_left old).symm.trans found)
    · rw [if_neg old]
      change (system.queues ++ added)[index]? = some tracked at found
      rw [List.getElem?_append_right (Nat.not_lt.mp old)] at found
      rw [empty tracked (List.mem_of_getElem? found)]
      exact ⟨Chain.nil system.heap, rfl⟩
  · split
    · split
      · exact separate.apart first second different ‹_› ‹_›
      · exact List.disjoint_nil_right _
    · exact List.disjoint_nil_left _

/-- A copy of an empty queue is a new one. -/
theorem Separate.eq_new {system : EventQueues Event} {nodes : Nat → List (Nat × Event)}
    (separate : system.Separate nodes) {source : Nat} {tracked : Tracked Event}
    (found : system.queues[source]? = some tracked) (noHead : tracked.queue.mHead = none) :
    tracked.queue = .new := by
  have chain := (separate.holds source tracked found).chain
  have noLast := chain.last_eq_none_iff.mpr (chain.head_eq_none_iff.mp noHead)
  rcases queue : tracked.queue with ⟨mHead, mLastNode⟩
  rw [queue] at noHead noLast
  obtain rfl : mHead = none := noHead
  obtain rfl : mLastNode = none := noLast
  rfl

/-- A push appends a node to the chain of its queue and touches no cell outside that chain. -/
theorem Separate.push {system : EventQueues Event} {nodes : Nat → List (Nat × Event)}
    (separate : system.Separate nodes) {index : Nat} (inside : index < system.queues.length)
    {address : Nat} (free : system.heap address = none) (event : Event) :
    ∃ next, system.step (.push index event address) = some next ∧
      next.Separate (Function.update nodes index (nodes index ++ [(address, event)])) ∧
      next.queues.length = system.queues.length ∧
      ∀ other, other ≠ address → other ∉ addresses (nodes index) →
        next.heap other = system.heap other := by
  have found := List.getElem?_eq_getElem inside
  obtain ⟨chain, history⟩ := separate.holds index _ found
  obtain ⟨queue, heap, pushed, grown, frame⟩ := CEventQueue.push_spec chain free event
  refine ⟨_, by rw [EventQueues.step, found, Option.bind_some, pushed]; rfl,
    separate.update inside _ ⟨grown, ?_⟩ ?_ ?_, List.length_set, frame⟩
  · rw [history, List.map_append, List.append_assoc]
    rfl
  · intro other outside used
    refine frame other ?_ outside
    rintro rfl
    exact used free
  · intro other member
    rw [addresses_append] at member
    rcases List.mem_append.mp member with old | new
    · exact Or.inl old
    · exact Or.inr (List.mem_singleton.mp new ▸ free)

/-- A pop takes the first node off the chain of its queue, if there is one, and touches no cell but
those that stay on that chain. -/
theorem Separate.pop {system : EventQueues Event} {nodes : Nat → List (Nat × Event)}
    (separate : system.Separate nodes) {index : Nat} (inside : index < system.queues.length) :
    ∃ next, system.step (.pop index) = some next ∧
      next.Separate (Function.update nodes index (nodes index).tail) ∧
      next.queues.length = system.queues.length ∧
      ∀ other ∉ addresses (nodes index).tail, next.heap other = system.heap other := by
  have found := List.getElem?_eq_getElem inside
  obtain ⟨chain, history⟩ := separate.holds index _ found
  rcases here : nodes index with _ | ⟨⟨address, event⟩, rest⟩
  · rw [here] at chain history
    have stepped : system.step (.pop index) = some
        { heap := system.heap
          queues := system.queues.set index
            { system.queues[index] with popped := system.queues[index].popped ++ [] } } := by
      rw [EventQueues.step, found, Option.bind_some, CEventQueue.pop_of_nil chain]
      rfl
    refine ⟨_, stepped, separate.update inside [] ⟨chain, ?_⟩ (fun _ _ _ => rfl)
      (fun _ member => (List.not_mem_nil member).elim), List.length_set, fun _ _ => rfl⟩
    rw [history, List.append_nil]
  · rw [here] at chain history
    obtain ⟨queue, heap, popped, shrunk, frame⟩ := CEventQueue.pop_of_cons chain
    refine ⟨_, by rw [EventQueues.step, found, Option.bind_some, popped]; rfl,
      separate.update inside rest ⟨shrunk, ?_⟩ ?_ ?_, List.length_set, frame⟩
    · rw [history]
      exact (List.append_assoc _ [event] (rest.map Prod.snd)).symm
    · rw [here]
      exact fun other outside _ => frame other fun member => outside (List.mem_cons_of_mem _ member)
    · rw [here]
      exact fun other member => Or.inl (List.mem_cons_of_mem _ member)

/-- The queues that a call adds: one for a construction or a copy, one for each level of a
`GetPrioQue`. -/
def added (system : EventQueues Event) : QueueCall Event → List (Tracked Event)
  | .construct => [.fresh .new]
  | .getPrioQue prioLevel => ((CEventQueue.getPrioQue prioLevel).getD []).map .fresh
  | .copy source => (system.queues[source]?.map fun tracked => .fresh tracked.queue).toList
  | .push _ _ _ | .pop _ => []

/-- The queues that an allowed call adds are empty. -/
theorem Separate.added_eq_fresh {system : EventQueues Event} {nodes : Nat → List (Nat × Event)}
    (separate : system.Separate nodes) {call : QueueCall Event} (allowed : system.Allowed call) :
    ∀ tracked ∈ system.added call, tracked = .fresh .new := by
  intro tracked member
  cases call with
  | construct => exact List.mem_singleton.mp member
  | getPrioQue prioLevel =>
    obtain ⟨queue, inside, rfl⟩ := List.mem_map.mp member
    unfold CEventQueue.getPrioQue at inside
    split at inside
    · exact (List.not_mem_nil inside).elim
    · rw [List.eq_of_mem_replicate inside]
  | copy source =>
    obtain ⟨other, found, noHead⟩ := allowed
    rw [added, found, Option.map_some, Option.toList_some] at member
    rw [List.mem_singleton.mp member, separate.eq_new found noHead]
  | push index event address => exact (List.not_mem_nil member).elim
  | pop index => exact (List.not_mem_nil member).elim

/-- Every allowed call is defined and keeps the queues separate. -/
theorem Separate.step {system : EventQueues Event} {nodes : Nat → List (Nat × Event)}
    (separate : system.Separate nodes) (call : QueueCall Event) (allowed : system.Allowed call) :
    ∃ next after, system.step call = some next ∧ next.Separate after := by
  have extended := separate.extend (separate.added_eq_fresh allowed)
  cases call with
  | construct => exact ⟨_, _, rfl, extended⟩
  | getPrioQue prioLevel => exact ⟨_, _, rfl, extended⟩
  | copy source =>
    obtain ⟨tracked, found, -⟩ := allowed
    rw [added, found] at extended
    exact ⟨_, _, congrArg (Option.map _) found, extended⟩
  | push index event address =>
    obtain ⟨next, stepped, kept, -⟩ := separate.push allowed.1 allowed.2 event
    exact ⟨next, _, stepped, kept⟩
  | pop index =>
    obtain ⟨next, stepped, kept, -⟩ := separate.pop allowed
    exact ⟨next, _, stepped, kept⟩

/-- The queues of a program are independent first-in first-out queues. In every run, the run is
defined, and every queue has a chain of nodes of its own: from `m_head`, following `next` visits
these nodes once each and ends behind `m_last_node`, `prev` is the inverse of `next` and null at
the head, both pointers are null exactly when everything pushed has been popped, and no node is
on the chain of another queue. The pops have returned the events pushed, in order, as far as the
chain no longer holds them, and the next pop returns the next of them, or `NULL` when there is
none. -/
theorem queues_are_fifo (calls : List (QueueCall Event))
    (allowed : PartialRun.Each step Allowed empty calls) :
    ∃ (system : EventQueues Event) (nodes : Nat → List (Nat × Event)),
      PartialRun.run step empty calls = some system ∧
      (∀ (index : Nat) tracked, system.queues[index]? = some tracked →
        Chain system.heap tracked.queue.mHead tracked.queue.mLastNode (nodes index) ∧
        (∀ steps, walk system.heap steps tracked.queue.mHead =
          (addresses (nodes index))[steps]?) ∧
        (∀ address ∈ addresses (nodes index), ∀ other ∈ addresses (nodes index),
          (system.heap address).bind Cell.next = some other ↔
            (system.heap other).bind Cell.prev = some address) ∧
        (tracked.queue.mHead = none ↔ tracked.popped = tracked.pushed) ∧
        (tracked.queue.mLastNode = none ↔ tracked.popped = tracked.pushed) ∧
        tracked.pushed = tracked.popped ++ (nodes index).map Prod.snd ∧
        ∃ queue heap, tracked.queue.pop system.heap =
          some (tracked.pushed[tracked.popped.length]?, queue, heap)) ∧
      ∀ first second, first ≠ second → first < system.queues.length →
        second < system.queues.length →
          (addresses (nodes first)).Disjoint (addresses (nodes second)) := by
  obtain ⟨system, reached, nodes, separate⟩ := PartialRun.run_defined
    (fun system => ∃ nodes, system.Separate nodes)
    (fun system call ⟨_, separate⟩ allowed => by
      obtain ⟨next, after, stepped, kept⟩ := separate.step call allowed
      exact ⟨next, stepped, after, kept⟩) ⟨_, empty_separate⟩ allowed
  refine ⟨system, nodes, reached, fun index tracked found => ?_, separate.apart⟩
  have holds := separate.holds index tracked found
  exact ⟨holds.chain, holds.chain.walk_eq,
    fun address member other memberOther => holds.chain.next_iff_prev member memberOther,
    holds.chain.head_eq_none_iff.trans holds.nodes_eq_nil_iff,
    holds.chain.last_eq_none_iff.trans holds.nodes_eq_nil_iff, holds.history, holds.pop⟩

/-- The law of the queues, run on two of them: three pushes that take turns, and a pop of the first
event. -/
theorem queues_are_fifo_two_queues :
    ∃ system, PartialRun.run step (empty : EventQueues Nat)
        [.getPrioQue 1, .push 0 7 100, .push 1 8 101, .push 0 9 102, .pop 0] = some system ∧
      ∀ (index : Nat) tracked, system.queues[index]? = some tracked →
        ∃ queue heap, tracked.queue.pop system.heap =
          some (tracked.pushed[tracked.popped.length]?, queue, heap) := by
  have allowed : PartialRun.Each step Allowed (empty : EventQueues Nat)
      [.getPrioQue 1, .push 0 7 100, .push 1 8 101, .push 0 9 102, .pop 0] := by
    refine (PartialRun.each_cons_of_step rfl).mpr ⟨trivial,
      (PartialRun.each_cons_of_step rfl).mpr ⟨⟨by decide, rfl⟩,
        (PartialRun.each_cons_of_step rfl).mpr ⟨⟨by decide, rfl⟩,
          (PartialRun.each_cons_of_step rfl).mpr ⟨⟨by decide, rfl⟩,
            PartialRun.each_singleton.mpr ?_⟩⟩⟩⟩
    show 0 < 2
    decide
  obtain ⟨system, nodes, reached, laws, -⟩ := queues_are_fifo _ allowed
  exact ⟨system, reached, fun index tracked found => (laws index tracked found).2.2.2.2.2.2⟩

end EventQueues

end SelftestNet
