/-
This file proves what the destructors of the queues release. `~CEventQueue` destroys the
event of every node that is still on its queue and deletes the node. `pop` does neither, so
the node that it takes off stays behind for good; and an event is destroyed once for every
time that it is still queued. A run therefore releases every node and every event exactly
once when no pop takes an event and no event is pushed twice, and only then.
-/

import SelftestNet.EventQueue

namespace SelftestNet

open LinkedChain

variable {Event : Type}

/-! ### The destructor -/

/-- What destructors have released: the heap that they leave, the nodes that they have deleted and
the events that they have destroyed, in order. -/
structure Release (Event : Type) where
  heap : Heap Nat Event
  deleted : List Nat
  destroyed : List Event

namespace Release

/-- The heap before the first destructor. -/
def start (heap : Heap Nat Event) : Release Event where
  heap := heap
  deleted := []
  destroyed := []

/-- The body of the loop of `~CEventQueue`: the event of the node at `begin` is destroyed, and the
node deleted. -/
def delete (release : Release Event) (address : Nat) (cell : Cell Nat Event) : Release Event where
  heap := erase release.heap address
  deleted := release.deleted ++ [address]
  destroyed := release.destroyed ++ [cell.data]

/-- The loop of `~CEventQueue` from `begin` on, if it ends within the given number of steps. -/
def destroy : Nat → Release Event → Option Nat → Option (Release Event)
  | 0, _, _ => none
  | _ + 1, release, none => some release
  | fuel + 1, release, some address =>
    (release.heap address).bind fun cell => destroy fuel (release.delete address cell) cell.next

/-- The destructor of a queue deletes the nodes of its path, in order, and touches no other
cell. -/
theorem destroy_of_path {fuel : Nat} {release : Release Event} {pointer : Option Nat}
    {nodes : List (Nat × Event)} (path : Path release.heap pointer nodes)
    (distinct : (addresses nodes).Nodup) (enough : nodes.length < fuel) :
    ∃ after, destroy fuel release pointer = some after ∧
      after.deleted = release.deleted ++ addresses nodes ∧
      after.destroyed = release.destroyed ++ nodes.map Prod.snd ∧
      ∀ address ∉ addresses nodes, after.heap address = release.heap address := by
  induction nodes generalizing fuel release pointer with
  | nil =>
    obtain rfl : pointer = none := path
    obtain ⟨fuel, rfl⟩ := Nat.exists_eq_succ_of_ne_zero (Nat.ne_zero_of_lt enough)
    exact ⟨release, rfl, (List.append_nil _).symm, (List.append_nil _).symm, fun _ _ => rfl⟩
  | cons node rest inductionHypothesis =>
    obtain ⟨fuel, rfl⟩ := Nat.exists_eq_succ_of_ne_zero (Nat.ne_zero_of_lt enough)
    obtain ⟨rfl, cell, found, data, behind⟩ := path
    obtain ⟨outside, distinctRest⟩ := List.nodup_cons.mp distinct
    have kept : Path (release.delete node.1 cell).heap cell.next rest := by
      refine behind.frame fun address member cellAt foundAt => ⟨cellAt, ?_, rfl, rfl⟩
      refine (erase_of_ne _ ?_).trans foundAt
      rintro rfl
      exact outside member
    obtain ⟨after, destroyed, deleted, events, frame⟩ :=
      inductionHypothesis kept distinctRest (Nat.lt_of_succ_lt_succ enough)
    refine ⟨after, ?_, ?_, ?_, fun address away => ?_⟩
    · rw [destroy, found, Option.bind_some, destroyed]
    · rw [deleted, delete, List.append_assoc]
      rfl
    · rw [events, delete, List.append_assoc, List.map_cons, ← data]
      rfl
    · obtain ⟨notFirst, notLater⟩ := not_or.mp (mt List.mem_cons.mpr away)
      rw [frame address notLater]
      exact erase_of_ne _ notFirst

end Release

namespace EventQueues

/-- The destructor of one of the queues. -/
def destruct (system : EventQueues Event) (fuel : Nat) (release : Release Event) (index : Nat) :
    Option (Release Event) :=
  system.queues[index]?.bind fun tracked => release.destroy fuel tracked.queue.mHead

/-- The destructors of some queues delete the nodes of their chains and touch no other cell. -/
theorem Separate.destruct {system : EventQueues Event} {nodes : Nat → List (Nat × Event)}
    (separate : system.Separate nodes) {order : List Nat} (once : order.Nodup)
    (inside : ∀ index ∈ order, index < system.queues.length) {fuel : Nat}
    (enough : ∀ index ∈ order, (nodes index).length < fuel) (release : Release Event)
    (intact : ∀ index ∈ order, ∀ address ∈ addresses (nodes index),
      release.heap address = system.heap address) :
    ∃ after, PartialRun.run (system.destruct fuel) release order = some after ∧
      after.deleted = release.deleted ++ addresses (order.flatMap nodes) ∧
      after.destroyed = release.destroyed ++ (order.flatMap nodes).map Prod.snd ∧
      ∀ address ∉ addresses (order.flatMap nodes),
        after.heap address = release.heap address := by
  induction order generalizing release with
  | nil => exact ⟨release, rfl, (List.append_nil _).symm, (List.append_nil _).symm, fun _ _ => rfl⟩
  | cons index rest inductionHypothesis =>
    obtain ⟨notLater, onceRest⟩ := List.nodup_cons.mp once
    have here := inside index List.mem_cons_self
    have found := List.getElem?_eq_getElem here
    have chain := (separate.holds index _ found).chain
    obtain ⟨between, destroyed, deleted, events, frame⟩ := Release.destroy_of_path
      (chain.frame (intact index List.mem_cons_self)).path chain.distinct
      (enough index List.mem_cons_self)
    obtain ⟨after, reached, deletedLater, eventsLater, frameLater⟩ := inductionHypothesis onceRest
      (fun other member => inside other (List.mem_cons_of_mem _ member))
      (fun other member => enough other (List.mem_cons_of_mem _ member)) between
      (fun other member address onChain => by
        have different : index ≠ other := fun same => notLater (same ▸ member)
        have away := separate.apart index other different here
          (inside other (List.mem_cons_of_mem _ member))
        rw [frame address fun alsoHere => away alsoHere onChain]
        exact intact other (List.mem_cons_of_mem _ member) address onChain)
    refine ⟨after, ?_, ?_, ?_, fun address outside => ?_⟩
    · rw [PartialRun.run_cons, EventQueues.destruct, found, Option.bind_some, destroyed,
        Option.bind_some, reached]
    · rw [deletedLater, deleted, List.flatMap_cons, addresses_append, List.append_assoc]
    · rw [eventsLater, events, List.flatMap_cons, List.map_append, List.append_assoc]
    · rw [List.flatMap_cons, addresses_append, List.mem_append, not_or] at outside
      rw [frameLater address outside.2, frame address outside.1]

/-- No address stands on the chains of some queues twice. -/
theorem Separate.nodup_flatMap {system : EventQueues Event} {nodes : Nat → List (Nat × Event)}
    (separate : system.Separate nodes) {order : List Nat} (once : order.Nodup)
    (inside : ∀ index ∈ order, index < system.queues.length) :
    (addresses (order.flatMap nodes)).Nodup := by
  rw [addresses, List.map_flatMap, List.nodup_flatMap]
  refine ⟨fun index member => ?_, once.imp_of_mem fun first second different => ?_⟩
  · exact (separate.holds index _ (List.getElem?_eq_getElem (inside index member))).chain.distinct
  · exact separate.apart _ _ different (inside _ first) (inside _ second)

/-- The addresses of a chain that has been replaced are allocated. -/
theorem Separate.allocated_update {system : EventQueues Event} {nodes : Nat → List (Nat × Event)}
    {index : Nat} {row : List (Nat × Event)}
    (separate : system.Separate (Function.update nodes index row))
    (inside : index < system.queues.length) {address : Nat} (member : address ∈ addresses row) :
    system.heap address ≠ none := by
  refine separate.allocated inside ?_
  rwa [Function.update_self]

/-- The address of the first node of a queue is neither behind it on the chain nor on another
chain. -/
theorem Separate.front_alone {system : EventQueues Event} {nodes : Nat → List (Nat × Event)}
    (separate : system.Separate nodes) {index : Nat} (inside : index < system.queues.length)
    {node : Nat × Event} (first : node ∈ (nodes index).head?.toList) :
    node.1 ∉ addresses (nodes index).tail ∧
      ∀ other ≠ index, other < system.queues.length → node.1 ∉ addresses (nodes other) := by
  have distinct := (separate.holds index _ (List.getElem?_eq_getElem inside)).chain.distinct
  have onChain : node ∈ nodes index := List.mem_of_mem_head? (Option.mem_toList.mp first)
  refine ⟨?_, fun other atOther insideOther elsewhere => ?_⟩
  · rcases here : nodes index with _ | ⟨front, rest⟩
    · exact List.not_mem_nil
    · rw [here] at first distinct
      rw [List.mem_singleton.mp first]
      exact (List.nodup_cons.mp distinct).1
  · exact separate.apart other index atOther insideOther inside elsewhere
      (List.mem_map_of_mem onChain)

end EventQueues

/-! ### What a run creates and takes -/

/-- The node that a push creates, with its event. -/
def QueueCall.created : QueueCall Event → List (Nat × Event)
  | push _ event address => [(address, event)]
  | construct | getPrioQue _ | copy _ | pop _ => []

/-- The queues of a program with the history of their nodes: those that pushes have created, and
those that pops have taken off their queues. -/
structure QueueLedger (Event : Type) where
  system : EventQueues Event
  created : List (Nat × Event)
  taken : List (Nat × Event)

namespace QueueLedger

/-- A program before its first queue. -/
def empty : QueueLedger Event where
  system := .empty
  created := []
  taken := []

/-- The node at the head of the queue that the call pops. -/
def front (ledger : QueueLedger Event) : QueueCall Event → List (Nat × Event)
  | .pop index =>
    ((ledger.system.queues[index]?.bind fun tracked => tracked.queue.mHead).bind fun address =>
      (ledger.system.heap address).map fun cell => (address, cell.data)).toList
  | .construct | .getPrioQue _ | .copy _ | .push _ _ _ => []

/-- One call, recorded in the history. -/
def step (ledger : QueueLedger Event) (call : QueueCall Event) : Option (QueueLedger Event) :=
  (ledger.system.step call).map fun system =>
    { system
      created := ledger.created ++ call.created
      taken := ledger.taken ++ ledger.front call }

/-- Every node created is on the chain of one queue, unless a pop has taken it, and stays
allocated. -/
structure Accounts (ledger : QueueLedger Event) (nodes : Nat → List (Nat × Event)) : Prop where
  separate : ledger.system.Separate nodes
  distinct : (addresses ledger.created).Nodup
  allocated : ∀ address ∈ addresses ledger.created, ledger.system.heap address ≠ none
  somewhere : ∀ node, node ∈ ledger.created ↔ node ∈ ledger.taken ∨
    ∃ index < ledger.system.queues.length, node ∈ nodes index
  gone : ∀ node ∈ ledger.taken, ∀ index < ledger.system.queues.length,
    node.1 ∉ addresses (nodes index)

theorem empty_accounts : Accounts (empty : QueueLedger Event) fun _ => [] where
  separate := EventQueues.empty_separate
  distinct := List.nodup_nil
  allocated := fun _ member => (List.not_mem_nil member).elim
  somewhere := fun _ => iff_of_false List.not_mem_nil (by simp [empty, EventQueues.empty])
  gone := fun _ member => (List.not_mem_nil member).elim

/-- Adding empty queues changes no account. -/
theorem Accounts.extend {ledger : QueueLedger Event} {nodes : Nat → List (Nat × Event)}
    (accounts : ledger.Accounts nodes) {added : List (Tracked Event)}
    (fresh : ∀ tracked ∈ added, tracked = .fresh .new) :
    Accounts
      { ledger with system := { ledger.system with queues := ledger.system.queues ++ added } }
      fun index => if index < ledger.system.queues.length then nodes index else [] := by
  have grown : ledger.system.queues.length ≤ (ledger.system.queues ++ added).length := by
    rw [List.length_append]
    exact Nat.le_add_right _ _
  refine ⟨accounts.separate.extend fresh, accounts.distinct, accounts.allocated, fun node => ?_,
    fun node member index _ => ?_⟩
  · rw [accounts.somewhere]
    refine or_congr_right ⟨?_, ?_⟩
    · rintro ⟨index, inside, here⟩
      exact ⟨index, Nat.lt_of_lt_of_le inside grown, by rwa [if_pos inside]⟩
    · rintro ⟨index, -, here⟩
      split at here
      · exact ⟨index, ‹_›, here⟩
      · exact (List.not_mem_nil here).elim
  · split
    · exact accounts.gone node member index ‹_›
    · exact List.not_mem_nil

/-- When the nodes of one of the queues are replaced, a property holds of the nodes of some queue
exactly when it holds of the new ones or of those of another queue. -/
theorem exists_update_iff {Row : Type} (rows : Nat → Row) {index count : Nat}
    (inside : index < count) (row : Row) (holds : Row → Prop) :
    (∃ other < count, holds (Function.update rows index row other)) ↔
      holds row ∨ ∃ other ≠ index, other < count ∧ holds (rows other) :=
  (Function.exists_update_iff rows fun other row => other < count ∧ holds row).trans
    (or_congr_left (and_iff_right inside))

theorem exists_iff_update {Row : Type} (rows : Nat → Row) {index count : Nat}
    (inside : index < count) (holds : Row → Prop) :
    (∃ other < count, holds (rows other)) ↔
      holds (rows index) ∨ ∃ other ≠ index, other < count ∧ holds (rows other) := by
  have split := exists_update_iff rows inside (rows index) holds
  rwa [Function.update_eq_self] at split

/-- It holds of the nodes of all queues exactly when it holds of the new ones and of those of every
other queue. -/
theorem forall_update_iff {Row : Type} (rows : Nat → Row) {index count : Nat}
    (inside : index < count) (row : Row) (holds : Row → Prop) :
    (∀ other < count, holds (Function.update rows index row other)) ↔
      holds row ∧ ∀ other ≠ index, other < count → holds (rows other) :=
  (Function.forall_update_iff rows fun other row => other < count → holds row).trans
    (and_congr_left fun _ => imp_iff_right inside)

/-- A push puts its node on the chain of its queue. -/
theorem Accounts.push {ledger : QueueLedger Event} {nodes : Nat → List (Nat × Event)}
    (accounts : ledger.Accounts nodes) {index : Nat}
    (inside : index < ledger.system.queues.length) {address : Nat}
    (free : ledger.system.heap address = none) (event : Event) :
    ∃ next after, ledger.step (.push index event address) = some next ∧ next.Accounts after := by
  obtain ⟨system, stepped, kept, same, frame⟩ := accounts.separate.push inside free event
  have new : address ∉ addresses ledger.created := fun member =>
    accounts.allocated address member free
  have insideNext : index < system.queues.length := same.symm ▸ inside
  refine ⟨_, _, congrArg (Option.map _) stepped, kept, ?_, ?_, fun node => ?_, ?_⟩
  · show (addresses (ledger.created ++ [(address, event)])).Nodup
    rw [addresses_append]
    exact accounts.distinct.append (List.nodup_singleton _) (List.disjoint_singleton.mpr new)
  · show ∀ other ∈ addresses (ledger.created ++ [(address, event)]), system.heap other ≠ none
    intro other member
    by_cases here : other ∈ addresses (nodes index ++ [(address, event)])
    · exact kept.allocated_update insideNext here
    · rw [addresses_append, List.mem_append, not_or] at here
      rw [addresses_append] at member
      rcases List.mem_append.mp member with old | added
      · rw [frame other (fun same => new (same ▸ old)) here.1]
        exact accounts.allocated other old
      · exact absurd added here.2
  · show node ∈ ledger.created ++ [(address, event)] ↔ node ∈ ledger.taken ++ [] ∨
      ∃ other < system.queues.length,
        node ∈ Function.update nodes index (nodes index ++ [(address, event)]) other
    rw [List.mem_append, List.append_nil, accounts.somewhere, or_assoc, same,
      exists_update_iff nodes inside _ (node ∈ ·), exists_iff_update nodes inside (node ∈ ·),
      List.mem_append, or_right_comm]
  · show ∀ node ∈ ledger.taken ++ [], ∀ other < system.queues.length,
      node.1 ∉ addresses (Function.update nodes index (nodes index ++ [(address, event)]) other)
    rw [List.append_nil, same]
    intro node member
    have created := (accounts.somewhere node).mpr (Or.inl member)
    refine (forall_update_iff nodes inside _ (node.1 ∉ addresses ·)).mpr ⟨?_, ?_⟩
    · rw [addresses_append, List.mem_append, not_or]
      refine ⟨accounts.gone node member index inside, fun added => new ?_⟩
      have atAddress : node.1 = address := List.mem_singleton.mp added
      exact atAddress ▸ List.mem_map_of_mem created
    · exact fun other _ insideOther => accounts.gone node member other insideOther

/-- The node that a pop takes is the first one of its queue. -/
theorem Accounts.front_pop {ledger : QueueLedger Event} {nodes : Nat → List (Nat × Event)}
    (accounts : ledger.Accounts nodes) {index : Nat}
    (inside : index < ledger.system.queues.length) :
    ledger.front (.pop index) = (nodes index).head?.toList := by
  have found := List.getElem?_eq_getElem inside
  have path := (accounts.separate.holds index _ found).chain.path
  rw [front, found, Option.bind_some]
  rcases here : nodes index with _ | ⟨⟨address, event⟩, rest⟩
  · rw [here] at path
    have noHead : ledger.system.queues[index].queue.mHead = none := path
    rw [noHead]
    rfl
  · rw [here] at path
    obtain ⟨starts, cell, loaded, data, -⟩ := path
    rw [starts, Option.bind_some, loaded, ← data]
    rfl

/-- A pop takes the first node of its queue off the chain. -/
theorem Accounts.pop {ledger : QueueLedger Event} {nodes : Nat → List (Nat × Event)}
    (accounts : ledger.Accounts nodes) {index : Nat}
    (inside : index < ledger.system.queues.length) :
    ∃ next after, ledger.step (.pop index) = some next ∧ next.Accounts after := by
  obtain ⟨system, stepped, kept, same, frame⟩ := accounts.separate.pop inside
  have here : nodes index = (nodes index).head?.toList ++ (nodes index).tail := by
    cases nodes index <;> rfl
  have insideNext : index < system.queues.length := same.symm ▸ inside
  refine ⟨_, _, congrArg (Option.map _) stepped, kept, ?_, ?_, fun node => ?_, ?_⟩
  · show (addresses (ledger.created ++ [])).Nodup
    rw [List.append_nil]
    exact accounts.distinct
  · show ∀ other ∈ addresses (ledger.created ++ []), system.heap other ≠ none
    rw [List.append_nil]
    intro other member
    by_cases onChain : other ∈ addresses (nodes index).tail
    · exact kept.allocated_update insideNext onChain
    · rw [frame other onChain]
      exact accounts.allocated other member
  · show node ∈ ledger.created ++ [] ↔ node ∈ ledger.taken ++ ledger.front (.pop index) ∨
      ∃ other < system.queues.length, node ∈ Function.update nodes index (nodes index).tail other
    have whole : node ∈ nodes index ↔
        node ∈ (nodes index).head?.toList ∨ node ∈ (nodes index).tail := by
      rw [← List.mem_append, ← here]
    rw [List.append_nil, accounts.somewhere, accounts.front_pop inside, List.mem_append, or_assoc,
      same, exists_update_iff nodes inside _ (node ∈ ·), exists_iff_update nodes inside (node ∈ ·),
      whole, or_assoc]
  · show ∀ node ∈ ledger.taken ++ ledger.front (.pop index), ∀ other < system.queues.length,
      node.1 ∉ addresses (Function.update nodes index (nodes index).tail other)
    rw [accounts.front_pop inside, same]
    intro node member
    refine (forall_update_iff nodes inside _ (node.1 ∉ addresses ·)).mpr ?_
    rcases List.mem_append.mp member with old | first
    · refine ⟨fun later => accounts.gone node old index inside ?_,
        fun other _ insideOther => accounts.gone node old other insideOther⟩
      rw [here, addresses_append]
      exact List.mem_append_right _ later
    · exact accounts.separate.front_alone inside first

/-- Every allowed call is defined and keeps the accounts. -/
theorem Accounts.step {ledger : QueueLedger Event} {nodes : Nat → List (Nat × Event)}
    (accounts : ledger.Accounts nodes) (call : QueueCall Event)
    (allowed : ledger.system.Allowed call) :
    ∃ next after, ledger.step call = some next ∧ next.Accounts after := by
  have extended := accounts.extend (accounts.separate.added_eq_fresh allowed)
  rw [← ledger.created.append_nil, ← ledger.taken.append_nil] at extended
  cases call with
  | construct => exact ⟨_, _, rfl, extended⟩
  | getPrioQue prioLevel => exact ⟨_, _, rfl, extended⟩
  | copy source =>
    obtain ⟨tracked, found, -⟩ := allowed
    rw [EventQueues.added, found] at extended
    refine ⟨_, _, ?_, extended⟩
    rw [QueueLedger.step, EventQueues.step, found]
    rfl
  | push index event address => exact accounts.push allowed.1 allowed.2 event
  | pop index => exact accounts.pop allowed

/-- The call is no pop that finds a node. -/
def TakesNothing (ledger : QueueLedger Event) : QueueCall Event → Prop
  | .pop index => ∀ tracked, ledger.system.queues[index]? = some tracked →
    tracked.queue.mHead = none
  | .construct | .getPrioQue _ | .copy _ | .push _ _ _ => True

theorem Accounts.front_eq_nil_iff {ledger : QueueLedger Event} {nodes : Nat → List (Nat × Event)}
    (accounts : ledger.Accounts nodes) {call : QueueCall Event}
    (allowed : ledger.system.Allowed call) :
    ledger.front call = [] ↔ ledger.TakesNothing call := by
  cases call with
  | pop index =>
    have found := List.getElem?_eq_getElem (allowed : index < ledger.system.queues.length)
    have chain := (accounts.separate.holds index _ found).chain
    have empty : (nodes index).head?.toList = [] ↔ nodes index = [] := by
      cases nodes index <;> simp
    rw [accounts.front_pop allowed, empty, ← chain.head_eq_none_iff, TakesNothing, found]
    simp only [Option.some.injEq, forall_eq']
  | construct | getPrioQue _ | copy _ | push _ _ _ => exact iff_of_true rfl trivial

/-- What a run has created are the nodes of its pushes, and it has taken none exactly when none of
its calls has. -/
theorem run_history {ledger final : QueueLedger Event} {calls : List (QueueCall Event)}
    (reached : PartialRun.run step ledger calls = some final) :
    final.created = ledger.created ++ calls.flatMap QueueCall.created ∧
      (final.taken = [] ↔ ledger.taken = [] ∧
        PartialRun.Each step (fun ledger call => ledger.front call = []) ledger calls) := by
  induction calls generalizing ledger with
  | nil =>
    obtain rfl := Option.some.inj reached
    exact ⟨(List.append_nil _).symm, (and_iff_left trivial).symm⟩
  | cons call rest inductionHypothesis =>
    rw [PartialRun.run_cons, Option.bind_eq_some_iff] at reached
    obtain ⟨next, stepped, remaining⟩ := reached
    obtain ⟨created, taken⟩ := inductionHypothesis remaining
    rw [PartialRun.Each, stepped]
    obtain ⟨system, -, rfl⟩ := Option.map_eq_some_iff.mp stepped
    refine ⟨?_, ?_⟩
    · rw [created, List.flatMap_cons, List.append_assoc]
    · rw [taken, List.append_eq_nil_iff, and_assoc]
      simp only [Option.some.injEq, forall_eq']

/-- Every run of allowed calls is defined and has its accounts. -/
theorem run_accounts {calls : List (QueueCall Event)}
    (allowed : PartialRun.Each step (fun ledger call => ledger.system.Allowed call) empty calls) :
    ∃ ledger, PartialRun.run step empty calls = some ledger ∧ ∃ nodes, ledger.Accounts nodes :=
  PartialRun.run_defined (fun ledger => ∃ nodes, ledger.Accounts nodes)
    (fun ledger call ⟨_, accounts⟩ allowed => by
      obtain ⟨next, after, stepped, kept⟩ := accounts.step call allowed
      exact ⟨next, stepped, after, kept⟩) ⟨_, empty_accounts⟩ allowed

/-- A run has taken no node exactly when each of its pops found an empty queue. -/
theorem taken_eq_nil_iff {calls : List (QueueCall Event)} {ledger : QueueLedger Event}
    (allowed : PartialRun.Each step (fun ledger call => ledger.system.Allowed call) empty calls)
    (reached : PartialRun.run step empty calls = some ledger) :
    ledger.taken = [] ↔ PartialRun.Each step TakesNothing empty calls := by
  rw [(run_history reached).2,
    and_iff_right (show (empty : QueueLedger Event).taken = [] from rfl)]
  refine PartialRun.each_congr_of_each (fun ledger => ∃ nodes, ledger.Accounts nodes)
    (fun ledger call next ⟨_, accounts⟩ allowed _ stepped => ?_)
    (fun ledger call ⟨_, accounts⟩ allowed => accounts.front_eq_nil_iff allowed)
    ⟨_, empty_accounts⟩ allowed
  obtain ⟨other, after, steppedOther, kept⟩ := accounts.step call allowed
  obtain rfl := Option.some.inj (steppedOther.symm.trans stepped)
  exact ⟨after, kept⟩

/-! ### What the destructors release -/

theorem length_created_le (calls : List (QueueCall Event)) :
    (calls.flatMap QueueCall.created).length ≤ calls.length := by
  induction calls with
  | nil => exact Nat.le_refl _
  | cons call rest inductionHypothesis =>
    have one : call.created.length ≤ 1 := by
      cases call with
      | push index event address => exact Nat.le_refl 1
      | construct | getPrioQue _ | copy _ | pop _ => exact Nat.zero_le 1
    rw [List.flatMap_cons, List.length_append, List.length_cons, Nat.add_comm]
    exact Nat.add_le_add inductionHypothesis one

/-- No queue holds more nodes than were created. -/
theorem Accounts.length_le {ledger : QueueLedger Event} {nodes : Nat → List (Nat × Event)}
    (accounts : ledger.Accounts nodes) {index : Nat}
    (inside : index < ledger.system.queues.length) :
    (nodes index).length ≤ ledger.created.length := by
  have chain := (accounts.separate.holds index _ (List.getElem?_eq_getElem inside)).chain
  refine List.Nodup.length_le_of_subset chain.distinct.of_map fun node member => ?_
  exact (accounts.somewhere node).mpr (Or.inr ⟨index, inside, member⟩)

theorem mem_flatMap_nodes {nodes : Nat → List (Nat × Event)} {order : List Nat} {count : Nat}
    (all : order.Perm (List.range count)) (node : Nat × Event) :
    node ∈ order.flatMap nodes ↔ ∃ index < count, node ∈ nodes index := by
  simp only [List.mem_flatMap, all.mem_iff, List.mem_range]

/-- Every node created is deleted once exactly when no pop has taken one. -/
theorem Accounts.deleted_once_iff {ledger : QueueLedger Event} {nodes : Nat → List (Nat × Event)}
    (accounts : ledger.Accounts nodes) {order : List Nat}
    (all : order.Perm (List.range ledger.system.queues.length)) :
    (∀ node ∈ ledger.created, (addresses (order.flatMap nodes)).count node.1 = 1) ↔
      ledger.taken = [] := by
  have inside : ∀ index ∈ order, index < ledger.system.queues.length := fun index member =>
    List.mem_range.mp (all.mem_iff.mp member)
  have distinct := accounts.separate.nodup_flatMap (all.nodup_iff.mpr List.nodup_range) inside
  constructor
  · intro once
    refine List.eq_nil_iff_forall_not_mem.mpr fun node member => ?_
    have created := (accounts.somewhere node).mpr (Or.inl member)
    have deleted : node.1 ∈ addresses (order.flatMap nodes) :=
      List.count_pos_iff.mp (by rw [once node created]; exact Nat.one_pos)
    rw [addresses, List.map_flatMap] at deleted
    obtain ⟨index, ordered, onChain⟩ := List.mem_flatMap.mp deleted
    exact accounts.gone node member index (inside index ordered) onChain
  · intro nothing node created
    have held := ((accounts.somewhere node).mp created).resolve_left (by
      rw [nothing]
      exact List.not_mem_nil)
    exact List.count_eq_one_of_mem distinct
      (List.mem_map_of_mem ((mem_flatMap_nodes all node).mpr held))

/-- When no pop has taken a node, the events on the queues are the events pushed. -/
theorem Accounts.perm_created {ledger : QueueLedger Event} {nodes : Nat → List (Nat × Event)}
    (accounts : ledger.Accounts nodes) (nothing : ledger.taken = []) {order : List Nat}
    (all : order.Perm (List.range ledger.system.queues.length)) :
    (order.flatMap nodes).Perm ledger.created := by
  have inside : ∀ index ∈ order, index < ledger.system.queues.length := fun index member =>
    List.mem_range.mp (all.mem_iff.mp member)
  have distinct := accounts.separate.nodup_flatMap (all.nodup_iff.mpr List.nodup_range) inside
  refine (List.perm_ext_iff_of_nodup distinct.of_map accounts.distinct.of_map).mpr fun node => ?_
  rw [mem_flatMap_nodes all, accounts.somewhere, nothing, or_iff_right List.not_mem_nil]

/-- Whenever a destructor has run, what `next` still reaches from a queue whose destructor has not
run yet is allocated and not deleted. -/
def Intact (ledger : QueueLedger Event) (fuel : Nat) (order : List Nat) : Prop :=
  ∀ first rest release, order = first ++ rest →
    PartialRun.run (ledger.system.destruct fuel) (.start ledger.system.heap) first =
      some release →
    ∀ index ∈ rest, ∀ tracked, ledger.system.queues[index]? = some tracked →
      ∀ steps address, walk release.heap steps tracked.queue.mHead = some address →
        release.heap address ≠ none ∧ address ∉ release.deleted

theorem Accounts.intact {ledger : QueueLedger Event} {nodes : Nat → List (Nat × Event)}
    (accounts : ledger.Accounts nodes) {order : List Nat} (once : order.Nodup)
    (inside : ∀ index ∈ order, index < ledger.system.queues.length) {fuel : Nat}
    (enough : ledger.created.length < fuel) : ledger.Intact fuel order := by
  rintro first rest release rfl reached index later tracked found steps address reachable
  have insideFirst : ∀ other ∈ first, other < ledger.system.queues.length := fun other member =>
    inside other (List.mem_append_left _ member)
  obtain ⟨after, reachedAfter, deleted, -, frame⟩ := accounts.separate.destruct
    (List.nodup_append'.mp once).1 insideFirst
    (fun other member => Nat.lt_of_le_of_lt (accounts.length_le (insideFirst other member)) enough)
    (.start ledger.system.heap) (fun _ _ _ _ => rfl)
  obtain rfl := Option.some.inj (reachedAfter.symm.trans reached)
  have chain := (accounts.separate.holds index tracked found).chain
  have away : ∀ other ∈ addresses (nodes index), other ∉ addresses (first.flatMap nodes) := by
    intro other here there
    rw [addresses, List.map_flatMap] at there
    obtain ⟨earlier, before, onChain⟩ := List.mem_flatMap.mp there
    have different : index ≠ earlier := fun same =>
      (List.nodup_append'.mp once).2.2 before (same ▸ later)
    exact accounts.separate.apart index earlier different
      (inside index (List.mem_append_right _ later)) (insideFirst earlier before) here onChain
  have kept := chain.frame fun other member => frame other (away other member)
  rw [kept.walk_eq] at reachable
  have onChain := List.mem_of_getElem? reachable
  obtain ⟨cell, allocated⟩ := kept.exists_cell onChain
  refine ⟨?_, ?_⟩
  · rw [allocated]
    exact Option.some_ne_none cell
  · rw [deleted]
    exact away address onChain

/-- Every node is deleted exactly once and none while a queue still reaches it, and no event is
destroyed twice, exactly when every pop of the run finds its queue empty and no event is pushed
twice. The destructors run behind all calls, in any order, and always end. -/
theorem released_once_iff (calls : List (QueueCall Event))
    (allowed : PartialRun.Each step (fun ledger call => ledger.system.Allowed call) empty calls) :
    ∃ ledger, PartialRun.run step empty calls = some ledger ∧
      ∀ (order : List Nat) (fuel : Nat), order.Perm (List.range ledger.system.queues.length) →
        calls.length < fuel →
        ∃ release, PartialRun.run (ledger.system.destruct fuel) (.start ledger.system.heap)
            order = some release ∧
          ((∀ node ∈ calls.flatMap QueueCall.created, release.deleted.count node.1 = 1) ∧
              ledger.Intact fuel order ∧ release.destroyed.Nodup ↔
            PartialRun.Each step TakesNothing empty calls ∧
              ((calls.flatMap QueueCall.created).map Prod.snd).Nodup) := by
  obtain ⟨ledger, reached, nodes, accounts⟩ := run_accounts allowed
  refine ⟨ledger, reached, fun order fuel all enough => ?_⟩
  have created : ledger.created = calls.flatMap QueueCall.created := (run_history reached).1
  have short : ledger.created.length < fuel := by
    rw [created]
    exact Nat.lt_of_le_of_lt (length_created_le calls) enough
  have once : order.Nodup := all.nodup_iff.mpr List.nodup_range
  have inside : ∀ index ∈ order, index < ledger.system.queues.length := fun index member =>
    List.mem_range.mp (all.mem_iff.mp member)
  obtain ⟨release, destructed, deleted, destroyed, -⟩ := accounts.separate.destruct once inside
    (fun other member => Nat.lt_of_le_of_lt (accounts.length_le (inside other member)) short)
    (.start ledger.system.heap) (fun _ _ _ _ => rfl)
  refine ⟨release, destructed, ?_⟩
  rw [← created, deleted, destroyed]
  show (∀ node ∈ ledger.created, (addresses (order.flatMap nodes)).count node.1 = 1) ∧ _ ∧
    ((order.flatMap nodes).map Prod.snd).Nodup ↔ _
  rw [accounts.deleted_once_iff all, and_iff_right (accounts.intact once inside short),
    ← taken_eq_nil_iff allowed reached]
  refine and_congr_right fun nothing => ?_
  exact ((accounts.perm_created nothing all).map Prod.snd).nodup_iff

/-- Two events that nobody takes, on two queues. -/
theorem released_once_untaken :
    ∃ ledger, PartialRun.run step (empty : QueueLedger Nat)
        [.getPrioQue 1, .push 0 7 100, .push 1 8 101] = some ledger ∧
      ∃ release, PartialRun.run (ledger.system.destruct 4) (.start ledger.system.heap) [1, 0] =
          some release ∧ release.destroyed.Nodup := by
  have allowed : PartialRun.Each step (fun ledger call => ledger.system.Allowed call)
      (empty : QueueLedger Nat) [.getPrioQue 1, .push 0 7 100, .push 1 8 101] :=
    (PartialRun.each_cons_of_step rfl).mpr ⟨trivial,
      (PartialRun.each_cons_of_step rfl).mpr ⟨⟨by decide, rfl⟩,
        PartialRun.each_singleton.mpr ⟨by decide, by decide⟩⟩⟩
  obtain ⟨ledger, reached, released⟩ := released_once_iff _ allowed
  have two : ledger.system.queues.length = 2 := by
    have count := congrArg (Option.map fun ledger => ledger.system.queues.length) reached
    exact (Option.some.inj count).symm
  have all : [1, 0].Perm (List.range ledger.system.queues.length) := by
    rw [two]
    decide
  obtain ⟨release, destructed, once⟩ := released [1, 0] 4 all (by decide)
  exact ⟨ledger, reached, release, destructed, (once.mpr ⟨⟨trivial, fun _ _ => ⟨trivial,
    fun _ _ => ⟨trivial, fun _ _ => trivial⟩⟩⟩, by decide⟩).2.2⟩

/-- A popped node is never deleted, and an event pushed twice is destroyed twice. -/
theorem popped_and_repeated :
    (∃ (ledger : QueueLedger Nat) (release : Release Nat),
      PartialRun.run step empty [.construct, .push 0 7 100, .pop 0] = some ledger ∧
      PartialRun.run (ledger.system.destruct 4) (.start ledger.system.heap) [0] = some release ∧
      release.deleted.count 100 = 0) ∧
    ∃ (ledger : QueueLedger Nat) (release : Release Nat),
      PartialRun.run step empty [.construct, .push 0 7 100, .push 0 7 101] = some ledger ∧
      PartialRun.run (ledger.system.destruct 4) (.start ledger.system.heap) [0] = some release ∧
      ¬ release.destroyed.Nodup :=
  ⟨⟨_, _, rfl, rfl, rfl⟩, _, _, rfl, rfl, by decide⟩

end QueueLedger

end SelftestNet
