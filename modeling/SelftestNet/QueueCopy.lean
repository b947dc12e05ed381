/-
This file compares a queue with a copy of it. The implicit copy constructor copies the two
pointers, so a copy of an empty queue is a queue of its own and a copy of any other shares
its nodes. Pops read `next` and never write it, so they cannot tell the two apart; a push
writes the `next` of the last node, which both hold until one of them has popped it. Two
queues that are only pushed to once that has happened are independent, and for each
queue that is not empty there are calls that bring an event pushed to it out of the copy.
-/

import SelftestNet.EventQueue

namespace SelftestNet

open LinkedChain

variable {Event : Type}

namespace CEventQueue

/-! ### Queues that may share nodes -/

/-- Following `next` from `m_head` visits the nodes, and `m_last_node` is the last of them. Nothing
is said of `prev`, which no operation reads. -/
structure Row (heap : Heap Nat Event) (queue : CEventQueue) (nodes : List (Nat × Event)) :
    Prop where
  distinct : (addresses nodes).Nodup
  path : Path heap queue.mHead nodes
  last : queue.mLastNode = (addresses nodes).getLast?

/-- The second heap has the same cells as the first one, up to their `prev`. -/
def SameLinks (heap after : Heap Nat Event) : Prop :=
  ∀ address, (after address).map (fun cell => (cell.next, cell.data)) =
    (heap address).map fun cell => (cell.next, cell.data)

theorem SameLinks.exists_cell {heap after : Heap Nat Event} (same : SameLinks heap after)
    {address : Nat} {cell : Cell Nat Event} (found : heap address = some cell) :
    ∃ later, after address = some later ∧ later.next = cell.next ∧ later.data = cell.data := by
  have links := same address
  rw [found, Option.map_some, Option.map_eq_some_iff] at links
  obtain ⟨later, foundLater, equal⟩ := links
  exact ⟨later, foundLater, congrArg Prod.fst equal, congrArg Prod.snd equal⟩

theorem SameLinks.path {heap after : Heap Nat Event} (same : SameLinks heap after)
    {pointer : Option Nat} {nodes : List (Nat × Event)} (path : Path heap pointer nodes) :
    Path after pointer nodes :=
  path.frame fun _ _ _ found => same.exists_cell found

theorem row_of_chain {heap : Heap Nat Event} {queue : CEventQueue} {nodes : List (Nat × Event)}
    (chain : Chain heap queue.mHead queue.mLastNode nodes) : Row heap queue nodes where
  distinct := chain.distinct
  path := chain.path
  last := by
    rw [chain.last, List.getLast?_eq_getElem?, length_addresses]
    cases nodes <;> rfl

/-- A change of the heap that misses the nodes of a queue, or only their `prev`, keeps its row. -/
theorem Row.frame {heap after : Heap Nat Event} {queue : CEventQueue}
    {nodes : List (Nat × Event)} (row : Row heap queue nodes)
    (same : ∀ address ∈ addresses nodes, after address = heap address) :
    Row after queue nodes where
  distinct := row.distinct
  path := row.path.frame fun address member cell found =>
    ⟨cell, (same address member).trans found, rfl, rfl⟩
  last := row.last

/-- Pushing appends a node to the row of the queue and touches no other cell. -/
theorem Row.push {heap : Heap Nat Event} {queue : CEventQueue} {nodes : List (Nat × Event)}
    (row : Row heap queue nodes) {address : Nat} (free : heap address = none) (event : Event) :
    ∃ next after, queue.push heap address event = some (next, after) ∧
      Row after next (nodes ++ [(address, event)]) ∧
      ∀ other, other ≠ address → other ∉ addresses nodes → after other = heap other := by
  have new : address ∉ addresses nodes := by
    intro member
    obtain ⟨cell, found⟩ := row.path.exists_cell member
    cases found.symm.trans free
  have distinct : (addresses (nodes ++ [(address, event)])).Nodup := by
    rw [addresses_append]
    exact row.distinct.append (List.nodup_singleton _) (List.disjoint_singleton.mpr new)
  have last : some address = (addresses (nodes ++ [(address, event)])).getLast? := by
    rw [addresses_append]
    exact List.getLast?_concat.symm
  by_cases empty : nodes = []
  · subst empty
    have noHead : queue.mHead = none := row.path
    refine ⟨⟨some address, some address⟩, put heap address ⟨none, none, event⟩, ?_,
      ⟨distinct, ⟨rfl, _, put_self heap address _, rfl, rfl⟩, last⟩,
      fun other away _ => put_of_ne heap away _⟩
    rw [CEventQueue.push, createNewNode_of_free free, Option.bind_some, if_pos noHead]
  · obtain ⟨final, atEnd⟩ : ∃ final, (addresses nodes).getLast? = some final := by
      refine Option.ne_none_iff_exists'.mp ?_
      rw [Ne, List.getLast?_eq_none_iff, addresses, List.map_eq_nil_iff]
      exact empty
    have someHead : queue.mHead ≠ none := by
      rw [row.path.head_eq, Ne, List.getElem?_eq_none_iff, length_addresses, Nat.le_zero,
        List.length_eq_zero_iff]
      exact empty
    have member := List.mem_of_getLast? atEnd
    obtain ⟨cell, found⟩ := row.path.exists_cell member
    have different := ne_of_free found free
    refine ⟨_, _, push_of_some someHead (row.last.trans atEnd) found free event,
      ⟨distinct, ?_, last⟩, fun other away outside => ?_⟩
    · refine row.path.append row.distinct atEnd (fun cellAt foundAt => ?_) ?_
        fun other inside inner => ?_
      · obtain rfl := Option.some.inj (found.symm.trans foundAt)
        refine ⟨{ cell with next := some address }, ?_, rfl, rfl⟩
        rw [linkBehind, put_of_ne _ different, put_self]
      · exact ⟨_, put_self _ address _, rfl, rfl⟩
      · refine linkBehind_of_ne heap cell event (fun same => new (same ▸ inside)) inner
    · exact linkBehind_of_ne heap cell event away fun same => outside (same ▸ member)

/-- Popping a path returns the event of its first node, goes on to the second one and writes
nothing but a `prev`. -/
theorem pop_of_path {heap : Heap Nat Event} {queue : CEventQueue} {address : Nat} {event : Event}
    {nodes : List (Nat × Event)} (path : Path heap queue.mHead ((address, event) :: nodes)) :
    ∃ next after, queue.pop heap = some (some event, next, after) ∧
      Path after next.mHead nodes ∧ SameLinks heap after ∧
      next.mLastNode = if nodes = [] then none else queue.mLastNode := by
  obtain ⟨starts, cell, found, data, behind⟩ := path
  have someHead : queue.mHead ≠ none := by
    rw [starts]
    exact Option.some_ne_none address
  have loaded : load heap queue.mHead = some cell := by
    rw [starts]
    exact found
  rw [pop, if_neg someHead, loaded, Option.bind_some]
  rcases nodes with _ | ⟨⟨second, later⟩, rest⟩
  · have ended : cell.next = none := behind
    rw [ended, advance, if_neg (not_not_intro rfl), Option.bind_some]
    dsimp only
    rw [loaded, Option.map_some, data]
    exact ⟨_, _, rfl, rfl, fun _ => rfl, (if_pos rfl).symm⟩
  · obtain ⟨follows, secondCell, foundSecond, -⟩ := id behind
    have same : SameLinks heap (put heap second { secondCell with prev := none }) := by
      intro other
      by_cases here : other = second
      · rw [here, put_self, foundSecond]
        rfl
      · rw [put_of_ne heap here]
    obtain ⟨still, foundStill, -, dataStill⟩ := same.exists_cell found
    have loadedStill : load (put heap second { secondCell with prev := none }) queue.mHead =
        some still := by
      rw [starts]
      exact foundStill
    rw [follows, advance, if_pos (Option.some_ne_none second), store_of_some _ foundSecond,
      Option.map_some, Option.bind_some]
    dsimp only
    rw [loadedStill, Option.map_some, dataStill, data]
    exact ⟨_, _, rfl, same.path (follows ▸ behind), same, (if_neg (List.cons_ne_nil _ _)).symm⟩

/-- Popping takes the first node off the row of the queue, if there is one. -/
theorem Row.pop {heap : Heap Nat Event} {queue : CEventQueue} {nodes : List (Nat × Event)}
    (row : Row heap queue nodes) :
    ∃ next after, queue.pop heap = some ((nodes.map Prod.snd).head?, next, after) ∧
      Row after next nodes.tail ∧ SameLinks heap after := by
  rcases nodes with _ | ⟨⟨address, event⟩, rest⟩
  · have noHead : queue.mHead = none := row.path
    exact ⟨queue, heap, if_pos noHead, row, fun _ => rfl⟩
  · obtain ⟨next, after, popped, path, same, last⟩ := pop_of_path row.path
    refine ⟨next, after, popped, ⟨(List.nodup_cons.mp row.distinct).2, path, ?_⟩, same⟩
    rw [last, row.last]
    cases rest with
    | nil => rfl
    | cons second rest => exact (if_neg (List.cons_ne_nil _ _)).trans (List.getLast?_cons_cons ..)

end CEventQueue

/-! ### A queue and its copy -/

/-- The two queues that a copy leaves. -/
inductive Side
  | original
  | copy
  deriving DecidableEq

/-- One call on a queue or on its copy; the address is the one that the allocation of a push
gives. -/
inductive PairCall (Event : Type)
  | push (side : Side) (event : Event) (address : Nat)
  | pop (side : Side)

/-- The queue that the call is on. -/
def PairCall.side : PairCall Event → Side
  | push side _ _ | pop side => side

/-- A queue and its copy on their heap, with what the pops on each have returned since the copy. -/
structure QueuePair (Event : Type) where
  heap : Heap Nat Event
  queue : Side → CEventQueue
  results : Side → List (Option Event)

/-- A first-in first-out queue: the events that it holds, and what its pops have returned. -/
structure Fifo (Event : Type) where
  contents : List Event
  results : List (Option Event)

/-- What a call does to the first-in first-out queue of one side. -/
def Fifo.step (side : Side) (fifo : Fifo Event) : PairCall Event → Fifo Event
  | .push target event _ =>
    if target = side then { fifo with contents := fifo.contents ++ [event] } else fifo
  | .pop target =>
    if target = side then
      { contents := fifo.contents.tail, results := fifo.results ++ [fifo.contents.head?] }
    else fifo

namespace QueuePair

/-- A queue and the copy that the implicit copy constructor makes of it. -/
def copied (heap : Heap Nat Event) (queue : CEventQueue) : QueuePair Event where
  heap := heap
  queue _ := queue
  results _ := []

/-- One call. -/
def step (pair : QueuePair Event) : PairCall Event → Option (QueuePair Event)
  | .push side event address =>
    ((pair.queue side).push pair.heap address event).map fun (queue, heap) =>
      { pair with heap, queue := Function.update pair.queue side queue }
  | .pop side =>
    ((pair.queue side).pop pair.heap).map fun (event, queue, heap) =>
      { heap
        queue := Function.update pair.queue side queue
        results := Function.update pair.results side (pair.results side ++ [event]) }

/-- An allocation gives a free address. -/
def Free (pair : QueuePair Event) : PairCall Event → Prop
  | .push _ _ address => pair.heap address = none
  | .pop _ => True

/-- A push finds that one of the two queues has been popped as often as there were events at the
copy. -/
def Detached (held : List Event) (pair : QueuePair Event) : PairCall Event → Prop
  | .push _ _ _ => ∃ side, held.length ≤ (pair.results side).length
  | .pop _ => True

/-- The calls are defined, and on each of the two sides the pops return what a first-in first-out
queue returns that held the given events at the copy. -/
def Independent (held : List Event) (pair : QueuePair Event) (calls : List (PairCall Event)) :
    Prop :=
  ∃ final, PartialRun.run step pair calls = some final ∧
    ∀ side, final.results side = (calls.foldl (Fifo.step side) ⟨held, []⟩).results

/-- The queue has the nodes that hold the contents of the first-in first-out queue, and both have
returned the same. -/
structure Keeps (pair : QueuePair Event) (side : Side) (fifo : Fifo Event)
    (nodes : List (Nat × Event)) : Prop where
  row : CEventQueue.Row pair.heap (pair.queue side) nodes
  contents : fifo.contents = nodes.map Prod.snd
  results : fifo.results = pair.results side

theorem step_push_eq (pair : QueuePair Event) (side : Side) {event : Event} {address : Nat}
    {next : CEventQueue} {after : Heap Nat Event}
    (pushed : (pair.queue side).push pair.heap address event = some (next, after)) :
    pair.step (.push side event address) = some
      { pair with heap := after, queue := Function.update pair.queue side next } := by
  rw [step, pushed]
  rfl

theorem step_pop_eq {pair : QueuePair Event} {side : Side} {event : Option Event}
    {next : CEventQueue} {after : Heap Nat Event}
    (popped : (pair.queue side).pop pair.heap = some (event, next, after)) :
    pair.step (.pop side) = some
      { heap := after
        queue := Function.update pair.queue side next
        results := Function.update pair.results side (pair.results side ++ [event]) } := by
  rw [step, popped]
  rfl

/-- A push on a queue appends a node to it, and keeps the nodes of the other one when they are
none of its own. -/
theorem Keeps.push {pair : QueuePair Event} {side : Side} {fifo : Fifo Event}
    {nodes : List (Nat × Event)} (keeps : pair.Keeps side fifo nodes) {address : Nat}
    (free : pair.heap address = none) (event : Event) :
    ∃ next, pair.step (.push side event address) = some next ∧
      next.Keeps side (fifo.step side (.push side event address)) (nodes ++ [(address, event)]) ∧
      next.results = pair.results ∧
      ∀ other fifoOther nodesOther, other ≠ side → pair.Keeps other fifoOther nodesOther →
        (addresses nodes).Disjoint (addresses nodesOther) →
        next.Keeps other fifoOther nodesOther ∧
          (addresses (nodes ++ [(address, event)])).Disjoint (addresses nodesOther) := by
  obtain ⟨queue, after, pushed, row, frame⟩ := keeps.row.push free event
  refine ⟨_, step_push_eq pair side pushed, ⟨?_, ?_, ?_⟩, rfl,
    fun other fifoOther nodesOther different keepsOther apart => ?_⟩
  · show CEventQueue.Row after (Function.update pair.queue side queue side) _
    rwa [Function.update_self]
  · rw [Fifo.step, if_pos rfl, keeps.contents, List.map_append]
    rfl
  · rw [Fifo.step, if_pos rfl]
    exact keeps.results
  · have new : address ∉ addresses nodesOther := by
      intro member
      obtain ⟨cell, found⟩ := keepsOther.row.path.exists_cell member
      cases found.symm.trans free
    refine ⟨⟨?_, keepsOther.contents, keepsOther.results⟩, ?_⟩
    · show CEventQueue.Row after (Function.update pair.queue side queue other) _
      rw [Function.update_of_ne different]
      refine keepsOther.row.frame fun inside member => frame inside ?_ ?_
      · rintro rfl
        exact new member
      · exact fun here => apart here member
    · rw [addresses_append, List.disjoint_append_left]
      exact ⟨apart, List.singleton_disjoint.mpr new⟩

/-- A pop on a queue takes its first node, and keeps the nodes of the other one, whether or not
the two share any. -/
theorem Keeps.pop {pair : QueuePair Event} {side : Side} {fifo : Fifo Event}
    {nodes : List (Nat × Event)} (keeps : pair.Keeps side fifo nodes) :
    ∃ next, pair.step (.pop side) = some next ∧
      next.Keeps side (fifo.step side (.pop side)) nodes.tail ∧
      ∀ other fifoOther nodesOther, other ≠ side → pair.Keeps other fifoOther nodesOther →
        next.Keeps other fifoOther nodesOther := by
  obtain ⟨queue, after, popped, row, same⟩ := keeps.row.pop
  refine ⟨_, step_pop_eq popped, ⟨?_, ?_, ?_⟩, fun other fifoOther nodesOther different
    keepsOther => ⟨?_, keepsOther.contents, ?_⟩⟩
  · show CEventQueue.Row after (Function.update pair.queue side queue side) _
    rwa [Function.update_self]
  · rw [Fifo.step, if_pos rfl, keeps.contents, List.map_tail]
  · show (fifo.step side (.pop side)).results = Function.update pair.results side _ side
    rw [Fifo.step, if_pos rfl, Function.update_self, keeps.contents, keeps.results]
  · show CEventQueue.Row after (Function.update pair.queue side queue other) _
    rw [Function.update_of_ne different]
    exact ⟨keepsOther.row.distinct, same.path keepsOther.row.path, keepsOther.row.last⟩
  · show fifoOther.results = Function.update pair.results side _ other
    rw [Function.update_of_ne different]
    exact keepsOther.results

/-- Both queues keep their nodes, and either they share none or no push has been made since the
copy, at which both had the given ones. -/
structure Related (held : List (Nat × Event)) (pair : QueuePair Event) (fifos : Side → Fifo Event)
    (nodes : Side → List (Nat × Event)) : Prop where
  keeps : ∀ side, pair.Keeps side (fifos side) (nodes side)
  apart : (∀ first second, first ≠ second →
      (addresses (nodes first)).Disjoint (addresses (nodes second))) ∨
    ∀ side, nodes side = held.drop (pair.results side).length

theorem Side.eq_or_eq {first second : Side} (different : first ≠ second) (side : Side) :
    first = side ∨ second = side := by
  cases first <;> cases second <;> cases side <;> simp_all

theorem Fifo.step_of_ne {side other : Side} (different : other ≠ side) (fifo : Fifo Event)
    (call : PairCall Event) (on : call.side = side) : fifo.step other call = fifo := by
  cases call with
  | push target event address => exact if_neg fun same => different (same.symm.trans on)
  | pop target => exact if_neg fun same => different (same.symm.trans on)

/-- Once one of the two has been popped as often as there were events at the copy, the two share no
node. -/
theorem Related.disjoint {held : List (Nat × Event)} {pair : QueuePair Event}
    {fifos : Side → Fifo Event} {nodes : Side → List (Nat × Event)}
    (related : Related held pair fifos nodes)
    (detached : ∃ side, held.length ≤ (pair.results side).length) :
    ∀ first second, first ≠ second →
      (addresses (nodes first)).Disjoint (addresses (nodes second)) := by
  rcases related.apart with apart | shared
  · exact apart
  · obtain ⟨side, popped⟩ := detached
    have drained : nodes side = [] := by
      rw [shared side, List.drop_eq_nil_iff]
      exact popped
    intro first second different
    rcases Side.eq_or_eq different side with rfl | rfl
    · rw [drained]
      exact List.disjoint_nil_left _
    · rw [drained]
      exact List.disjoint_nil_right _

theorem Related.push {held : List (Nat × Event)} {pair : QueuePair Event}
    {fifos : Side → Fifo Event} {nodes : Side → List (Nat × Event)}
    (related : Related held pair fifos nodes) (side : Side) (event : Event) {address : Nat}
    (free : pair.heap address = none)
    (detached : ∃ side, held.length ≤ (pair.results side).length) :
    ∃ next, pair.step (.push side event address) = some next ∧ ∃ after,
      Related held next (fun other => (fifos other).step other (.push side event address))
        after := by
  have apart := related.disjoint detached
  obtain ⟨next, stepped, kept, -, others⟩ := (related.keeps side).push free event
  refine ⟨next, stepped, Function.update nodes side (nodes side ++ [(address, event)]),
    fun other => ?_, Or.inl fun first second different => ?_⟩
  · by_cases here : other = side
    · rw [here, Function.update_self]
      exact kept
    · rw [Function.update_of_ne here, Fifo.step_of_ne here _ _ rfl]
      exact (others other _ _ here (related.keeps other) (apart side other (Ne.symm here))).1
  · by_cases atFirst : first = side
    · have atSecond : second ≠ side := fun same => different (atFirst.trans same.symm)
      rw [atFirst, Function.update_self, Function.update_of_ne atSecond]
      exact (others second _ _ atSecond (related.keeps second)
        (apart side second (Ne.symm atSecond))).2
    · obtain rfl := (Side.eq_or_eq different side).resolve_left atFirst
      rw [Function.update_self, Function.update_of_ne atFirst]
      have disjoint := (others first _ _ atFirst (related.keeps first)
        (apart second first (Ne.symm atFirst))).2
      exact fun _ here there => disjoint there here

theorem Related.pop {held : List (Nat × Event)} {pair : QueuePair Event}
    {fifos : Side → Fifo Event} {nodes : Side → List (Nat × Event)}
    (related : Related held pair fifos nodes) (side : Side) :
    ∃ next, pair.step (.pop side) = some next ∧ ∃ after,
      Related held next (fun other => (fifos other).step other (.pop side)) after := by
  obtain ⟨next, stepped, kept, others⟩ := (related.keeps side).pop
  have keeps : ∀ other, next.Keeps other ((fifos other).step other (.pop side))
      (Function.update nodes side (nodes side).tail other) := by
    intro other
    by_cases here : other = side
    · rw [here, Function.update_self]
      exact kept
    · rw [Function.update_of_ne here, Fifo.step_of_ne here _ _ rfl]
      exact others other _ _ here (related.keeps other)
  refine ⟨next, stepped, _, keeps, related.apart.imp (fun apart first second different => ?_)
    fun shared other => ?_⟩
  · have fewer : ∀ other, addresses (Function.update nodes side (nodes side).tail other) ⊆
        addresses (nodes other) := by
      intro other
      by_cases here : other = side
      · rw [here, Function.update_self]
        exact ((List.tail_sublist _).map Prod.fst).subset
      · rw [Function.update_of_ne here]
        exact fun _ member => member
    exact fun address here there =>
      apart first second different (fewer first here) (fewer second there)
  · have results := (keeps other).results
    by_cases here : other = side
    · rw [here] at results ⊢
      rw [Fifo.step, if_pos rfl, (related.keeps side).results] at results
      rw [Function.update_self, shared side, ← results, List.length_append, List.length_singleton,
        List.tail_drop]
    · rw [Fifo.step_of_ne here _ _ rfl, (related.keeps other).results] at results
      rw [Function.update_of_ne here, shared other, results]

theorem foldl_step (fifos : Side → Fifo Event) (calls : List (PairCall Event)) (side : Side) :
    calls.foldl (fun fifos call side => (fifos side).step side call) fifos side =
      calls.foldl (Fifo.step side) (fifos side) := by
  induction calls generalizing fifos with
  | nil => rfl
  | cons call rest inductionHypothesis =>
    rw [List.foldl_cons, List.foldl_cons, inductionHypothesis]

/-- Calls that push only when one of the two has been popped as often as there were events at the
copy leave the two independent. -/
theorem independent_of_detached {heap : Heap Nat Event} {queue : CEventQueue}
    {held : List (Nat × Event)} (row : CEventQueue.Row heap queue held)
    {calls : List (PairCall Event)}
    (detached : PartialRun.Each step
      (fun pair call => pair.Free call ∧ pair.Detached (held.map Prod.snd) call)
      (copied heap queue) calls) :
    Independent (held.map Prod.snd) (copied heap queue) calls := by
  have initial : ∃ nodes, Related held (copied heap queue)
      (fun _ => ⟨held.map Prod.snd, []⟩) nodes :=
    ⟨fun _ => held, fun _ => ⟨row, rfl, rfl⟩, Or.inr fun _ => rfl⟩
  obtain ⟨final, reached, nodes, related⟩ := PartialRun.run_simulates
    (fun pair fifos => ∃ nodes, Related held pair fifos nodes)
    (fun fifos call side => (fifos side).step side call)
    (fun pair fifos call ⟨nodes, related⟩ ⟨free, detached⟩ => by
      cases call with
      | push side event address =>
        obtain ⟨later, popped⟩ := detached
        rw [List.length_map] at popped
        exact related.push side event free ⟨later, popped⟩
      | pop side => exact related.pop side) initial detached
  refine ⟨final, reached, fun side => ?_⟩
  rw [← (related.keeps side).results, foldl_step]

/-- Without a call on its copy, a queue is a first-in first-out queue. -/
theorem original_alone {heap : Heap Nat Event} {queue : CEventQueue} {held : List (Nat × Event)}
    (row : CEventQueue.Row heap queue held) {calls : List (PairCall Event)}
    (alone : PartialRun.Each step (fun pair call => pair.Free call ∧ call.side = .original)
      (copied heap queue) calls) :
    ∃ final, PartialRun.run step (copied heap queue) calls = some final ∧
      final.results .original =
        (calls.foldl (Fifo.step .original) ⟨held.map Prod.snd, []⟩).results := by
  have initial : ∃ nodes, (copied heap queue).Keeps .original ⟨held.map Prod.snd, []⟩ nodes :=
    ⟨held, row, rfl, rfl⟩
  obtain ⟨final, reached, nodes, keeps⟩ := PartialRun.run_simulates
    (fun pair fifo => ∃ nodes, pair.Keeps .original fifo nodes) (Fifo.step .original)
    (fun pair fifo call ⟨nodes, keeps⟩ ⟨free, on⟩ => by
      cases call with
      | push side event address =>
        obtain rfl : side = .original := on
        obtain ⟨next, stepped, kept, -⟩ := keeps.push free event
        exact ⟨next, stepped, _, kept⟩
      | pop side =>
        obtain rfl : side = .original := on
        obtain ⟨next, stepped, kept, -⟩ := keeps.pop
        exact ⟨next, stepped, _, kept⟩) initial alone
  exact ⟨final, reached, keeps.results.symm⟩

/-! ### Calls that tell a copy from a queue of its own -/

theorem step_pop_of_path {pair : QueuePair Event} {side : Side} {node : Nat × Event}
    {nodes : List (Nat × Event)}
    (path : Path pair.heap (pair.queue side).mHead (node :: nodes)) :
    ∃ next, pair.step (.pop side) = some next ∧
      Path next.heap (next.queue side).mHead nodes ∧
      next.results side = pair.results side ++ [some node.2] := by
  obtain ⟨queue, after, popped, behind, -⟩ := CEventQueue.pop_of_path path
  refine ⟨_, step_pop_eq popped, ?_, Function.update_self ..⟩
  show Path after (Function.update pair.queue side queue side).mHead nodes
  rwa [Function.update_self]

/-- Popping one side of a pair as often as its path has nodes returns their events. -/
theorem run_pops (pair : QueuePair Event) (side : Side) {nodes : List (Nat × Event)}
    (path : Path pair.heap (pair.queue side).mHead nodes) :
    ∃ final, PartialRun.run step pair (List.replicate nodes.length (.pop side)) = some final ∧
      final.results side = pair.results side ++ nodes.map fun node => some node.2 := by
  induction nodes generalizing pair with
  | nil => exact ⟨pair, rfl, (List.append_nil _).symm⟩
  | cons node rest inductionHypothesis =>
    obtain ⟨next, stepped, behind, result⟩ := step_pop_of_path path
    obtain ⟨final, reached, results⟩ := inductionHypothesis next behind
    refine ⟨final, ?_, ?_⟩
    · rw [List.length_cons, List.replicate_succ, PartialRun.run_cons, stepped, Option.bind_some,
        reached]
    · rw [results, result, List.append_assoc, List.map_cons]
      rfl

theorem fifo_pops (side : Side) (contents : List Event) (results : List (Option Event)) :
    (List.replicate contents.length (PairCall.pop side)).foldl (Fifo.step side)
        ⟨contents, results⟩ = ⟨[], results ++ contents.map some⟩ := by
  induction contents generalizing results with
  | nil => exact congrArg (Fifo.mk []) (List.append_nil _).symm
  | cons event rest inductionHypothesis =>
    rw [List.length_cons, List.replicate_succ, List.foldl_cons, Fifo.step, if_pos rfl]
    show (List.replicate rest.length _).foldl (Fifo.step side) ⟨rest, results ++ [some event]⟩ = _
    rw [inductionHypothesis, List.append_assoc]
    rfl

/-- An event pushed to the original comes out of the copy of a queue that is not empty. -/
theorem not_independent {heap : Heap Nat Event} {queue : CEventQueue}
    {held : List (Nat × Event)} (row : CEventQueue.Row heap queue held) (some : held ≠ [])
    {address : Nat} (free : heap address = none) (event : Event) :
    ¬ Independent (held.map Prod.snd) (copied heap queue)
      (.push .original event address :: List.replicate (held.length + 1) (.pop .copy)) := by
  rintro ⟨final, reached, independent⟩
  obtain ⟨next, after, pushed, grown, -⟩ := row.push free event
  have path : Path after queue.mHead (held ++ [(address, event)]) := by
    have sameHead : next.mHead = queue.mHead := by
      rw [grown.path.head_eq, row.path.head_eq, addresses_append]
      obtain ⟨node, rest, rfl⟩ := List.exists_cons_of_ne_nil some
      rfl
    exact sameHead ▸ grown.path
  rw [PartialRun.run_cons, step_push_eq (copied heap queue) .original pushed,
    Option.bind_some] at reached
  obtain ⟨last, popped, results⟩ := run_pops
    ⟨after, Function.update (fun _ => queue) .original next, fun _ => []⟩ .copy path
  rw [List.length_append, List.length_singleton] at popped
  obtain rfl := Option.some.inj (popped.symm.trans reached)
  have expected := independent .copy
  rw [List.foldl_cons, Fifo.step_of_ne (show Side.copy ≠ .original by decide) _ _ rfl,
    List.replicate_succ', List.foldl_append, ← List.length_map (f := Prod.snd), fifo_pops,
    results, List.map_append] at expected
  have ended := congrArg List.getLast? expected
  simp [Fifo.step] at ended

theorem each_free_pushed {pair : QueuePair Event} {address : Nat} (free : pair.heap address = none)
    (side : Side) (event : Event) (pops : Nat) :
    PartialRun.Each step Free pair
      (.push side event address :: List.replicate pops (.pop .copy)) := by
  refine ⟨free, fun next _ => PartialRun.each_of_forall (fun call member state => ?_) next⟩
  rw [List.eq_of_mem_replicate member]
  trivial

end QueuePair

namespace EventQueues

/-- From some address on, nothing is allocated. -/
def Bounded (system : EventQueues Event) : Prop :=
  ∃ bound, ∀ address, bound ≤ address → system.heap address = none

/-- Every call leaves all but finitely many addresses free. -/
theorem Separate.step_bounded {system next : EventQueues Event} {nodes : Nat → List (Nat × Event)}
    (separate : system.Separate nodes) {call : QueueCall Event} (allowed : system.Allowed call)
    (bounded : system.Bounded) (stepped : system.step call = some next) : next.Bounded := by
  obtain ⟨bound, free⟩ := bounded
  have outside : ∀ (index : Nat), index < system.queues.length → ∀ other, bound ≤ other →
      other ∉ addresses (nodes index) := fun index inside other above member =>
    separate.allocated inside member (free other above)
  cases call with
  | construct =>
    obtain rfl := Option.some.inj stepped
    exact ⟨bound, free⟩
  | getPrioQue prioLevel =>
    obtain rfl := Option.some.inj stepped
    exact ⟨bound, free⟩
  | copy source =>
    obtain ⟨tracked, -, rfl⟩ := Option.map_eq_some_iff.mp stepped
    exact ⟨bound, free⟩
  | push index event address =>
    obtain ⟨after, pushed, -, -, frame⟩ := separate.push allowed.1 allowed.2 event
    obtain rfl := Option.some.inj (pushed.symm.trans stepped)
    refine ⟨max bound (address + 1), fun other above => ?_⟩
    have aboveBound := Nat.le_trans (Nat.le_max_left bound (address + 1)) above
    have aboveAddress := Nat.le_trans (Nat.le_max_right bound (address + 1)) above
    rw [frame other (Nat.ne_of_gt aboveAddress) (outside index allowed.1 other aboveBound)]
    exact free other aboveBound
  | pop index =>
    obtain ⟨after, popped, -, -, frame⟩ := separate.pop allowed
    obtain rfl := Option.some.inj (popped.symm.trans stepped)
    refine ⟨bound, fun other above => ?_⟩
    rw [frame other fun member =>
      outside index allowed other above (((List.tail_sublist _).map Prod.fst).subset member)]
    exact free other above

/-- Behind every run the queues are separate, and an allocation finds a free address. -/
theorem run_separate {calls : List (QueueCall Event)} {system : EventQueues Event}
    (allowed : PartialRun.Each step Allowed empty calls)
    (reached : PartialRun.run step empty calls = some system) :
    ∃ nodes, system.Separate nodes ∧ ∃ address, system.heap address = none := by
  obtain ⟨other, reachedOther, ⟨nodes, separate⟩, bound, free⟩ := PartialRun.run_defined
    (fun system => (∃ nodes, system.Separate nodes) ∧ system.Bounded)
    (fun system call ⟨⟨_, separate⟩, bounded⟩ allowed => by
      obtain ⟨next, after, stepped, kept⟩ := separate.step call allowed
      exact ⟨next, stepped, ⟨after, kept⟩, separate.step_bounded allowed bounded stepped⟩)
    ⟨⟨_, empty_separate⟩, 0, fun _ _ => rfl⟩ allowed
  obtain rfl := Option.some.inj (reachedOther.symm.trans reached)
  exact ⟨nodes, separate, bound, free bound (Nat.le_refl _)⟩

end EventQueues

namespace QueuePair

/-- In every state that a program of queues reaches, a queue and its copy are independent under all
later calls on the two exactly when the queue holds nothing at the copy. Whatever it holds, they
are independent under all calls that push only when one of the two has been popped as often as
the queue held events; and what the original returns is what it would return alone. -/
theorem copy_independent_iff {calls : List (QueueCall Event)} {system : EventQueues Event}
    (allowed : PartialRun.Each EventQueues.step EventQueues.Allowed .empty calls)
    (reached : PartialRun.run EventQueues.step .empty calls = some system) {index : Nat}
    {tracked : Tracked Event} (found : system.queues[index]? = some tracked) :
    let pair := copied system.heap tracked.queue
    let held := tracked.pushed.drop tracked.popped.length
    ((∀ later, PartialRun.Each step Free pair later → pair.Independent held later) ↔
      held = []) ∧
    (∀ later, PartialRun.Each step (fun pair call => pair.Free call ∧ pair.Detached held call)
        pair later → pair.Independent held later) ∧
    ∀ later, PartialRun.Each step (fun pair call => pair.Free call ∧ call.side = .original)
        pair later →
      ∃ final, PartialRun.run step pair later = some final ∧
        final.results .original = (later.foldl (Fifo.step .original) ⟨held, []⟩).results := by
  intro pair held
  obtain ⟨nodes, separate, address, free⟩ := EventQueues.run_separate allowed reached
  obtain ⟨chain, history⟩ := separate.holds index tracked found
  have row := CEventQueue.row_of_chain chain
  have contents : held = (nodes index).map Prod.snd := by
    show tracked.pushed.drop tracked.popped.length = _
    rw [history, List.drop_left]
  rw [contents]
  refine ⟨⟨fun independent => ?_, fun empty later each => ?_⟩,
    fun later detached => independent_of_detached row detached,
    fun later alone => original_alone row alone⟩
  · by_contra some
    obtain ⟨event, rest, -⟩ := List.exists_cons_of_ne_nil some
    have nonempty : nodes index ≠ [] := fun empty => some (congrArg (List.map Prod.snd) empty)
    exact not_independent row nonempty free event
      (independent _ (each_free_pushed free .original event _))
  · refine independent_of_detached row ((PartialRun.each_congr (fun _ => True)
      (fun _ _ _ _ _ _ => trivial) (fun pair call _ => ?_) trivial).mp each)
    rw [empty]
    refine (and_iff_left ?_).symm
    cases call with
    | push side event address => exact ⟨side, Nat.zero_le _⟩
    | pop side => trivial

/-- The law of the copies, on a queue that holds one event. -/
theorem copy_independent_iff_held :
    ∃ (system : EventQueues Nat) (tracked : Tracked Nat),
      PartialRun.run EventQueues.step .empty [.construct, .push 0 7 100] = some system ∧
      system.queues[0]? = some tracked ∧
      ¬ ∀ later, PartialRun.Each step Free (copied system.heap tracked.queue) later →
        Independent [7] (copied system.heap tracked.queue) later := by
  have allowed : PartialRun.Each EventQueues.step EventQueues.Allowed (.empty : EventQueues Nat)
      [.construct, .push 0 7 100] :=
    (PartialRun.each_cons_of_step rfl).mpr
      ⟨trivial, PartialRun.each_singleton.mpr ⟨by decide, rfl⟩⟩
  refine ⟨_, _, rfl, rfl, fun independent => ?_⟩
  have empty := (@copy_independent_iff Nat _ _ allowed rfl 0 _ rfl).1.mp independent
  cases empty

/-- A queue holds one event at the copy, and another one is pushed to it: the second pop on the
copy returns that one instead of `NULL`. -/
theorem copy_returns_later_push :
    ∃ (system : EventQueues Nat) (tracked : Tracked Nat) (final : QueuePair Nat),
      PartialRun.run EventQueues.step .empty [.construct, .push 0 7 100] = some system ∧
      system.queues[0]? = some tracked ∧
      PartialRun.run step (copied system.heap tracked.queue)
        [.push .original 8 101, .pop .copy, .pop .copy] = some final ∧
      final.results .copy = [some 7, some 8] ∧
      ¬ Independent [7] (copied system.heap tracked.queue)
        [.push .original 8 101, .pop .copy, .pop .copy] := by
  refine ⟨_, _, _, rfl, rfl, rfl, rfl, ?_⟩
  rintro ⟨final, reached, independent⟩
  obtain rfl := Option.some.inj reached
  have expected := independent .copy
  cases expected

end QueuePair

end SelftestNet
