import SmartPay.ListCalls

/-!
The two lists after `freeNodeList`. It leaves the tail pointers as they were, so
the lists are empty lists again only where nothing was in them, or where nothing
is added afterwards.
-/

namespace SmartPay

open CLib

/-! What the lists are for. -/

/-- A store and a queue as lists: what has been added, and what has been taken. -/
structure Lists where
  nodes : List Nat
  queue : List Nat
  taken : List (Option Nat)

def listStep (lists : Lists) : ListOp → Lists
  | .addNodeToList node => { lists with nodes := lists.nodes ++ [node] }
  | .addRequestToQueue record => { lists with queue := lists.queue ++ [record] }
  | .checkQueueAndGetRequest =>
      { lists with
        queue := lists.queue.tail
        taken := lists.taken ++ [lists.queue.head?] }
  | _ => lists

/-- From here on the calls behave as on an empty store and an empty queue. -/
def BehavesEmpty (state : Calls) (ops : List ListOp) : Prop :=
  let lists := ops.foldl listStep { nodes := [], queue := [], taken := state.taken }
  ∃ final, runFrom callOp state ops = .ok final ∧
    final.taken = lists.taken ∧
    (∀ p ∈ lists.nodes,
      getTerminalById final.mgr (final.mgr.terminals.content p).id = .ok (some p)) ∧
    ∀ id, (∀ p ∈ lists.nodes, (final.mgr.terminals.content p).id ≠ id) →
      getTerminalById final.mgr id = .ok none

/-! The invariant. -/

/-- A list with its tail at the last node, or an empty one whose tail is a released node. -/
inductive Tailed {α : Type} (heap : Heap α) (next : α → Option Nat) (head tail : Option Nat) :
    List Nat → Bool → Prop
  | linked {nodes : List Nat} : Linked heap next head tail nodes → Tailed heap next head tail nodes false
  | stale {t : Nat} : head = none → tail = some t → t ∈ heap.freed →
      Tailed heap next head tail [] true

theorem Tailed.chain {α : Type} {heap : Heap α} {next : α → Option Nat} {head tail : Option Nat}
    {nodes : List Nat} {stale : Bool} (list : Tailed heap next head tail nodes stale) :
    Chain heap next head nodes := by
  cases list with
  | linked linked => exact linked.chain
  | stale empty _ _ => exact empty

theorem Tailed.isLinked {α : Type} {heap : Heap α} {next : α → Option Nat}
    {head tail : Option Nat} {nodes : List Nat} (list : Tailed heap next head tail nodes false) :
    Linked heap next head tail nodes := by
  cases list with
  | linked linked => exact linked

theorem Tailed.isStale {α : Type} {heap : Heap α} {next : α → Option Nat}
    {head tail : Option Nat} {nodes : List Nat} (list : Tailed heap next head tail nodes true) :
    nodes = [] ∧ head = none ∧ ∃ t, tail = some t ∧ t ∈ heap.freed := by
  cases list with
  | stale empty tail freed => exact ⟨rfl, empty, _, tail, freed⟩

theorem Tailed.setFresh {α : Type} {heap : Heap α} {next : α → Option Nat}
    {head tail : Option Nat} {nodes : List Nat} {stale : Bool}
    (list : Tailed heap next head tail nodes stale) (value : α) :
    Tailed (heap.malloc.1.set heap.brk value) next head tail nodes stale := by
  cases list with
  | linked linked => exact .linked (linked.setFresh value)
  | stale empty tail member => exact .stale empty tail member

theorem Tailed.of_released {α : Type} {heap after : Heap α} {next : α → Option Nat}
    {head tail : Option Nat} {nodes : List Nat} (linked : Linked heap next head tail nodes)
    (released : Releases heap after nodes) : Tailed after next none tail [] head.isSome := by
  rw [linked.head_eq, linked.last]
  cases nodes using List.reverseRecOn with
  | nil => exact .linked Linked.empty
  | append_singleton front t _ =>
      have some : (front ++ [t]).head?.isSome = true := by simp
      rw [some, List.getLast?_concat]
      exact .stale rfl rfl (by simp [released.freed])

structure CallsHold (state : Calls) (lists : Lists) (staleList staleQueue : Bool) : Prop where
  list : Tailed state.mgr.terminals Terminals.next state.mgr.termList state.mgr.termListTail
    lists.nodes staleList
  queue : Tailed state.mgr.requests RequestQueueItem.next state.mgr.requestQueueList
    state.mgr.requestQueueTail lists.queue staleQueue
  taken : state.taken = lists.taken
  counter : state.mgr.globalTermCtr = state.created.length
  nodes : ∀ p ∈ lists.nodes, p ∈ state.added ∧ p ∈ state.created
  records : ∀ p ∈ lists.queue, p ∈ state.queued
  allocated : ∀ p ∈ state.created, p < state.mgr.terminals.brk
  createdLive : ∀ p ∈ state.created, p ∉ state.added → state.mgr.terminals.Live p
  requestsLive : ∀ p ∈ state.requests, p ∉ state.queued → state.mgr.requests.Live p
  bounded : ∀ p ∈ state.created, (state.mgr.terminals.content p).id ≤ state.created.length
  distinct : ∀ p ∈ state.created, ∀ q ∈ state.created,
    (state.mgr.terminals.content p).id = (state.mgr.terminals.content q).id → p = q

theorem CallsHold.start (mgr : EquipmentMgr) :
    CallsHold (Calls.start mgr) { nodes := [], queue := [], taken := [] } false false := by
  refine ⟨.linked Linked.empty, .linked Linked.empty, rfl, rfl, ?_, ?_, ?_, ?_, ?_, ?_, ?_⟩
  all_goals simp [Calls.start]

theorem CallsHold.lookup {state : Calls} {lists : Lists} {staleList staleQueue : Bool}
    (holds : CallsHold state lists staleList staleQueue) :
    (∀ p ∈ lists.nodes,
      getTerminalById state.mgr (state.mgr.terminals.content p).id = .ok (some p)) ∧
    ∀ id, (∀ p ∈ lists.nodes, (state.mgr.terminals.content p).id ≠ id) →
      getTerminalById state.mgr id = .ok none := by
  constructor
  · intro p member
    rw [getTerminalById_chain holds.list.chain]
    cases found : lists.nodes.find? fun q =>
        (state.mgr.terminals.content q).id == (state.mgr.terminals.content p).id with
    | none =>
        rw [List.find?_eq_none] at found
        exact absurd (found p member) (by simp)
    | some q =>
        have sameId := List.find?_some found
        have inside := List.mem_of_find?_eq_some found
        have same := holds.distinct q (holds.nodes q inside).2 p (holds.nodes p member).2
          (by simpa using sameId)
        rw [same]
  · intro id missing
    rw [getTerminalById_chain holds.list.chain]
    have found : (lists.nodes.find? fun q => (state.mgr.terminals.content q).id == id) = none := by
      rw [List.find?_eq_none]
      intro q member
      simpa using missing q member
    rw [found]

/-! One operation. -/

section Steps

variable {state : Calls} {lists : Lists} {staleList staleQueue : Bool}

theorem callOp_createNode (holds : CallsHold state lists staleList staleQueue) {transData : Text}
    (fresh : Fresh state (.createNode transData)) :
    ∃ next, callOp state (.createNode transData) = .ok next ∧
      CallsHold next lists staleList staleQueue := by
  have room : state.mgr.globalTermCtr ≠ intMax := by
    rw [holds.counter]
    exact ne_of_lt fresh.2
  obtain ⟨node, done, id, _⟩ := createNode_ok room fresh.1
  let terminals := state.mgr.terminals.malloc.1.set state.mgr.terminals.brk node
  have live (p : Nat) : terminals.Live p ↔ state.mgr.terminals.Live p ∨
      p = state.mgr.terminals.brk := state.mgr.terminals.live_malloc p
  have kept (p : Nat) (older : p < state.mgr.terminals.brk) :
      terminals.content p = state.mgr.terminals.content p :=
    Heap.set_content_ne _ _ (Nat.ne_of_lt older)
  have made : (terminals.content state.mgr.terminals.brk).id = state.created.length + 1 := by
    simp only [terminals, Heap.set_content_same, id, holds.counter]
  refine ⟨{ state with
    mgr := { state.mgr with terminals, globalTermCtr := state.mgr.globalTermCtr + 1 }
    created := state.created ++ [state.mgr.terminals.brk] }, ?_,
    ?_, holds.queue, holds.taken, ?_, ?_, holds.records, ?_, ?_, holds.requestsLive, ?_, ?_⟩
  · simp only [callOp, done, bind, Except.bind, terminals]
  · exact holds.list.setFresh node
  · simp [holds.counter]
  · intro p member
    exact ⟨(holds.nodes p member).1, List.mem_append_left _ (holds.nodes p member).2⟩
  · intro p member
    change p < state.mgr.terminals.brk + 1
    rcases List.mem_append.mp member with old | new
    · exact Nat.lt_succ_of_lt (holds.allocated p old)
    · rw [List.mem_singleton.mp new]
      exact Nat.lt_succ_self _
  · intro p member notAdded
    rcases List.mem_append.mp member with old | new
    · exact (live p).mpr (Or.inl (holds.createdLive p old notAdded))
    · exact (live p).mpr (Or.inr (List.mem_singleton.mp new))
  · intro p member
    simp only [List.length_append, List.length_singleton]
    rcases List.mem_append.mp member with old | new
    · have bound := holds.bounded p old
      rw [kept p (holds.allocated p old)]
      omega
    · rw [List.mem_singleton.mp new, made]
      simp
  · intro p pMember q qMember same
    rcases List.mem_append.mp pMember with pOld | pNew
    · rcases List.mem_append.mp qMember with qOld | qNew
      · refine holds.distinct p pOld q qOld ?_
        rwa [kept p (holds.allocated p pOld), kept q (holds.allocated q qOld)] at same
      · have bound := holds.bounded p pOld
        rw [List.mem_singleton.mp qNew, made, kept p (holds.allocated p pOld)] at same
        omega
    · rcases List.mem_append.mp qMember with qOld | qNew
      · have bound := holds.bounded q qOld
        rw [List.mem_singleton.mp pNew, made, kept q (holds.allocated q qOld)] at same
        omega
      · rw [List.mem_singleton.mp pNew, List.mem_singleton.mp qNew]

theorem callOp_addNodeToList (holds : CallsHold state lists false staleQueue) {node : Nat}
    (fresh : Fresh state (.addNodeToList node)) :
    ∃ next, callOp state (.addNodeToList node) = .ok next ∧
      CallsHold next (listStep lists (.addNodeToList node)) false staleQueue := by
  obtain ⟨created, notAdded⟩ := fresh
  have linked := holds.list.isLinked
  have live := holds.createdLive node created notAdded
  have notLinked : node ∉ lists.nodes := fun member => notAdded (holds.nodes node member).1
  obtain ⟨terminals, head, done, longer, kept⟩ := addNodeToList_linked linked live notLinked
  have ids := FieldOnly.keeps kept Terminals.id fun _ _ => rfl
  refine ⟨{ state with
    mgr := { state.mgr with terminals, termList := head, termListTail := some node }
    added := state.added ++ [node] }, ?_, .linked longer, holds.queue, holds.taken,
    holds.counter, ?_, holds.records, ?_, ?_, holds.requestsLive, ?_, ?_⟩
  · simp only [callOp, done, bind, Except.bind]
  · intro p member
    rcases List.mem_append.mp member with old | new
    · exact ⟨List.mem_append_left _ (holds.nodes p old).1, (holds.nodes p old).2⟩
    · rw [List.mem_singleton.mp new]
      exact ⟨by simp, created⟩
  · intro p member
    have below := holds.allocated p member
    rwa [← kept.brk] at below
  · intro p member missing
    refine (FieldOnly.live kept p).mpr (holds.createdLive p member ?_)
    intro old
    exact missing (List.mem_append_left _ old)
  · intro p member
    rw [ids p]
    exact holds.bounded p member
  · intro p pMember q qMember same
    rw [ids p, ids q] at same
    exact holds.distinct p pMember q qMember same

theorem callOp_addNodeToList_stale (holds : CallsHold state lists true staleQueue) {node : Nat}
    (fresh : Fresh state (.addNodeToList node)) :
    callOp state (.addNodeToList node) = .error .useAfterFree := by
  have live := holds.createdLive node fresh.1 fresh.2
  obtain ⟨_, _, t, tail, freed⟩ := holds.list.isStale
  have dead : ¬state.mgr.terminals.Live t := fun alive => alive.2 freed
  simp only [callOp, addNodeToList, tail, Heap.load, Heap.store, Heap.live_set, live, dead,
    if_true, if_false, bind, Except.bind]

theorem callOp_createRequestQueueItem (holds : CallsHold state lists staleList staleQueue)
    {jsonReq method : Text} {termId : Int}
    (fresh : Fresh state (.createRequestQueueItem jsonReq method termId)) :
    ∃ next, callOp state (.createRequestQueueItem jsonReq method termId) = .ok next ∧
      CallsHold next lists staleList staleQueue := by
  obtain ⟨item, done, _⟩ :=
    createRequestQueueItem_ok state.mgr termId false fresh.1 fresh.2
  let requests := state.mgr.requests.malloc.1.set state.mgr.requests.brk item
  have live (p : Nat) : requests.Live p ↔ state.mgr.requests.Live p ∨
      p = state.mgr.requests.brk := state.mgr.requests.live_malloc p
  refine ⟨{ state with
    mgr := { state.mgr with requests }
    requests := state.requests ++ [state.mgr.requests.brk] }, ?_, holds.list, ?_, holds.taken,
    holds.counter, holds.nodes, holds.records, holds.allocated, holds.createdLive, ?_,
    holds.bounded, holds.distinct⟩
  · simp only [callOp, done, bind, Except.bind, requests]
  · exact holds.queue.setFresh item
  · intro p member missing
    rcases List.mem_append.mp member with old | new
    · exact (live p).mpr (Or.inl (holds.requestsLive p old missing))
    · exact (live p).mpr (Or.inr (List.mem_singleton.mp new))

theorem callOp_addRequestToQueue (holds : CallsHold state lists staleList false) {record : Nat}
    (fresh : Fresh state (.addRequestToQueue record)) :
    ∃ next, callOp state (.addRequestToQueue record) = .ok next ∧
      CallsHold next (listStep lists (.addRequestToQueue record)) staleList false := by
  obtain ⟨created, notQueued⟩ := fresh
  have linked := holds.queue.isLinked
  have live := holds.requestsLive record created notQueued
  have notLinked : record ∉ lists.queue := fun member => notQueued (holds.records record member)
  obtain ⟨requests, head, done, longer, kept⟩ := addRequestToQueue_ok linked live notLinked
  refine ⟨{ state with
    mgr := { state.mgr with
      requests, requestQueueList := head, requestQueueTail := some record }
    queued := state.queued ++ [record] }, ?_, holds.list, .linked longer, holds.taken,
    holds.counter, holds.nodes, ?_, holds.allocated, holds.createdLive, ?_, holds.bounded,
    holds.distinct⟩
  · simp only [callOp, done, bind, Except.bind]
  · intro p member
    rcases List.mem_append.mp member with old | new
    · exact List.mem_append_left _ (holds.records p old)
    · exact List.mem_append_right _ new
  · intro p member missing
    refine (FieldOnly.live kept p).mpr (holds.requestsLive p member ?_)
    intro old
    exact missing (List.mem_append_left _ old)

theorem callOp_addRequestToQueue_stale (holds : CallsHold state lists staleList true)
    {record : Nat} (fresh : Fresh state (.addRequestToQueue record)) :
    callOp state (.addRequestToQueue record) = .error .useAfterFree := by
  have live := holds.requestsLive record fresh.1 fresh.2
  obtain ⟨_, _, t, tail, freed⟩ := holds.queue.isStale
  have dead : ¬state.mgr.requests.Live t := fun alive => alive.2 freed
  simp only [callOp, addRequestToQueue, tail, Heap.load, Heap.store, Heap.live_set, live, dead,
    if_true, if_false, bind, Except.bind]

theorem callOp_checkQueueAndGetRequest (holds : CallsHold state lists staleList staleQueue) :
    ∃ next, callOp state .checkQueueAndGetRequest = .ok next ∧
      CallsHold next (listStep lists .checkQueueAndGetRequest) staleList staleQueue := by
  obtain ⟨nodes, queue, taken⟩ := lists
  cases staleQueue with
  | true =>
      obtain ⟨rfl, empty, _⟩ := holds.queue.isStale
      refine ⟨{ state with taken := state.taken ++ [none] }, ?_, holds.list, holds.queue, ?_,
        holds.counter, holds.nodes, holds.records, holds.allocated, holds.createdLive,
        holds.requestsLive, holds.bounded, holds.distinct⟩
      · simp only [callOp, checkQueueAndGetRequest, empty, bind, Except.bind]
      · simp [listStep, holds.taken]
  | false =>
      cases queue with
      | nil =>
          have checked := checkQueueAndGetRequest_nil holds.queue.isLinked
          refine ⟨{ state with taken := state.taken ++ [none] }, ?_, holds.list, holds.queue, ?_,
            holds.counter, holds.nodes, holds.records, holds.allocated, holds.createdLive,
            holds.requestsLive, holds.bounded, holds.distinct⟩
          · simp only [callOp, checked, bind, Except.bind]
          · simp [listStep, holds.taken]
      | cons record rest =>
          obtain ⟨head, tail, checked, shorter⟩ :=
            checkQueueAndGetRequest_cons holds.queue.isLinked
          refine ⟨{ state with
            mgr := { state.mgr with requestQueueList := head, requestQueueTail := tail }
            taken := state.taken ++ [some record] }, ?_, holds.list, .linked shorter, ?_,
            holds.counter, holds.nodes, ?_, holds.allocated, holds.createdLive,
            holds.requestsLive, holds.bounded, holds.distinct⟩
          · simp only [callOp, checked, bind, Except.bind]
          · simp [listStep, holds.taken]
          · intro p member
            exact holds.records p (List.mem_cons_of_mem record member)

/-- An operation that a stale tail pointer does not reach. -/
def Avoids (staleList staleQueue : Bool) (op : ListOp) : Prop :=
  (staleList = true → ¬op.AddsNode) ∧ (staleQueue = true → ¬op.AddsRequest)

theorem avoids_sound (op : ListOp) : Avoids false false op := ⟨by simp, by simp⟩

theorem callOp_ok (holds : CallsHold state lists staleList staleQueue) {op : ListOp}
    (fresh : Fresh state op) (avoids : Avoids staleList staleQueue op) :
    ∃ next, callOp state op = .ok next ∧
      CallsHold next (listStep lists op) staleList staleQueue := by
  cases op with
  | createNode transData => exact callOp_createNode holds fresh
  | addNodeToList node =>
      cases staleList with
      | true => exact absurd trivial (avoids.1 rfl)
      | false => exact callOp_addNodeToList holds fresh
  | createRequestQueueItem jsonReq method termId =>
      exact callOp_createRequestQueueItem holds fresh
  | addRequestToQueue record =>
      cases staleQueue with
      | true => exact absurd trivial (avoids.2 rfl)
      | false => exact callOp_addRequestToQueue holds fresh
  | checkQueueAndGetRequest => exact callOp_checkQueueAndGetRequest holds

theorem callOp_reaches_freed (holds : CallsHold state lists staleList staleQueue) {op : ListOp}
    (fresh : Fresh state op) (reaches : ¬Avoids staleList staleQueue op) :
    callOp state op = .error .useAfterFree := by
  simp only [Avoids, not_and_or, Classical.not_imp, not_not] at reaches
  rcases reaches with ⟨rfl, adds⟩ | ⟨rfl, adds⟩
  · cases op with
    | addNodeToList node => exact callOp_addNodeToList_stale holds fresh
    | _ => cases adds
  · cases op with
    | addRequestToQueue record => exact callOp_addRequestToQueue_stale holds fresh
    | _ => cases adds

end Steps

/-! Whole sequences. -/

theorem callOps_ok {state : Calls} {lists : Lists} {staleList staleQueue : Bool}
    {ops : List ListOp} (holds : CallsHold state lists staleList staleQueue)
    (fresh : Along callOp Fresh state ops) (avoids : ∀ op ∈ ops, Avoids staleList staleQueue op) :
    ∃ final, runFrom callOp state ops = .ok final ∧
      CallsHold final (ops.foldl listStep lists) staleList staleQueue := by
  have allowed := along_and.mpr ⟨fresh, along_of_forall avoids state⟩
  have simulates : ∀ state lists op, CallsHold state lists staleList staleQueue →
      Fresh state op ∧ Avoids staleList staleQueue op → ∃ next, callOp state op = .ok next ∧
        CallsHold next (listStep lists op) staleList staleQueue :=
    fun _ _ _ holds now => callOp_ok holds now.1 now.2
  exact runFrom_simulates listStep lists simulates holds allowed

theorem callOps_reach_freed {state : Calls} {lists : Lists} {staleList staleQueue : Bool}
    {ops : List ListOp} (holds : CallsHold state lists staleList staleQueue)
    (fresh : Along callOp Fresh state ops) (reaches : ∃ op ∈ ops, ¬Avoids staleList staleQueue op) :
    runFrom callOp state ops = .error .useAfterFree := by
  induction ops generalizing state lists with
  | nil => simp at reaches
  | cons op rest ih =>
      obtain ⟨now, later⟩ := fresh
      by_cases avoids : Avoids staleList staleQueue op
      · obtain ⟨next, taken, nextHolds⟩ := callOp_ok holds now avoids
        obtain ⟨bad, member, badReaches⟩ := reaches
        have inside : bad ∈ rest := by
          rcases List.mem_cons.mp member with rfl | inside
          · exact absurd avoids badReaches
          · exact inside
        simp only [runFrom, taken, bind, Except.bind]
        exact ih nextHolds (later next taken) ⟨bad, inside, badReaches⟩
      · simp only [runFrom, callOp_reaches_freed holds now avoids, bind, Except.bind]

theorem freeNodeList_holds {state : Calls} {lists : Lists}
    (holds : CallsHold state lists false false) :
    ∃ freed, freeNodeList state.mgr = .ok freed ∧
      CallsHold { state with mgr := freed } { nodes := [], queue := [], taken := state.taken }
        state.mgr.termList.isSome state.mgr.requestQueueList.isSome := by
  have list := holds.list.isLinked
  have queue := holds.queue.isLinked
  obtain ⟨terminals, requests, done, terms, reqs⟩ := freeNodeList_chains list.chain queue.chain
  refine ⟨_, done, Tailed.of_released list terms, Tailed.of_released queue reqs, rfl,
    holds.counter, by simp, by simp, ?_, ?_, ?_, ?_, ?_⟩
  · intro p member
    change p < terminals.brk
    rw [terms.brk]
    exact holds.allocated p member
  · intro p member missing
    refine (terms.live p).mpr ⟨holds.createdLive p member missing, ?_⟩
    exact fun inside => missing (holds.nodes p inside).1
  · intro p member missing
    refine (reqs.live p).mpr ⟨holds.requestsLive p member missing, ?_⟩
    exact fun inside => missing (holds.records p inside)
  · simp only [terms.content]
    exact holds.bounded
  · simp only [terms.content]
    exact holds.distinct

/-- After `freeNodeList` the lists behave as empty ones exactly when the list of terminals was empty
or no node is added, and the queue was empty or no record is added. -/
theorem lists_after_free_iff {mgr : EquipmentMgr} {history : List ListOp} {before : Calls}
    (fresh : Along callOp Fresh (Calls.start mgr) history)
    (reached : runFrom callOp (Calls.start mgr) history = .ok before) :
    ∃ freed, freeNodeList before.mgr = .ok freed ∧
      ∀ ops, Along callOp Fresh { before with mgr := freed } ops →
        (BehavesEmpty { before with mgr := freed } ops ↔
          (before.mgr.termList = none ∨ ∀ op ∈ ops, ¬op.AddsNode) ∧
          (before.mgr.requestQueueList = none ∨ ∀ op ∈ ops, ¬op.AddsRequest)) := by
  obtain ⟨final, done, holds⟩ := callOps_ok (CallsHold.start mgr) fresh fun op _ => avoids_sound op
  cases done.symm.trans reached
  obtain ⟨freed, freedOk, emptied⟩ := freeNodeList_holds holds
  refine ⟨freed, freedOk, fun ops later => ?_⟩
  have avoids : (∀ op ∈ ops,
      Avoids before.mgr.termList.isSome before.mgr.requestQueueList.isSome op) ↔
      (before.mgr.termList = none ∨ ∀ op ∈ ops, ¬op.AddsNode) ∧
        (before.mgr.requestQueueList = none ∨ ∀ op ∈ ops, ¬op.AddsRequest) := by
    cases before.mgr.termList <;> cases before.mgr.requestQueueList <;>
      simp [Avoids, forall_and]
  rw [← avoids]
  constructor
  · rintro ⟨last, ran, _⟩
    by_contra bad
    simp only [not_forall] at bad
    obtain ⟨op, member, reaches⟩ := bad
    rw [callOps_reach_freed emptied later ⟨op, member, reaches⟩] at ran
    cases ran
  · intro all
    obtain ⟨last, ran, lastHolds⟩ := callOps_ok emptied later all
    exact ⟨last, ran, lastHolds.taken, lastHolds.lookup⟩

/-- A terminal in the list and a record in the queue. -/
def bothFilled : List ListOp :=
  [.createNode (lit "x"), .addNodeToList 0, .createRequestQueueItem (lit "") (lit "GET") 1,
    .addRequestToQueue 0]

def freedAfter (history : List ListOp) : Except Fault (Calls × Calls) := do
  let before ← runFrom callOp (Calls.start EquipmentMgr.blank) history
  let freed ← freeNodeList before.mgr
  .ok (before, { before with mgr := freed })

theorem lists_after_free_created :
    ∃ before freed, freedAfter bothFilled = .ok (before, freed) ∧
      before.mgr.termList = some 0 ∧ before.mgr.requestQueueList = some 0 ∧
      BehavesEmpty freed [.createNode (lit "y"), .checkQueueAndGetRequest] ∧
      ¬BehavesEmpty freed [.createNode (lit "y"), .addNodeToList 1] ∧
      ¬BehavesEmpty freed
        [.createRequestQueueItem (lit "") (lit "GET") 1, .addRequestToQueue 1] := by
  have fresh : Along callOp Fresh (Calls.start EquipmentMgr.blank) bothFilled := by
    decide +kernel
  obtain ⟨before, reached, _⟩ :=
    callOps_ok (CallsHold.start EquipmentMgr.blank) fresh fun op _ => avoids_sound op
  obtain ⟨freed, done, behaves⟩ := lists_after_free_iff fresh reached
  have ended : freedAfter bothFilled = .ok (before, { before with mgr := freed }) := by
    simp only [freedAfter, reached, done, bind, Except.bind]
  have read : (freedAfter bothFilled).map (fun state =>
      (state.1.mgr.termList, state.1.mgr.requestQueueList,
        decide (Along callOp Fresh state.2 [.createNode (lit "y"), .checkQueueAndGetRequest]),
        decide (Along callOp Fresh state.2 [.createNode (lit "y"), .addNodeToList 1]),
        decide (Along callOp Fresh state.2
          [.createRequestQueueItem (lit "") (lit "GET") 1, .addRequestToQueue 1]))) =
      .ok (some 0, some 0, true, true, true) := by
    decide +kernel
  rw [ended] at read
  simp only [Except.map, Except.ok.injEq, Prod.mk.injEq, decide_eq_true_eq] at read
  obtain ⟨term, request, reads, addsNode, addsRequest⟩ := read
  refine ⟨before, _, ended, term, request, (behaves _ reads).mpr ?_, fun empty => ?_,
    fun empty => ?_⟩
  · simp [ListOp.AddsNode, ListOp.AddsRequest]
  · have avoided := ((behaves _ addsNode).mp empty).1
    simp [term, ListOp.AddsNode] at avoided
  · have avoided := ((behaves _ addsRequest).mp empty).2
    simp [request, ListOp.AddsRequest] at avoided

def addAfterFree : Except Fault Calls := do
  let before ← runFrom callOp (Calls.start EquipmentMgr.blank)
    [.createNode (lit "x"), .addNodeToList 0]
  let freed ← freeNodeList before.mgr
  runFrom callOp { before with mgr := freed } [.createNode (lit "y"), .addNodeToList 1]

theorem addAfterFree_reaches_freed : addAfterFree.map Calls.added = .error .useAfterFree := by
  decide +kernel

end SmartPay
