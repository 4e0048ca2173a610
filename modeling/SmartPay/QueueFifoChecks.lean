import SmartPay.ListCalls

/-!
The request queue as a FIFO. A record may be added again once it has been taken
out, so what is followed is the adds: those returned so far come first, in order.
-/

namespace SmartPay

open CLib

namespace Calls

def returned (state : Calls) : List Nat := state.taken.reduceOption

/-- The adds that have not been returned, oldest first. -/
def waiting (state : Calls) : List Nat := state.queued.drop state.returned.length

end Calls

/-- A call of the queue: a record is created with arguments that fit it, a record that is allocated
and does not wait is added, or the queue is checked. -/
def Requeues (state : Calls) : ListOp → Prop
  | .createRequestQueueItem jsonReq method _ =>
      jsonReq.length < dataSize ∧ method.length < methodSize
  | .addRequestToQueue record => state.mgr.requests.Live record ∧ record ∉ state.waiting
  | .checkQueueAndGetRequest => True
  | .createNode _ => False
  | .addNodeToList _ => False

instance decidableRequeues (state : Calls) : ∀ op, Decidable (Requeues state op)
  | .createRequestQueueItem _ _ _ => inferInstanceAs (Decidable (_ ∧ _))
  | .addRequestToQueue _ => inferInstanceAs (Decidable (_ ∧ _))
  | .checkQueueAndGetRequest => inferInstanceAs (Decidable True)
  | .createNode _ => inferInstanceAs (Decidable False)
  | .addNodeToList _ => inferInstanceAs (Decidable False)

/-! The invariant. -/

structure QueueHolds (state : Calls) : Prop where
  order : state.queued = state.returned ++ state.waiting
  queue : QueueList state.mgr state.waiting

theorem QueueHolds.of_split {state : Calls} {rest : List Nat}
    (order : state.queued = state.returned ++ rest) (queue : QueueList state.mgr rest) :
    QueueHolds state := by
  have same : state.waiting = rest := by rw [Calls.waiting, order, List.drop_left]
  rw [← same] at order queue
  exact ⟨order, queue⟩

theorem QueueHolds.start (mgr : EquipmentMgr) : QueueHolds (Calls.start mgr) :=
  QueueHolds.of_split rfl Linked.empty

section Steps

variable {state : Calls}

theorem callOp_createRecord (holds : QueueHolds state) {jsonReq method : Text} {termId : Int}
    (allowed : Requeues state (.createRequestQueueItem jsonReq method termId)) :
    ∃ next, callOp state (.createRequestQueueItem jsonReq method termId) = .ok next ∧
      QueueHolds next := by
  obtain ⟨item, done, _⟩ :=
    createRequestQueueItem_ok state.mgr termId false allowed.1 allowed.2
  refine ⟨{ state with
    mgr := { state.mgr with
      requests := state.mgr.requests.malloc.1.set state.mgr.requests.brk item }
    requests := state.requests ++ [state.mgr.requests.brk] }, ?_,
    QueueHolds.of_split holds.order ?_⟩
  · simp only [callOp, done, bind, Except.bind]
  · have queue : Linked _ _ _ _ _ := holds.queue
    exact queue.setFresh item

theorem callOp_addRecord (holds : QueueHolds state) {record : Nat}
    (allowed : Requeues state (.addRequestToQueue record)) :
    ∃ next, callOp state (.addRequestToQueue record) = .ok next ∧ QueueHolds next := by
  obtain ⟨requests, head, done, longer, _⟩ :=
    addRequestToQueue_ok holds.queue allowed.1 allowed.2
  refine ⟨{ state with
    mgr := { state.mgr with requests, requestQueueList := head, requestQueueTail := some record }
    queued := state.queued ++ [record] }, ?_, QueueHolds.of_split ?_ longer⟩
  · simp only [callOp, done, bind, Except.bind]
  · change state.queued ++ [record] = state.returned ++ (state.waiting ++ [record])
    rw [← List.append_assoc, ← holds.order]

theorem callOp_takeRecord (holds : QueueHolds state) :
    ∃ next, callOp state .checkQueueAndGetRequest = .ok next ∧ QueueHolds next := by
  cases waiting : state.waiting with
  | nil =>
      have queue := holds.queue
      rw [waiting] at queue
      refine ⟨{ state with taken := state.taken ++ [none] }, ?_, ?_⟩
      · simp only [callOp, checkQueueAndGetRequest_nil queue, bind, Except.bind]
      · have same : (state.taken ++ [none]).reduceOption = state.returned := by
          simp [List.reduceOption, Calls.returned]
        refine QueueHolds.of_split ?_ queue
        change state.queued = (state.taken ++ [none]).reduceOption ++ []
        rw [same, ← waiting]
        exact holds.order
  | cons record rest =>
      have queue := holds.queue
      rw [waiting] at queue
      obtain ⟨head, tail, checked, shorter⟩ := checkQueueAndGetRequest_cons queue
      refine ⟨{ state with
        mgr := { state.mgr with requestQueueList := head, requestQueueTail := tail }
        taken := state.taken ++ [some record] }, ?_, QueueHolds.of_split ?_ shorter⟩
      · simp only [callOp, checked, bind, Except.bind]
      · have longer : (state.taken ++ [some record]).reduceOption = state.returned ++ [record] := by
          simp [List.reduceOption, Calls.returned]
        change state.queued = (state.taken ++ [some record]).reduceOption ++ rest
        rw [longer, List.append_assoc, List.singleton_append, ← waiting]
        exact holds.order

theorem callOp_queue (holds : QueueHolds state) {op : ListOp} (allowed : Requeues state op) :
    ∃ next, callOp state op = .ok next ∧ QueueHolds next := by
  cases op with
  | createRequestQueueItem jsonReq method termId => exact callOp_createRecord holds allowed
  | addRequestToQueue record => exact callOp_addRecord holds allowed
  | checkQueueAndGetRequest => exact callOp_takeRecord holds
  | createNode transData => cases allowed
  | addNodeToList node => cases allowed

end Steps

/-! The refinement. -/

/-- The queue links the waiting adds, and a check returns the oldest of them. -/
structure RefinesFifo (state : Calls) : Prop where
  order : state.returned <+: state.queued
  queue : Linked state.mgr.requests RequestQueueItem.next state.mgr.requestQueueList
    state.mgr.requestQueueTail state.waiting
  together : state.mgr.requestQueueList = none ↔ state.mgr.requestQueueTail = none
  oldest : ∃ mgr, checkQueueAndGetRequest state.mgr =
    .ok (mgr, state.queued[state.returned.length]?)
  drained : (∃ mgr, checkQueueAndGetRequest state.mgr = .ok (mgr, none)) ↔
    state.returned = state.queued

theorem QueueHolds.oldest {state : Calls} (holds : QueueHolds state) :
    ∃ mgr, checkQueueAndGetRequest state.mgr =
      .ok (mgr, state.queued[state.returned.length]?) := by
  have first : state.queued[state.returned.length]? = state.waiting.head? := by
    rw [Calls.waiting, List.head?_drop]
  rw [first]
  have queue := holds.queue
  cases waiting : state.waiting with
  | nil =>
      rw [waiting] at queue
      exact ⟨_, checkQueueAndGetRequest_nil queue⟩
  | cons record rest =>
      rw [waiting] at queue
      obtain ⟨head, tail, checked, _⟩ := checkQueueAndGetRequest_cons queue
      exact ⟨_, checked⟩

theorem QueueHolds.refines {state : Calls} (holds : QueueHolds state) : RefinesFifo state := by
  have queue : Linked _ _ _ _ _ := holds.queue
  refine ⟨⟨state.waiting, holds.order.symm⟩, queue,
    queue.head_none_iff.trans queue.tail_none_iff.symm, holds.oldest, ?_⟩
  obtain ⟨mgr, checked⟩ := holds.oldest
  constructor
  · rintro ⟨other, empty⟩
    rw [checked] at empty
    simp only [Except.ok.injEq, Prod.mk.injEq, List.getElem?_eq_none_iff] at empty
    have nothing : state.waiting = [] := List.drop_eq_nil_of_le empty.2
    rw [holds.order, nothing, List.append_nil]
  · intro all
    refine ⟨mgr, ?_⟩
    rw [checked, all, List.getElem?_eq_none (Nat.le_refl _)]

/-- Whatever records are added and taken out, in whatever order and however often, every call ends
and the queue refines a FIFO. -/
theorem queue_refines_fifo {mgr : EquipmentMgr} {ops : List ListOp}
    (allowed : Along callOp Requeues (Calls.start mgr) ops) :
    ∃ final, runFrom callOp (Calls.start mgr) ops = .ok final ∧ RefinesFifo final := by
  obtain ⟨final, done, holds⟩ :=
    runFrom_total (fun _ _ holds now => callOp_queue holds now) (QueueHolds.start mgr) allowed
  exact ⟨final, done, holds.refines⟩

theorem queue_refines_fifo_again :
    ∃ final, runFrom callOp (Calls.start EquipmentMgr.blank)
        [.createRequestQueueItem (lit "x") (lit "POST") (-1), .addRequestToQueue 0,
          .checkQueueAndGetRequest, .addRequestToQueue 0, .checkQueueAndGetRequest,
          .checkQueueAndGetRequest] = .ok final ∧ RefinesFifo final :=
  queue_refines_fifo (by decide)

end SmartPay
