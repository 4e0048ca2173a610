import SmartPay.DatabaseChecks

/-!
One request record through the manager: creating it, queueing it, taking it out,
serving it and giving it up. Serving refines one step of the reference service.
At the end the manager gives up both lists.
-/

namespace SmartPay

open CLib

structure RecordHolds (item : RequestQueueItem) (request : Request) : Prop where
  method : item.method.cstr = .ok request.method
  json : item.json.cstr = .ok request.json
  termId : item.termId = request.termId

def RecordsKept : Heap RequestQueueItem → Heap RequestQueueItem → Prop :=
  FieldOnly fun next item => { item with next }

def QueueList (mgr : EquipmentMgr) (nodes : List Nat) : Prop :=
  Linked mgr.requests RequestQueueItem.next mgr.requestQueueList mgr.requestQueueTail nodes

theorem RecordsKept.setNext (requests : Heap RequestQueueItem) (p : Nat) (next : Option Nat) :
    RecordsKept requests (requests.set p { requests.content p with next }) :=
  FieldOnly.set RequestQueueItem.next (fun _ => rfl) requests p next

theorem RecordsKept.holds {before after : Heap RequestQueueItem} (kept : RecordsKept before after)
    {q : Nat} {request : Request} (holds : RecordHolds (before.content q) request) :
    RecordHolds (after.content q) request := by
  obtain ⟨next, same⟩ := kept.data q
  rw [same]
  exact ⟨holds.method, holds.json, holds.termId⟩

/-! The queue. -/

theorem createRequestQueueItem_ok (mgr : EquipmentMgr) {jsonReq method : Text} (termId : Int)
    (isResponseReady : Bool) (jsonFits : jsonReq.length < dataSize)
    (methodFits : method.length < methodSize) :
    ∃ item, createRequestQueueItem mgr jsonReq method termId isResponseReady =
        .ok ({ mgr with requests := mgr.requests.malloc.1.set mgr.requests.brk item },
          mgr.requests.brk) ∧
      item.json.cstr = .ok jsonReq ∧ item.method.cstr = .ok method ∧ item.termId = termId ∧
      item.isResponseReady = isResponseReady := by
  have live : mgr.requests.malloc.1.Live mgr.requests.brk :=
    (mgr.requests.live_malloc _).mpr (Or.inr rfl)
  obtain ⟨json, jsonOk, jsonText⟩ :=
    (mgr.requests.content mgr.requests.brk).json.print_zero_ok jsonFits
  obtain ⟨name, nameOk, nameText⟩ :=
    (mgr.requests.content mgr.requests.brk).method.print_zero_ok methodFits
  refine ⟨{ mgr.requests.content mgr.requests.brk with
    json, method := name, termId, isResponseReady }, ?_, jsonText, nameText, rfl, rfl⟩
  simp only [createRequestQueueItem, Heap.malloc_address, Heap.load_ok live, Heap.malloc_content,
    Heap.store_ok live, bind, Except.bind, jsonOk, nameOk]

theorem createRequestQueueItem_error {mgr : EquipmentMgr} {jsonReq method : Text} {termId : Int}
    {isResponseReady : Bool} {fault : Fault}
    (failed : createRequestQueueItem mgr jsonReq method termId isResponseReady = .error fault) :
    fault = .overflow := by
  have live : mgr.requests.malloc.1.Live mgr.requests.brk :=
    (mgr.requests.live_malloc _).mpr (Or.inr rfl)
  simp only [createRequestQueueItem, Heap.malloc_address, Heap.load_ok live, Heap.store_ok live]
    at failed
  rcases bind_eq_error.mp failed with loaded | ⟨item, _, failed⟩
  · cases loaded
  rcases bind_eq_error.mp failed with printed | ⟨json, _, failed⟩
  · exact Buf.print_error printed
  rcases bind_eq_error.mp failed with printed | ⟨name, _, failed⟩
  · exact Buf.print_error printed
  · cases failed

theorem createRequestQueueItem_inv {mgr created : EquipmentMgr} {jsonReq method : Text}
    {termId : Int} {isResponseReady : Bool} {p : Nat}
    (done : createRequestQueueItem mgr jsonReq method termId isResponseReady = .ok (created, p)) :
    ∃ item, created = { mgr with requests := mgr.requests.malloc.1.set mgr.requests.brk item } ∧
      p = mgr.requests.brk ∧ item.json.cstr = .ok jsonReq ∧ item.method.cstr = .ok method ∧
      item.termId = termId ∧ item.isResponseReady = isResponseReady := by
  obtain ⟨item, _, done⟩ := bind_eq_ok.mp done
  obtain ⟨json, jsonOk, done⟩ := bind_eq_ok.mp done
  obtain ⟨name, nameOk, done⟩ := bind_eq_ok.mp done
  obtain ⟨requests, stored, done⟩ := bind_eq_ok.mp done
  cases done
  obtain ⟨_, rfl⟩ := Heap.store_eq_ok stored
  exact ⟨_, rfl, rfl, Buf.print_zero_cstr jsonOk, Buf.print_zero_cstr nameOk, rfl, rfl⟩

theorem methodName_fits (request : Request) : request.method.length < methodSize := by
  cases request
  · exact (by decide : (lit "GET").length < methodSize)
  · exact (by decide : (lit "POST").length < methodSize)

theorem addRequestToQueue_ok {mgr : EquipmentMgr} {nodes : List Nat} {p : Nat}
    (queue : QueueList mgr nodes) (live : mgr.requests.Live p) (fresh : p ∉ nodes) :
    ∃ requests list, addRequestToQueue mgr p = .ok { mgr with
        requests, requestQueueList := list, requestQueueTail := some p } ∧
      Linked requests RequestQueueItem.next list (some p) (nodes ++ [p]) ∧
      RecordsKept mgr.requests requests := by
  let ended := mgr.requests.set p { mgr.requests.content p with next := none }
  cases tailEq : mgr.requestQueueTail with
  | none =>
      have linked := queue
      rw [QueueList, tailEq] at linked
      refine ⟨ended, some p, ?_, linked.first live rfl, RecordsKept.setNext _ p none⟩
      simp only [addRequestToQueue, tailEq, Heap.load, Heap.store, live, if_true, bind, Except.bind,
        ended]
  | some tail =>
      have linked := queue
      rw [QueueList, tailEq] at linked
      have tailLive : mgr.requests.Live tail :=
        linked.chain.live tail (List.mem_of_getLast? linked.last.symm)
      refine ⟨ended.set tail { ended.content tail with next := some p }, mgr.requestQueueList, ?_,
        linked.append live fresh rfl rfl,
        (RecordsKept.setNext _ p none).trans (RecordsKept.setNext _ tail (some p)) fun _ _ _ => rfl⟩
      simp only [addRequestToQueue, tailEq, Heap.load, Heap.store, Heap.live_set, live, tailLive,
        if_true, bind, Except.bind, Heap.set_content_same, ended]

theorem addRequestToQueue_runs {mgr : EquipmentMgr} {p : Nat} (live : mgr.requests.Live p)
    (tail : ∀ t, mgr.requestQueueTail = some t → mgr.requests.Live t) :
    ∃ added, addRequestToQueue mgr p = .ok added := by
  cases done : addRequestToQueue mgr p with
  | ok added => exact ⟨added, rfl⟩
  | error fault =>
      cases tailEq : mgr.requestQueueTail with
      | none =>
          simp only [addRequestToQueue, tailEq, Heap.load_ok live, Heap.store_ok live, bind,
            Except.bind] at done
          cases done
      | some t =>
          have tailLive := tail t tailEq
          simp only [addRequestToQueue, tailEq, Heap.load, Heap.store, Heap.live_set, live,
            tailLive, if_true, bind, Except.bind] at done
          cases done

/-- The queue after an addition. Without a tail the head is overwritten, and a record that is
linked behind one of another list does not come into this one. -/
def queueAfter (tail : Option Nat) (nodes : List Nat) (p : Nat) : List Nat :=
  match tail with
  | none => [p]
  | some t => if t ∈ nodes then nodes ++ [p] else nodes

theorem addRequestToQueue_tail {mgr added : EquipmentMgr} {p : Nat}
    (done : addRequestToQueue mgr p = .ok added) : added.requestQueueTail = some p := by
  simp only [addRequestToQueue] at done
  split at done
  · obtain ⟨item, _, done⟩ := bind_eq_ok.mp done
    obtain ⟨requests, _, done⟩ := bind_eq_ok.mp done
    cases done
    rfl
  · obtain ⟨item, _, done⟩ := bind_eq_ok.mp done
    obtain ⟨requests, _, done⟩ := bind_eq_ok.mp done
    obtain ⟨last, _, done⟩ := bind_eq_ok.mp done
    obtain ⟨joined, stored, done⟩ := bind_eq_ok.mp done
    obtain ⟨again, loaded, done⟩ := bind_eq_ok.mp done
    cases done
    obtain ⟨_, rfl⟩ := Heap.store_eq_ok stored
    obtain ⟨_, rfl⟩ := Heap.load_eq_ok loaded
    rw [Heap.set_content_same]

theorem addRequestToQueue_chain {mgr added : EquipmentMgr} {nodes : List Nat} {p : Nat}
    (chain : Chain mgr.requests RequestQueueItem.next mgr.requestQueueList nodes)
    (fresh : p ∉ nodes)
    (last : ∀ t ∈ nodes, mgr.requestQueueTail = some t → nodes.getLast? = some t)
    (done : addRequestToQueue mgr p = .ok added) :
    Chain added.requests RequestQueueItem.next added.requestQueueList
      (queueAfter mgr.requestQueueTail nodes p) := by
  cases tailEq : mgr.requestQueueTail with
  | none =>
      simp only [addRequestToQueue, tailEq] at done
      obtain ⟨item, loaded, done⟩ := bind_eq_ok.mp done
      obtain ⟨live, rfl⟩ := Heap.load_eq_ok loaded
      simp only [Heap.store_ok live, bind, Except.bind] at done
      cases done
      refine ⟨rfl, live, ?_⟩
      rw [Heap.set_content_same]
      exact rfl
  | some t =>
      simp only [addRequestToQueue, tailEq] at done
      obtain ⟨item, loaded, done⟩ := bind_eq_ok.mp done
      obtain ⟨live, rfl⟩ := Heap.load_eq_ok loaded
      simp only [Heap.store_ok live, ok_bind] at done
      obtain ⟨before, tailLoaded, done⟩ := bind_eq_ok.mp done
      obtain ⟨tailLive, rfl⟩ := Heap.load_eq_ok tailLoaded
      simp only [Heap.store_ok tailLive, ok_bind] at done
      obtain ⟨after, reloaded, done⟩ := bind_eq_ok.mp done
      obtain ⟨_, rfl⟩ := Heap.load_eq_ok reloaded
      cases done
      simp only [queueAfter]
      split
      · rename_i inside
        have whole : Linked mgr.requests RequestQueueItem.next mgr.requestQueueList (some t)
            nodes := ⟨chain, (last t inside tailEq).symm⟩
        exact (whole.append live fresh rfl rfl).chain
      · rename_i outside
        refine chain.congr (fun q member => chain.live q member) fun q member => ?_
        have notTail : q ≠ t := fun same => outside (same ▸ member)
        have notNew : q ≠ p := fun same => fresh (same ▸ member)
        rw [Heap.set_content_ne _ _ notTail, Heap.set_content_ne _ _ notNew]

theorem addRequestToQueue_frame {mgr next : EquipmentMgr} {p : Nat}
    (done : addRequestToQueue mgr p = .ok next) : StoreSame mgr next := by
  simp only [addRequestToQueue] at done
  split at done
  · obtain ⟨item, _, done⟩ := bind_eq_ok.mp done
    obtain ⟨requests, _, done⟩ := bind_eq_ok.mp done
    cases done
    exact ⟨rfl, rfl, rfl, rfl, rfl⟩
  · obtain ⟨item, _, done⟩ := bind_eq_ok.mp done
    obtain ⟨requests, _, done⟩ := bind_eq_ok.mp done
    obtain ⟨last, _, done⟩ := bind_eq_ok.mp done
    obtain ⟨joined, _, done⟩ := bind_eq_ok.mp done
    obtain ⟨again, _, done⟩ := bind_eq_ok.mp done
    cases done
    exact ⟨rfl, rfl, rfl, rfl, rfl⟩

theorem checkQueueAndGetRequest_nil {mgr : EquipmentMgr} (queue : QueueList mgr []) :
    checkQueueAndGetRequest mgr = .ok (mgr, none) := by
  have empty : mgr.requestQueueList = none := queue.chain
  simp only [checkQueueAndGetRequest, empty]

theorem checkQueueAndGetRequest_cons {mgr : EquipmentMgr} {p : Nat} {nodes : List Nat}
    (queue : QueueList mgr (p :: nodes)) :
    ∃ list tail, checkQueueAndGetRequest mgr =
        .ok ({ mgr with requestQueueList := list, requestQueueTail := tail }, some p) ∧
      Linked mgr.requests RequestQueueItem.next list tail nodes := by
  have head : mgr.requestQueueList = some p := queue.chain.1
  have live := queue.chain.live p (by simp)
  refine ⟨_, _, ?_, queue.drop⟩
  simp only [checkQueueAndGetRequest, head, Heap.load_ok live, bind, Except.bind]
  by_cases last : some p = mgr.requestQueueTail
  · rw [if_pos last, if_pos last]
  · rw [if_neg last, if_neg last]

/-- Taking a record out needs no more than the chain, and leaves the tail pointer at the last record
if it was there. -/
theorem checkQueueAndGetRequest_chain {mgr : EquipmentMgr} {p : Nat} {nodes : List Nat}
    (chain : Chain mgr.requests RequestQueueItem.next mgr.requestQueueList (p :: nodes)) :
    ∃ list tail, checkQueueAndGetRequest mgr =
        .ok ({ mgr with requestQueueList := list, requestQueueTail := tail }, some p) ∧
      Chain mgr.requests RequestQueueItem.next list nodes ∧
      (mgr.requestQueueTail = none → tail = none) ∧
      (mgr.requestQueueTail = (p :: nodes).getLast? → tail = nodes.getLast?) := by
  have head : mgr.requestQueueList = some p := chain.1
  have live := chain.live p (by simp)
  by_cases last : some p = mgr.requestQueueTail
  · refine ⟨_, (mgr.requests.content p).next, ?_, chain.2.2, ?_, fun tail => ?_⟩
    · simp only [checkQueueAndGetRequest, head, Heap.load_ok live, bind, Except.bind]
      rw [if_pos last]
    · rw [← last]
      exact fun absent => absurd absent (by simp)
    · have whole : Linked mgr.requests RequestQueueItem.next (some p) (some p) (p :: nodes) :=
        ⟨⟨rfl, chain.2⟩, last.trans tail⟩
      have shorter := whole.drop.last
      rwa [if_pos rfl] at shorter
  · refine ⟨_, mgr.requestQueueTail, ?_, chain.2.2, id, fun tail => ?_⟩
    · simp only [checkQueueAndGetRequest, head, Heap.load_ok live, bind, Except.bind]
      rw [if_neg last]
    · have whole : Linked mgr.requests RequestQueueItem.next (some p) mgr.requestQueueTail
          (p :: nodes) := ⟨⟨rfl, chain.2⟩, tail⟩
      have shorter := whole.drop.last
      rwa [if_neg last] at shorter

theorem checkQueueAndGetRequest_frame {mgr next : EquipmentMgr} {record : Option Nat}
    (done : checkQueueAndGetRequest mgr = .ok (next, record)) :
    next.requests = mgr.requests ∧ StoreSame mgr next := by
  simp only [checkQueueAndGetRequest] at done
  split at done
  · cases done
    exact ⟨rfl, rfl, rfl, rfl, rfl, rfl⟩
  · obtain ⟨item, _, done⟩ := bind_eq_ok.mp done
    split at done
    · cases done
      exact ⟨rfl, rfl, rfl, rfl, rfl, rfl⟩
    · cases done
      exact ⟨rfl, rfl, rfl, rfl, rfl, rfl⟩

theorem setResponseReady_ok {mgr : EquipmentMgr} {p : Nat} (live : mgr.requests.Live p) :
    setResponseReady mgr p = .ok { mgr with
      requests := mgr.requests.set p { mgr.requests.content p with isResponseReady := true } } := by
  simp only [setResponseReady, Heap.load_ok live, Heap.store_ok live, bind, Except.bind]

theorem freeRequest_ok {mgr : EquipmentMgr} {p : Nat} (live : mgr.requests.Live p) :
    freeRequest mgr p = .ok { mgr with requests := mgr.requests.release p live } := by
  simp only [freeRequest, Heap.free_ok live, bind, Except.bind]

theorem get_ne_post : lit "POST" ≠ lit "GET" := by decide

/-! Serving. -/

/-- The request can be served: its reply fits the record, or its id fits an `int`. -/
def Answerable (texts : List Text) : Request → Prop
  | .get termId _ => (getReply texts termId).length < dataSize
  | .post _ => (texts.length : Int) < intMax

def overflowOf : Request → Fault
  | .get _ _ => .overflow
  | .post _ => .intOverflow

/-- The state after serving a record: the service's store, and its reply in the record. -/
structure Served (mgr served : EquipmentMgr) (p : Nat) (texts : List Text) (request : Request) :
    Prop where
  store : Stores served (serviceStep texts request).1
  requests : ∃ json, json.cstr = .ok (serviceStep texts request).2 ∧
    served.requests = mgr.requests.set p { mgr.requests.content p with json }
  list : served.requestQueueList = mgr.requestQueueList
  tail : served.requestQueueTail = mgr.requestQueueTail
  flag : served.sigEqMgrFlag = mgr.sigEqMgrFlag

theorem handleRequest_ok {mgr : EquipmentMgr} {texts : List Text} {p : Nat} {request : Request}
    (store : Stores mgr texts) (live : mgr.requests.Live p)
    (holds : RecordHolds (mgr.requests.content p) request) (locals : MgrLocals)
    (answerable : Answerable texts request) :
    ∃ served, handleRequest mgr locals p = .ok served ∧ Served mgr served p texts request := by
  obtain ⟨method, json, termId⟩ := holds
  cases request with
  | get id leftover =>
      have read := readFromDb_decided store id locals.tempTransHolder
        (mgr.requests.content p).json locals.errMsg
      have short : (getReply texts id).length < dataSize := answerable
      rw [if_pos short] at read
      obtain ⟨⟨status, filled, message⟩, done, result⟩ := read
      have ended (final : Buf dataSize) (text : final.cstr = .ok (getReply texts id)) :
          Served mgr { mgr with
            requests := mgr.requests.set p { mgr.requests.content p with json := final } }
            p texts (.get id leftover) :=
        ⟨store.congr ⟨rfl, rfl, rfl, rfl, rfl⟩, ⟨final, text, rfl⟩, rfl, rfl, rfl⟩
      cases status with
      | success =>
          refine ⟨_, ?_, ended filled result⟩
          simp only [handleRequest, Heap.load_ok live, Heap.store_ok live, bind, Except.bind, method,
            Request.method, if_true, termId, Request.termId, done]
      | fail =>
          obtain ⟨rfl, text, reply⟩ := result
          obtain ⟨copied, copiedOk, copiedText⟩ :=
            (mgr.requests.content p).json.print_zero_ok short
          refine ⟨_, ?_, ended copied copiedText⟩
          simp only [handleRequest, Heap.load_ok live, Heap.store_ok live, bind, Except.bind, method,
            Request.method, if_true, termId, Request.termId, done, text, copiedOk]
  | post text =>
      obtain ⟨written, reply, done, stored, replyText, same⟩ :=
        writeToDb_ok store answerable locals.tempDataHolder json
      refine ⟨{ written with
        requests := written.requests.set p { mgr.requests.content p with json := reply } }, ?_,
        stored.congr ⟨rfl, rfl, rfl, rfl, rfl⟩, ⟨reply, replyText, by rw [same.requests]⟩, same.list,
        same.tail, same.flag⟩
      have liveAfter : written.requests.Live p := by
        rw [same.requests]
        exact live
      simp only [handleRequest, Heap.load_ok live, Heap.store_ok liveAfter, bind, Except.bind,
        method, Request.method, get_ne_post, if_false, if_true, done]

theorem handleRequest_overflow {mgr : EquipmentMgr} {texts : List Text} {p : Nat}
    {request : Request} (store : Stores mgr texts) (live : mgr.requests.Live p)
    (holds : RecordHolds (mgr.requests.content p) request) (locals : MgrLocals)
    (unanswerable : ¬Answerable texts request) :
    handleRequest mgr locals p = .error (overflowOf request) := by
  obtain ⟨method, json, termId⟩ := holds
  cases request with
  | get id leftover =>
      have read := readFromDb_decided store id locals.tempTransHolder
        (mgr.requests.content p).json locals.errMsg
      have tooLong : ¬(getReply texts id).length < dataSize := unanswerable
      rw [if_neg tooLong] at read
      simp only [handleRequest, Heap.load_ok live, bind, Except.bind, method, Request.method,
        if_true, termId, Request.termId, read, overflowOf]
  | post text =>
      have full : (texts.length : Int) = intMax :=
        Int.le_antisymm store.bounded (Int.not_lt.mp unanswerable)
      simp only [handleRequest, Heap.load_ok live, bind, Except.bind, method, Request.method,
        get_ne_post, if_false, if_true, writeToDb_full store full locals.tempDataHolder json,
        overflowOf]

/-! What serving leaves alone, whatever the store looks like. -/

theorem createNode_frame {mgr created : EquipmentMgr} {transData : Text} {p : Nat}
    (done : createNode mgr transData = .ok (created, p)) : QueueSame mgr created := by
  simp only [createNode] at done
  split at done
  · cases done
  · obtain ⟨node, _, done⟩ := bind_eq_ok.mp done
    obtain ⟨transactions, _, done⟩ := bind_eq_ok.mp done
    obtain ⟨terminals, _, done⟩ := bind_eq_ok.mp done
    cases done
    exact ⟨rfl, rfl, rfl, rfl⟩

theorem createTerminalFromJson_frame {mgr created : EquipmentMgr} {json : Text} {p : Nat}
    (done : createTerminalFromJson mgr json = .ok (created, p)) : QueueSame mgr created := by
  obtain ⟨⟨middle, newNode⟩, first, done⟩ := bind_eq_ok.mp done
  obtain ⟨node, _, done⟩ := bind_eq_ok.mp done
  obtain ⟨transactions, _, done⟩ := bind_eq_ok.mp done
  obtain ⟨terminals, _, done⟩ := bind_eq_ok.mp done
  cases done
  have same := createNode_frame first
  exact ⟨same.requests, same.list, same.tail, same.flag⟩

theorem addNodeToList_frame {mgr added : EquipmentMgr} {p : Nat} {id : Int}
    (done : addNodeToList mgr p = .ok (added, id)) : QueueSame mgr added := by
  obtain ⟨node, _, done⟩ := bind_eq_ok.mp done
  obtain ⟨terminals, _, done⟩ := bind_eq_ok.mp done
  split at done
  · cases done
    exact ⟨rfl, rfl, rfl, rfl⟩
  · obtain ⟨last, _, done⟩ := bind_eq_ok.mp done
    obtain ⟨joined, _, done⟩ := bind_eq_ok.mp done
    cases done
    exact ⟨rfl, rfl, rfl, rfl⟩

theorem writeToDb_frame {mgr written : EquipmentMgr} {tempDataHolder json reply : Buf dataSize}
    (done : writeToDb mgr tempDataHolder json = .ok (written, reply)) : QueueSame mgr written := by
  obtain ⟨text, _, done⟩ := bind_eq_ok.mp done
  obtain ⟨⟨created, newNode⟩, first, done⟩ := bind_eq_ok.mp done
  obtain ⟨⟨added, id⟩, second, done⟩ := bind_eq_ok.mp done
  obtain ⟨node, _, done⟩ := bind_eq_ok.mp done
  obtain ⟨holder, _, done⟩ := bind_eq_ok.mp done
  obtain ⟨held, _, done⟩ := bind_eq_ok.mp done
  obtain ⟨printed, _, done⟩ := bind_eq_ok.mp done
  cases done
  have before := createTerminalFromJson_frame first
  have after := addNodeToList_frame second
  exact ⟨after.requests.trans before.requests, after.list.trans before.list,
    after.tail.trans before.tail, after.flag.trans before.flag⟩

theorem handleRequest_frame {mgr served : EquipmentMgr} {locals : MgrLocals} {p : Nat}
    (done : handleRequest mgr locals p = .ok served) :
    mgr.requests.Live p ∧
      (∃ json, served.requests = mgr.requests.set p { mgr.requests.content p with json }) ∧
      served.requestQueueList = mgr.requestQueueList ∧
      served.requestQueueTail = mgr.requestQueueTail ∧
      served.sigEqMgrFlag = mgr.sigEqMgrFlag := by
  obtain ⟨item, loaded, done⟩ := bind_eq_ok.mp done
  obtain ⟨live, rfl⟩ := Heap.load_eq_ok loaded
  obtain ⟨method, _, done⟩ := bind_eq_ok.mp done
  refine ⟨live, ?_⟩
  split at done
  · obtain ⟨⟨status, json, message⟩, _, done⟩ := bind_eq_ok.mp done
    obtain ⟨final, _, done⟩ := bind_eq_ok.mp done
    obtain ⟨requests, stored, done⟩ := bind_eq_ok.mp done
    cases done
    exact ⟨⟨final, (Heap.store_eq_ok stored).2.symm⟩, rfl, rfl, rfl⟩
  · split at done
    · obtain ⟨⟨written, reply⟩, wrote, done⟩ := bind_eq_ok.mp done
      obtain ⟨requests, stored, done⟩ := bind_eq_ok.mp done
      cases done
      have same := writeToDb_frame wrote
      refine ⟨⟨reply, ?_⟩, same.list, same.tail, same.flag⟩
      rw [← (Heap.store_eq_ok stored).2, same.requests]
    · cases done
      refine ⟨⟨(mgr.requests.content p).json, ?_⟩, rfl, rfl, rfl⟩
      simp [Heap.set]

/-! Releasing both lists. -/

theorem freeNodeList_chains {mgr : EquipmentMgr} {nodes records : List Nat}
    (list : Chain mgr.terminals Terminals.next mgr.termList nodes)
    (queue : Chain mgr.requests RequestQueueItem.next mgr.requestQueueList records) :
    ∃ terminals requests, freeNodeList mgr = .ok { mgr with
        terminals, requests, termList := none, requestQueueList := none } ∧
      Releases mgr.terminals terminals nodes ∧ Releases mgr.requests requests records := by
  obtain ⟨terminals, termsFreed, termsReleased⟩ := freeFrom_releases list list.length_le
  obtain ⟨requests, reqsFreed, reqsReleased⟩ := freeFrom_releases queue queue.length_le
  refine ⟨terminals, requests, ?_, termsReleased, reqsReleased⟩
  simp only [freeNodeList, termsFreed, reqsFreed, bind, Except.bind]

end SmartPay
