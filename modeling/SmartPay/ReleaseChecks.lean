import SmartPay.ReuseChecks

/-!
What `freeNodeList` releases. Both lists are walked while they are given up, and
a record that was taken out still points into the queue; the lists alone decide
what is released.
-/

namespace SmartPay

open CLib

theorem checkQueueAndGetRequest_taken {before mgr : EquipmentMgr} {waiting : List Nat} {r : Nat}
    (queue : Chain before.requests RequestQueueItem.next before.requestQueueList waiting)
    (taken : checkQueueAndGetRequest before = .ok (mgr, some r)) :
    (mgr.requests.content r).next = mgr.requestQueueList ∧ mgr.requests.Live r ∧
      ∃ rest, waiting = r :: rest ∧
        Chain mgr.requests RequestQueueItem.next mgr.requestQueueList rest := by
  cases waiting with
  | nil =>
      simp only [checkQueueAndGetRequest, show before.requestQueueList = none from queue] at taken
      cases taken
  | cons first rest =>
      obtain ⟨head, live, tail⟩ := queue
      simp only [checkQueueAndGetRequest, head, Heap.load_ok live, bind, Except.bind] at taken
      split at taken
      · cases taken
        exact ⟨rfl, live, rest, rfl, tail⟩
      · cases taken
        exact ⟨rfl, live, rest, rfl, tail⟩

/-- Lists that end in NULL are released, every node and record of them once, and nothing else: also
not a record that has been taken out and still points at the head of the queue. -/
theorem freeNodeList_releases {mgr : EquipmentMgr} {nodes records : List Nat}
    (list : Chain mgr.terminals Terminals.next mgr.termList nodes)
    (queue : Chain mgr.requests RequestQueueItem.next mgr.requestQueueList records) :
    ∃ terminals requests, freeNodeList mgr = .ok { mgr with
        terminals, requests, termList := none, requestQueueList := none } ∧
      Releases mgr.terminals terminals nodes ∧ Releases mgr.requests requests records ∧
      ∀ (before : EquipmentMgr) (waiting : List Nat) (r : Nat),
        Chain before.requests RequestQueueItem.next before.requestQueueList waiting →
        checkQueueAndGetRequest before = .ok (mgr, some r) →
          (mgr.requests.content r).next = mgr.requestQueueList ∧ requests.Live r := by
  obtain ⟨terminals, requests, done, terms, reqs⟩ := freeNodeList_chains list queue
  refine ⟨terminals, requests, done, terms, reqs, ?_⟩
  intro before waiting r waits taken
  obtain ⟨points, live, rest, rfl, remaining⟩ := checkQueueAndGetRequest_taken waits taken
  -- no chain comes back to its own first record
  have outside : r ∉ records := by
    rw [queue.unique remaining]
    exact (List.nodup_cons.mp waits.nodup).1
  exact ⟨points, (reqs.live r).mpr ⟨live, outside⟩⟩

theorem freeNodeList_releases_taken :
    ∃ before mgr terminals requests, checkQueueAndGetRequest before = .ok (mgr, some 0) ∧
      freeNodeList mgr = .ok { mgr with
        terminals, requests, termList := none, requestQueueList := none } ∧
      Releases mgr.terminals terminals [0] ∧ Releases mgr.requests requests [1] ∧
      (mgr.requests.content 0).next = mgr.requestQueueList ∧ requests.Live 0 := by
  let history : List ListOp := [.createNode (lit "x"), .addNodeToList 0,
    .createRequestQueueItem (lit "x") (lit "POST") (-1), .addRequestToQueue 0,
    .createRequestQueueItem (lit "y") (lit "POST") (-1), .addRequestToQueue 1]
  have fresh : Along callOp Fresh (Calls.start EquipmentMgr.blank) history := by decide
  obtain ⟨before, _, holds⟩ :=
    callOps_ok (CallsHold.start EquipmentMgr.blank) fresh fun op _ => avoids_sound op
  have list : Linked _ _ _ _ [0] := holds.list.isLinked
  have queue : QueueList before.mgr [0, 1] := holds.queue.isLinked
  obtain ⟨head, tail, taken, rest⟩ := checkQueueAndGetRequest_cons queue
  let mgr : EquipmentMgr := { before.mgr with requestQueueList := head, requestQueueTail := tail }
  have nodes : Chain mgr.terminals Terminals.next mgr.termList [0] := list.chain
  have records : Chain mgr.requests RequestQueueItem.next mgr.requestQueueList [1] := rest.chain
  obtain ⟨terminals, requests, done, terms, reqs, out⟩ := freeNodeList_releases nodes records
  exact ⟨before.mgr, mgr, terminals, requests, taken, done, terms, reqs,
    out before.mgr [0, 1] 0 queue.chain taken⟩

end SmartPay
