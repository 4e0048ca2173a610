import SmartPay.RunHttpServerCore
import SmartPay.ManagerChecks

/-!
Calls of the access handler on an idle server: the record it queues is the only
one, the manager serves it, and the reply sent is the one of the service.
-/

namespace SmartPay

open CLib

/-- Between requests: the store is that of the texts posted so far and the queue is empty. -/
structure Idle (mgr : EquipmentMgr) (texts : List Text) : Prop where
  store : Stores mgr texts
  queue : QueueList mgr []
  running : mgr.sigEqMgrFlag = true

theorem Idle.mgrInit {mgr : EquipmentMgr} (running : mgr.sigEqMgrFlag = true) :
    Idle (mgrInit mgr) [] :=
  ⟨Stores.mgrInit mgr, Linked.empty, running⟩

/-- A record on an idle server, created and not queued yet. -/
structure Pending (mgr : EquipmentMgr) (texts : List Text) (p : Nat) (request : Request) : Prop where
  idle : Idle mgr texts
  live : mgr.requests.Live p
  holds : RecordHolds (mgr.requests.content p) request

theorem createRequestQueueItem_pending {mgr : EquipmentMgr} {texts : List Text}
    (idle : Idle mgr texts) (request : Request) (fits : request.json.length < dataSize) :
    ∃ created p, createRequestQueueItem mgr request.json request.method request.termId false =
        .ok (created, p) ∧ Pending created texts p request := by
  obtain ⟨item, done, json, method, termId, _⟩ :=
    createRequestQueueItem_ok mgr request.termId false fits (methodName_fits request)
  refine ⟨_, _, done, ⟨idle.store.congr ⟨rfl, rfl, rfl, rfl, rfl⟩, ?_, idle.running⟩,
    (mgr.requests.live_malloc _).mpr (Or.inr rfl), ?_⟩
  · exact Linked.congr idle.queue (by simp) (by simp)
  · rw [Heap.set_content_same]
    exact ⟨method, json, termId⟩

theorem queueReq_then_check {mgr : EquipmentMgr} {texts : List Text} {p : Nat} {request : Request}
    (pending : Pending mgr texts p request) :
    ∃ queued taken, queueReq mgr p = .ok queued ∧ queued.sigEqMgrFlag = true ∧
      queued.requests.brk ≠ 0 ∧ checkQueueAndGetRequest queued = .ok (taken, some p) ∧
      Pending taken texts p request := by
  obtain ⟨requests, list, added, linked, kept⟩ :=
    addRequestToQueue_ok pending.idle.queue pending.live (by simp)
  have queue : QueueList { mgr with
    requests, requestQueueList := list, requestQueueTail := some p } [p] := linked
  obtain ⟨head, tail, checked, rest⟩ := checkQueueAndGetRequest_cons queue
  have live : requests.Live p := (FieldOnly.live kept p).mpr pending.live
  refine ⟨_, _, added, pending.idle.running, ?_, checked,
    ⟨pending.idle.store.congr ⟨rfl, rfl, rfl, rfl, rfl⟩, rest, pending.idle.running⟩, live,
    kept.holds pending.holds⟩
  have below : p < requests.brk := live.1
  change requests.brk ≠ 0
  omega

theorem requestResponse_ok {mgr : EquipmentMgr} {texts : List Text} {p : Nat} {request : Request}
    (pending : Pending mgr texts p request) (locals : MgrLocals)
    (answerable : Answerable texts request) :
    ∃ after, requestResponse mgr locals p = .ok (after, (serviceStep texts request).2) ∧
      Idle after (serviceStep texts request).1 := by
  obtain ⟨queued, taken, added, running, nonzero, checked, next⟩ := queueReq_then_check pending
  obtain ⟨served, handled, result⟩ :=
    handleRequest_ok next.idle.store next.live next.holds locals answerable
  obtain ⟨json, text, requests⟩ := result.requests
  have live : served.requests.Live p := by
    rw [requests]
    exact next.live
  have json_eq : (served.requests.content p).json = json := by
    rw [requests, Heap.set_content_same]
  obtain ⟨fuel, fuelEq⟩ := Nat.exists_eq_succ_of_ne_zero nonzero
  have waited := setResponseReady_ok live
  have empty : QueueList served [] := by
    have queue := next.idle.queue
    rw [QueueList, result.list, result.tail]
    exact ⟨queue.chain, queue.last⟩
  let ready : EquipmentMgr := { served with
    requests := served.requests.set p { served.requests.content p with isResponseReady := true } }
  have readyLive : ready.requests.Live p := live
  have copied : (ready.requests.content p).json.cstr = .ok (serviceStep texts request).2 := by
    simp only [ready, Heap.set_content_same, json_eq, text]
  refine ⟨{ ready with requests := ready.requests.release p readyLive }, ?_,
    result.store.congr ⟨rfl, rfl, rfl, rfl, rfl⟩, ⟨empty.chain, empty.last⟩,
    result.flag.trans next.idle.running⟩
  simp only [requestResponse, added, bind, Except.bind, fuelEq, waitForResponse, running, if_true,
    checked, handled, show setResponseReady served p = .ok ready from waited]
  simp only [Heap.load_ok readyLive, copied, freeRequest_ok readyLive]

theorem requestResponse_overflow {mgr : EquipmentMgr} {texts : List Text} {p : Nat}
    {request : Request} (pending : Pending mgr texts p request) (locals : MgrLocals)
    (unanswerable : ¬Answerable texts request) :
    requestResponse mgr locals p = .error (overflowOf request) := by
  obtain ⟨queued, taken, added, running, nonzero, checked, next⟩ := queueReq_then_check pending
  have failed := handleRequest_overflow next.idle.store next.live next.holds locals unanswerable
  obtain ⟨fuel, fuelEq⟩ := Nat.exists_eq_succ_of_ne_zero nonzero
  simp only [requestResponse, added, bind, Except.bind, fuelEq, waitForResponse, running, if_true,
    checked, failed]

/-! The two branches that queue a record. -/

theorem answerGet_decided {server : Server} {texts : List Text} {locals : HandlerLocals}
    {url leftover : Text} {termId : Int} (idle : Idle server.mgr texts)
    (scanned : getTerminalId locals.endPoint url = .ok termId)
    (terminated : locals.jResponse.cstr = .ok leftover) (call : Call) (conCls : ConCls) :
    if (getReply texts termId).length < dataSize then
      ∃ mgr, answerGet locals url call conCls server = .ok {
          answer := sendResponse call (getReply texts termId)
          uploadDataSize := call.uploadDataSize
          conCls := conCls
          server := { server with mgr := mgr } } ∧ Idle mgr texts
    else answerGet locals url call conCls server = .error .overflow := by
  let request : Request := .get termId leftover
  obtain ⟨created, p, createdOk, pending⟩ :=
    createRequestQueueItem_pending idle request (Buf.cstr_length terminated)
  have createdGet : createRequestQueueItem server.mgr leftover (lit "GET") termId false =
      .ok (created, p) := createdOk
  split
  · rename_i fits
    obtain ⟨after, responded, idleAfter⟩ := requestResponse_ok pending locals.mgr fits
    have respondedGet : requestResponse created locals.mgr p =
        .ok (after, getReply texts termId) := responded
    obtain ⟨copied, copiedOk, copiedText⟩ := locals.jResponse.print_zero_ok fits
    refine ⟨after, ?_, idleAfter⟩
    simp only [answerGet, scanned, terminated, createdGet, respondedGet, copiedOk, copiedText, bind,
      Except.bind]
  · rename_i tooLong
    have failed : requestResponse created locals.mgr p = .error .overflow :=
      requestResponse_overflow pending locals.mgr tooLong
    simp only [answerGet, scanned, terminated, createdGet, failed, bind, Except.bind]

/-- What a POST that cannot be stored stops in. -/
def postFault (body : Text) : Fault :=
  if body.length < dataSize then .intOverflow else .overflow

theorem postWithData_decided {mgr : EquipmentMgr} {texts : List Text} {buff : Text}
    {post : PostStatus} (idle : Idle mgr texts) (collected : post.buff = some buff)
    (locals : HandlerLocals) :
    if buff.length < dataSize ∧ (texts.length : Int) < intMax then
      ∃ after jsonReqResp, postWithData locals post mgr = .ok (after, jsonReqResp) ∧
        jsonReqResp.cstr = .ok (postReply (texts.length + 1)) ∧ Idle after (texts ++ [buff])
    else postWithData locals post mgr = .error (postFault buff) := by
  let request : Request := .post buff
  by_cases fits : buff.length < dataSize
  · obtain ⟨printed, printedOk, printedText⟩ := locals.jsonReqResp.print_zero_ok fits
    obtain ⟨created, p, createdOk, pending⟩ :=
      createRequestQueueItem_pending idle request fits
    have createdPost : createRequestQueueItem mgr buff (lit "POST") (-1) false =
        .ok (created, p) := createdOk
    by_cases room : (texts.length : Int) < intMax
    · obtain ⟨after, responded, idleAfter⟩ :=
        requestResponse_ok pending locals.mgr room
      have respondedPost : requestResponse created locals.mgr p =
          .ok (after, postReply (texts.length + 1)) := responded
      have short : (postReply (texts.length + 1)).length < maxResponseSize := by
        have bound := postReply_length (texts.length + 1) (by omega) (by omega)
        simp only [maxResponseSize]
        omega
      obtain ⟨copied, copiedOk, copiedText⟩ := printed.print_zero_ok short
      rw [if_pos ⟨fits, room⟩]
      refine ⟨after, copied, ?_, copiedText, idleAfter⟩
      simp only [postWithData, collected, printedOk, printedText, createdPost, respondedPost,
        copiedOk, bind, Except.bind]
    · rw [if_neg (fun both => room both.2)]
      have failed : requestResponse created locals.mgr p = .error (overflowOf request) :=
        requestResponse_overflow pending locals.mgr room
      simp only [postWithData, collected, printedOk, printedText, createdPost, failed, bind,
        Except.bind, postFault, if_pos fits, overflowOf, request]
  · rw [if_neg (fun both => fits both.1)]
    have failed : locals.jsonReqResp.print 0 buff = .error .overflow :=
      locals.jsonReqResp.print_overflow _ _ (by simpa [dataSize, maxResponseSize] using fits)
    simp only [postWithData, collected, failed, bind, Except.bind, postFault, if_neg fits]

theorem noDataReply_fits : jsonPostWithNoData.length < maxResponseSize := by decide

theorem answerPostLast_noData {server : Server} (flag : server.postWithDataFlag = false)
    (locals : HandlerLocals) (call : Call) (post : PostStatus) :
    answerPostLast locals call post server = .ok {
      answer := sendResponse call jsonPostWithNoData
      uploadDataSize := call.uploadDataSize
      conCls := .dangling
      server := server } := by
  obtain ⟨printed, printedOk, printedText⟩ := locals.jsonReqResp.print_zero_ok noDataReply_fits
  simp only [answerPostLast, flag, Bool.false_eq_true, if_false, printedOk, printedText, bind,
    Except.bind]

theorem answerPostLast_data {server : Server} {texts : List Text} {buff : Text}
    {post : PostStatus} (idle : Idle server.mgr texts) (flag : server.postWithDataFlag = true)
    (collected : post.buff = some buff) (locals : HandlerLocals) (call : Call) :
    if buff.length < dataSize ∧ (texts.length : Int) < intMax then
      ∃ mgr, answerPostLast locals call post server = .ok {
          answer := sendResponse call (postReply (texts.length + 1))
          uploadDataSize := call.uploadDataSize
          conCls := .dangling
          server := { mgr := mgr, postWithDataFlag := false } } ∧ Idle mgr (texts ++ [buff])
    else answerPostLast locals call post server = .error (postFault buff) := by
  have decided := postWithData_decided idle collected locals
  split
  · rename_i fits
    rw [if_pos fits] at decided
    obtain ⟨after, jsonReqResp, done, text, idleAfter⟩ := decided
    refine ⟨after, ?_, idleAfter⟩
    simp only [answerPostLast, flag, if_true, done, text, bind, Except.bind]
  · rename_i tooLong
    rw [if_neg tooLong] at decided
    simp only [answerPostLast, flag, if_true, decided, bind, Except.bind]

theorem answerPostLast_uninitialised {server : Server} (flag : server.postWithDataFlag = true)
    {post : PostStatus} (nothing : post.buff = none) (locals : HandlerLocals) (call : Call) :
    answerPostLast locals call post server = .error .uninitialised := by
  simp only [answerPostLast, flag, if_true, postWithData, nothing, bind, Except.bind]

/-! The server between calls. -/

/-- The states of the server that calls of the access handler lead to, from the start of the
manager's loop and whatever the connections are. -/
inductive ReachableServer : Server → Prop
  | start {mgr : EquipmentMgr} : mgr.sigEqMgrFlag = true →
      ReachableServer { mgr := mgrInit mgr, postWithDataFlag := false }
  | call {server : Server} {locals : HandlerLocals} {url method : Text} {call : Call}
      {conCls : ConCls} {result : CallResult} : ReachableServer server →
      answerToConnection locals url method call conCls server = .ok result →
      ReachableServer result.server

theorem answerGet_idle {server : Server} {texts : List Text} {locals : HandlerLocals} {url : Text}
    {call : Call} {conCls : ConCls} {result : CallResult} (idle : Idle server.mgr texts)
    (done : answerGet locals url call conCls server = .ok result) :
    Idle result.server.mgr texts := by
  have unfolded := done
  obtain ⟨termId, scanned, unfolded⟩ := bind_eq_ok.mp unfolded
  obtain ⟨leftover, terminated, _⟩ := bind_eq_ok.mp unfolded
  have decided := answerGet_decided idle scanned terminated call conCls
  rw [done] at decided
  split at decided
  · obtain ⟨mgr, same, idleAfter⟩ := decided
    simp only [Except.ok.injEq] at same
    rw [same]
    exact idleAfter
  · cases decided

theorem answerPostLast_idle {server : Server} {texts : List Text} {locals : HandlerLocals}
    {call : Call} {post : PostStatus} {result : CallResult} (idle : Idle server.mgr texts)
    (done : answerPostLast locals call post server = .ok result) :
    ∃ after, Idle result.server.mgr after := by
  cases flag : server.postWithDataFlag with
  | false =>
      rw [answerPostLast_noData flag] at done
      cases done
      exact ⟨texts, idle⟩
  | true =>
      cases collected : post.buff with
      | none =>
          rw [answerPostLast_uninitialised flag collected] at done
          cases done
      | some buff =>
          have decided := answerPostLast_data idle flag collected locals call
          rw [done] at decided
          split at decided
          · obtain ⟨mgr, same, idleAfter⟩ := decided
            simp only [Except.ok.injEq] at same
            rw [same]
            exact ⟨_, idleAfter⟩
          · cases decided

theorem answerPost_idle {server : Server} {texts : List Text} {locals : HandlerLocals} {url : Text}
    {call : Call} {conCls : ConCls} {result : CallResult} (idle : Idle server.mgr texts)
    (done : answerPost locals url call conCls server = .ok result) :
    ∃ after, Idle result.server.mgr after := by
  obtain ⟨endPoint, _, done⟩ := bind_eq_ok.mp done
  split at done
  · cases done
    exact ⟨texts, idle⟩
  · cases conCls with
    | dangling => cases done
    | null =>
        cases done
        exact ⟨texts, idle⟩
    | post post =>
        simp only at done
        split at done
        · cases done
          exact ⟨texts, idle⟩
        · split at done
          · cases done
            exact ⟨texts, idle⟩
          · exact answerPostLast_idle idle done

theorem answerToConnection_idle {server : Server} {texts : List Text} {locals : HandlerLocals}
    {url method : Text} {call : Call} {conCls : ConCls} {result : CallResult}
    (idle : Idle server.mgr texts)
    (done : answerToConnection locals url method call conCls server = .ok result) :
    ∃ after, Idle result.server.mgr after := by
  simp only [answerToConnection] at done
  split at done
  · cases done
    exact ⟨texts, idle⟩
  · split at done
    · exact ⟨texts, answerGet_idle idle done⟩
    · split at done
      · exact answerPost_idle idle done
      · cases done
        exact ⟨texts, idle⟩

theorem ReachableServer.idle {server : Server} (reachable : ReachableServer server) :
    ∃ texts, Idle server.mgr texts := by
  induction reachable with
  | start running => exact ⟨[], Idle.mgrInit running⟩
  | call _ done ih =>
      obtain ⟨texts, idle⟩ := ih
      exact answerToConnection_idle idle done

end SmartPay
