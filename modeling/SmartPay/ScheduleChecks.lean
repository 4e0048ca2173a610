import SmartPay.SequentialChecks
import SmartPay.RefinementChecks

/-!
The sequential server is one schedule of the process. A handler queues its record on
an empty queue, the manager takes it out and serves it, and the handler copies the
reply before the manager releases the record.
-/

namespace SmartPay

open CLib

/-- A record from `malloc` to `free`, with no other request in between. -/
def sequentialRequest (mgr : EquipmentMgr) (locals : MgrLocals) (request : Request) :
    Except Fault (EquipmentMgr × Text) := do
  let (mgr, record) ←
    createRequestQueueItem mgr request.json request.method request.termId false
  requestResponse mgr locals record

structure Visit where
  handler : Nat
  locals : MgrLocals
  request : Request

/-- The manager is given as many steps as it needs, and the handler all of its own. -/
def Visit.actions (visit : Visit) : List Action :=
  [.create visit.handler visit.request, .lock visit.handler, .add visit.handler,
      .unlock visit.handler] ++
    (List.replicate 6 (.mgr visit.locals) ++
      [.test visit.handler false, .copy visit.handler (lit ""), .mgr visit.locals])

/-- Between requests. -/
structure Resting (p : Process) : Prop where
  loop : p.mgrPc = .loop
  free : p.mutex = none
  idle : ∀ h, p.handlers h = .idle
  serving : p.daemonRuns = true
  running : p.mgr.sigEqMgrFlag = true
  list : p.mgr.requestQueueList = none
  tail : p.mgr.requestQueueTail = none

section Steps

variable {p : Process} {mgr : EquipmentMgr} {r : Nat}

/-- The manager with one record in the queue. -/
def EquipmentMgr.withOne (mgr : EquipmentMgr) (r : Nat) : EquipmentMgr :=
  { mgr with
    requests := mgr.requests.set r { mgr.requests.content r with next := none }
    requestQueueList := some r
    requestQueueTail := some r }

def EquipmentMgr.withNone (mgr : EquipmentMgr) (r : Nat) : EquipmentMgr :=
  { mgr with
    requests := mgr.requests.set r { mgr.requests.content r with next := none }
    requestQueueList := none
    requestQueueTail := none }

theorem queueReq_empty (tail : mgr.requestQueueTail = none) (live : mgr.requests.Live r) :
    queueReq mgr r = .ok (mgr.withOne r) := by
  simp only [queueReq, addRequestToQueue, tail, Heap.load_ok live, Heap.store_ok live, ok_bind,
    EquipmentMgr.withOne]

theorem checkQueue_one (live : mgr.requests.Live r) :
    checkQueueAndGetRequest (mgr.withOne r) = .ok (mgr.withNone r, some r) := by
  have alive : (mgr.withOne r).requests.Live r := live
  simp only [checkQueueAndGetRequest, EquipmentMgr.withOne] at alive ⊢
  simp only [Heap.load_ok alive, ok_bind, if_true, Heap.set_content_same, EquipmentMgr.withNone]

theorem requestResponse_alone (running : mgr.sigEqMgrFlag = true)
    (tail : mgr.requestQueueTail = none) (live : mgr.requests.Live r) (locals : MgrLocals) :
    requestResponse mgr locals r = (do
      let served ← handleRequest (mgr.withNone r) locals r
      let ready ← setResponseReady served r
      let item ← ready.requests.load r
      let json ← item.json.cstr
      let after ← freeRequest ready r
      .ok (after, json)) := by
  have nonzero : (mgr.withOne r).requests.brk ≠ 0 := Nat.ne_of_gt (Nat.zero_lt_of_lt live.1)
  obtain ⟨fuel, fuelEq⟩ := Nat.exists_eq_succ_of_ne_zero nonzero
  have flag : (mgr.withOne r).sigEqMgrFlag = true := running
  simp only [requestResponse, queueReq_empty tail live, ok_bind, fuelEq, waitForResponse, flag,
    if_true, checkQueue_one live, bind_assoc]

/-- The manager's round from the loop to the record marked ready. -/
theorem mgr_round {locals : MgrLocals} (pc : p.mgrPc = .loop) (free : p.mutex = none)
    (running : p.mgr.sigEqMgrFlag = true) (one : p.mgr = mgr.withOne r)
    (live : mgr.requests.Live r) :
    runFrom Process.step p (List.replicate 6 (.mgr locals)) = (do
      let served ← orStop (handleRequest (mgr.withNone r) locals r)
      let ready ← orStop (setResponseReady served r)
      let item ← orStop (ready.requests.load r)
      .ok { p with
        mgr := ready
        mgrPc := .free r
        mutex := none
        log := { p.log with
          served := p.log.served ++ [(r, ((mgr.withNone r).requests.content r).request)]
          written := p.log.written ++ [(r, item.json)] } }) := by
  have flag : (mgr.withOne r).sigEqMgrFlag = true := one ▸ running
  have loaded : (mgr.withNone r).requests.load r = .ok ((mgr.withNone r).requests.content r) :=
    Heap.load_ok live
  simp only [List.replicate, runFrom, Process.step, Process.mgrStep, pc, free, one, flag, if_true,
    ok_bind, checkQueue_one live, loaded, orStop, bind_assoc]

/-- The handler's steps until it waits. -/
theorem handler_queues (resting : Resting p) (h : Nat) (request : Request) :
    runFrom Process.step p [.create h request, .lock h, .add h, .unlock h] = (do
      let created ← orStop
        (createRequestQueueItem p.mgr request.json request.method request.termId false)
      .ok { p with
        mgr := created.1.withOne created.2
        mutex := none
        handlers := p.setHandler h (.wait created.2)
        busy := p.busy + 1
        log := { p.log with
          queued := p.log.queued ++ [(created.2, request)]
          accepted := p.log.accepted ++ [created.2] } }) := by
  obtain ⟨_, free, idle, serving, _, _, tail⟩ := resting
  simp only [runFrom, Process.step, Process.createStep, idle, serving, if_true]
  cases done : createRequestQueueItem p.mgr request.json request.method request.termId false with
  | error fault => rfl
  | ok created =>
      obtain ⟨mgr, r⟩ := created
      obtain ⟨item, rfl, rfl, _⟩ := createRequestQueueItem_inv done
      have live : (p.mgr.requests.malloc.1.set p.mgr.requests.brk item).Live p.mgr.requests.brk :=
        (p.mgr.requests.live_malloc _).mpr (Or.inr rfl)
      have joined := @queueReq_empty { p.mgr with
        requests := p.mgr.requests.malloc.1.set p.mgr.requests.brk item } _ tail live
      simp only [orStop, ok_bind, Process.lockStep, Process.addStep, Process.unlockStep,
        Process.setHandler, Function.update_self, Function.update_idem, free, if_true, joined]

/-- The copy of the reply, and the release of the record after it. -/
theorem handler_copies {h : Nat} {locals : MgrLocals} (waits : p.handlers h = .wait r)
    (pc : p.mgrPc = .free r) (live : p.mgr.requests.Live r)
    (ready : (p.mgr.requests.content r).isResponseReady = true) :
    runFrom Process.step p [.test h false, .copy h (lit ""), .mgr locals] = (do
      let json ← orStop (p.mgr.requests.content r).json.cstr
      let after ← orStop (freeRequest p.mgr r)
      .ok { p with
        mgr := after
        mgrPc := .loop
        handlers := p.setHandler h .idle
        busy := p.busy - 1
        log := { p.log with sent := p.log.sent ++ [(r, json)] } }) := by
  simp only [runFrom, Process.step, Process.testStep, waits, live, if_true, ready, ok_bind,
    Process.copyStep, Process.setHandler, Function.update_self, Function.update_idem, bind_assoc,
    Process.mgrStep, pc]

end Steps

/-- What a run of the process does for a request, where serving it alone fails or succeeds. -/
structure Follows (p : Process) (actions : List Action) (alone : Except Fault (EquipmentMgr × Text)) :
    Prop where
  fails : ∀ fault, alone = .error fault → runFrom Process.step p actions = .error (.fault fault)
  serves : ∀ mgr reply, alone = .ok (mgr, reply) → ∃ q r,
    runFrom Process.step p actions = .ok q ∧ q.mgr = mgr ∧ Resting q ∧
      q.log.sent = p.log.sent ++ [(r, reply)]

theorem Follows.of_error {p : Process} {actions : List Action} {fault : Fault}
    (stops : runFrom Process.step p actions = .error (.fault fault)) :
    Follows p actions (.error fault) := by
  refine ⟨?_, ?_⟩
  · intro other same
    cases same
    exact stops
  · intro mgr reply same
    cases same

theorem visit_follows {p : Process} (resting : Resting p) (visit : Visit) :
    Follows p visit.actions (sequentialRequest p.mgr visit.locals visit.request) := by
  have queued := handler_queues resting visit.handler visit.request
  have run : runFrom Process.step p visit.actions =
      runFrom Process.step p [.create visit.handler visit.request, .lock visit.handler,
        .add visit.handler, .unlock visit.handler] >>= fun middle =>
          runFrom Process.step middle (List.replicate 6 (.mgr visit.locals)) >>= fun middle =>
            runFrom Process.step middle
              [.test visit.handler false, .copy visit.handler (lit ""), .mgr visit.locals] := by
    simp only [Visit.actions, runFrom_concat]
  cases done : createRequestQueueItem p.mgr visit.request.json visit.request.method
      visit.request.termId false with
  | error fault =>
      rw [done] at queued
      rw [queued] at run
      simp only [sequentialRequest, done]
      exact Follows.of_error run
  | ok created =>
      obtain ⟨mgr, r⟩ := created
      obtain ⟨item, rfl, rfl, _⟩ := createRequestQueueItem_inv done
      have live : (p.mgr.requests.malloc.1.set p.mgr.requests.brk item).Live p.mgr.requests.brk :=
        (p.mgr.requests.live_malloc _).mpr (Or.inr rfl)
      let mgr : EquipmentMgr :=
        { p.mgr with requests := p.mgr.requests.malloc.1.set p.mgr.requests.brk item }
      let r := p.mgr.requests.brk
      have alone : sequentialRequest p.mgr visit.locals visit.request =
          requestResponse mgr visit.locals r := by
        simp only [sequentialRequest, done, ok_bind, mgr, r]
      rw [alone, @requestResponse_alone mgr r resting.running resting.tail live visit.locals]
      rw [done] at queued
      rw [queued] at run
      let middle : Process := { p with
        mgr := mgr.withOne r
        mutex := none
        handlers := p.setHandler visit.handler (.wait r)
        busy := p.busy + 1
        log := { p.log with
          queued := p.log.queued ++ [(r, visit.request)]
          accepted := p.log.accepted ++ [r] } }
      have round := @mgr_round middle mgr r visit.locals resting.loop rfl resting.running rfl live
      replace run : runFrom Process.step p visit.actions =
          runFrom Process.step middle (List.replicate 6 (.mgr visit.locals)) >>= fun middle =>
            runFrom Process.step middle
              [.test visit.handler false, .copy visit.handler (lit ""), .mgr visit.locals] := run
      rw [round] at run
      cases handled : handleRequest (mgr.withNone r) visit.locals r with
      | error fault =>
          rw [handled] at run
          exact Follows.of_error run
      | ok served =>
          obtain ⟨_, ⟨json, requests⟩, list, tail, flag⟩ := handleRequest_frame handled
          have servedLive : served.requests.Live r := by
            rw [requests]
            exact live
          let ready : EquipmentMgr := { served with
            requests := served.requests.set r
              { served.requests.content r with isResponseReady := true } }
          have marked : setResponseReady served r = .ok ready := setResponseReady_ok servedLive
          have readyLive : ready.requests.Live r := servedLive
          have isReady : (ready.requests.content r).isResponseReady = true := by
            simp only [ready, Heap.set_content_same]
          rw [handled] at run
          simp only [orStop, ok_bind, marked, Heap.load_ok readyLive] at run ⊢
          rw [@handler_copies _ r visit.handler visit.locals (Function.update_self ..) rfl readyLive
            isReady] at run
          cases text : (ready.requests.content r).json.cstr with
          | error fault =>
              simp only [text] at run
              exact Follows.of_error run
          | ok reply =>
              simp only [text, orStop, freeRequest_ok readyLive, ok_bind] at run ⊢
              refine ⟨?_, ?_⟩
              · intro fault same
                cases same
              intro mgr told same
              cases same
              refine ⟨_, r, run, rfl, ⟨rfl, rfl, ?_, resting.serving, flag.trans resting.running,
                list, tail⟩, rfl⟩
              intro h
              simp only [Process.setHandler]
              by_cases mine : h = visit.handler
              · rw [mine, Function.update_self]
              · rw [Function.update_of_ne mine]
                exact (Function.update_of_ne mine _ _).trans (resting.idle h)

/-! What a reply of the manager begins with. -/

/-- The manager's replies quote the name of their first member with `"`, the handler's own with
`'`. -/
def Marked (bytes : List UInt8) : Prop := (lit "\x7b \"").bytes <+: bytes

theorem Marked.ne_own {text : Text} (marked : Marked text.bytes) :
    text ≠ jsonError ∧ text ≠ jsonPostWithNoData := by
  constructor
  · rintro rfl
    exact absurd marked (by unfold Marked; decide)
  · rintro rfl
    exact absurd marked (by unfold Marked; decide)

section Marks

variable {size : Nat} {buf printed : Buf size} {text : Text}

theorem Marked.print_zero (marked : Marked text.bytes) (done : buf.print 0 text = .ok printed) :
    Marked printed.bytes := by
  rw [Buf.cstr_split (Buf.print_zero_cstr done)]
  exact marked.trans (List.prefix_append _ _)

theorem Marked.print_behind (marked : Marked buf.bytes) {index : Nat} (behind : 3 ≤ index)
    (done : buf.print index text = .ok printed) : Marked printed.bytes := by
  have length : (lit "\x7b \"").bytes.length = 3 := by decide
  rw [Marked, List.prefix_iff_eq_take, length] at marked ⊢
  rw [marked, Buf.print_before done behind]

theorem Marked.cstr (marked : Marked buf.bytes) (read : buf.cstr = .ok text) :
    Marked text.bytes := by
  obtain ⟨rest, split⟩ := marked
  simp only [Buf.cstr] at read
  split at read
  · cases read
    rw [← split]
    exact ⟨(Text.ofBytes rest).bytes, rfl⟩
  · cases read

theorem wrapResponse_marked (content : Text) : Marked (wrapResponse content).bytes := by
  have front : (lit "\x7b \"Response\": \x7b ").bytes <+: (wrapResponse content).bytes := by
    rw [wrapResponse, Text.bytes_append, Text.bytes_append, List.append_assoc]
    exact List.prefix_append _ _
  exact List.IsPrefix.trans (by decide) front

theorem notFoundReply_marked : Marked notFoundReply.bytes := by
  unfold Marked
  decide

theorem appendTerminalsFrom_marked {terminals : Heap Terminals} {fuel : Nat} {start : Option Nat}
    {index last : Nat} (behind : 5 ≤ index) (marked : Marked buf.bytes)
    (done : appendTerminalsFrom terminals fuel start buf index = .ok (printed, last)) :
    5 ≤ last ∧ Marked printed.bytes := by
  induction fuel generalizing start buf index with
  | zero =>
      cases start with
      | none =>
          cases done
          exact ⟨behind, marked⟩
      | some runner => cases done
  | succ fuel ih =>
      cases start with
      | none =>
          cases done
          exact ⟨behind, marked⟩
      | some runner =>
          obtain ⟨node, _, done⟩ := bind_eq_ok.mp done
          obtain ⟨transactions, _, done⟩ := bind_eq_ok.mp done
          obtain ⟨written, fragmentDone, done⟩ := bind_eq_ok.mp done
          obtain ⟨separated, separatorDone, done⟩ := bind_eq_ok.mp done
          have first := marked.print_behind (by omega) fragmentDone
          exact ih (by omega) (first.print_behind (by omega) separatorDone) done

theorem createJsonFromList_marked {mgr : EquipmentMgr} {tempTransHolder : Buf dataSize}
    {terms : Nat} {termId : Int}
    (done : createJsonFromList mgr tempTransHolder terms termId buf = .ok printed) :
    Marked printed.bytes := by
  simp only [createJsonFromList, format_wrapResponse] at done
  split at done
  · obtain ⟨node, _, done⟩ := bind_eq_ok.mp done
    obtain ⟨transactions, _, done⟩ := bind_eq_ok.mp done
    obtain ⟨holder, _, done⟩ := bind_eq_ok.mp done
    obtain ⟨held, _, done⟩ := bind_eq_ok.mp done
    exact (wrapResponse_marked held).print_zero done
  · obtain ⟨framed, frameDone, done⟩ := bind_eq_ok.mp done
    obtain ⟨⟨appended, last⟩, loopDone, done⟩ := bind_eq_ok.mp done
    have length : (wrapResponse (lit " ")).length = 21 := by decide
    obtain ⟨behind, marked⟩ := appendTerminalsFrom_marked (by rw [length]; omega)
      ((wrapResponse_marked (lit " ")).print_zero frameDone) loopDone
    exact marked.print_behind (by omega) done

end Marks

/-- What a record of a `GET` or a `POST` is answered with, whatever the lists look like. -/
theorem handleRequest_marked {mgr served : EquipmentMgr} {locals : MgrLocals} {p : Nat}
    {request : Request} (holds : (mgr.requests.content p).method.cstr = .ok request.method)
    (done : handleRequest mgr locals p = .ok served) :
    Marked (served.requests.content p).json.bytes := by
  obtain ⟨item, loaded, done⟩ := bind_eq_ok.mp done
  obtain ⟨live, rfl⟩ := Heap.load_eq_ok loaded
  obtain ⟨method, read, done⟩ := bind_eq_ok.mp done
  cases holds.symm.trans read
  split at done
  · obtain ⟨⟨status, json, message⟩, decided, done⟩ := bind_eq_ok.mp done
    obtain ⟨final, copied, done⟩ := bind_eq_ok.mp done
    obtain ⟨requests, stored, done⟩ := bind_eq_ok.mp done
    cases done
    obtain ⟨_, rfl⟩ := Heap.store_eq_ok stored
    rw [Heap.set_content_same]
    obtain ⟨terms, _, decided⟩ := bind_eq_ok.mp decided
    cases terms with
    | none =>
        obtain ⟨printed, wrote, decided⟩ := bind_eq_ok.mp decided
        cases decided
        obtain ⟨text, told, copied⟩ := bind_eq_ok.mp copied
        rw [format_notFound] at wrote
        exact ((notFoundReply_marked.print_zero wrote).cstr told).print_zero copied
    | some terms =>
        obtain ⟨filled, created, decided⟩ := bind_eq_ok.mp decided
        cases decided
        cases copied
        exact createJsonFromList_marked created
  · rename_i other
    have post : request.method = lit "POST" := by
      cases request with
      | get termId leftover => exact absurd rfl other
      | post text => rfl
    rw [if_pos post] at done
    obtain ⟨⟨written, reply⟩, wrote, done⟩ := bind_eq_ok.mp done
    obtain ⟨requests, stored, done⟩ := bind_eq_ok.mp done
    cases done
    obtain ⟨_, rfl⟩ := Heap.store_eq_ok stored
    rw [Heap.set_content_same]
    obtain ⟨text, _, wrote⟩ := bind_eq_ok.mp wrote
    obtain ⟨⟨created, newNode⟩, _, wrote⟩ := bind_eq_ok.mp wrote
    obtain ⟨⟨added, id⟩, _, wrote⟩ := bind_eq_ok.mp wrote
    obtain ⟨node, _, wrote⟩ := bind_eq_ok.mp wrote
    obtain ⟨holder, _, wrote⟩ := bind_eq_ok.mp wrote
    obtain ⟨held, _, wrote⟩ := bind_eq_ok.mp wrote
    obtain ⟨printed, framed, wrote⟩ := bind_eq_ok.mp wrote
    cases wrote
    rw [format_wrapResponse] at framed
    exact (wrapResponse_marked held).print_zero framed

theorem sequentialRequest_marked {mgr after : EquipmentMgr} {locals : MgrLocals}
    {request : Request} {text : Text} (running : mgr.sigEqMgrFlag = true)
    (tail : mgr.requestQueueTail = none)
    (done : sequentialRequest mgr locals request = .ok (after, text)) : Marked text.bytes := by
  obtain ⟨⟨created, r⟩, made, done⟩ := bind_eq_ok.mp done
  obtain ⟨item, rfl, rfl, _, method, _⟩ := createRequestQueueItem_inv made
  have live : (mgr.requests.malloc.1.set mgr.requests.brk item).Live mgr.requests.brk :=
    (mgr.requests.live_malloc _).mpr (Or.inr rfl)
  have alone := @requestResponse_alone { mgr with
    requests := mgr.requests.malloc.1.set mgr.requests.brk item } _ running tail live locals
  replace done := alone.symm.trans done
  obtain ⟨served, handled, done⟩ := bind_eq_ok.mp done
  obtain ⟨ready, marked, done⟩ := bind_eq_ok.mp done
  obtain ⟨record, loaded, done⟩ := bind_eq_ok.mp done
  obtain ⟨json, read, done⟩ := bind_eq_ok.mp done
  obtain ⟨freed, _, done⟩ := bind_eq_ok.mp done
  cases done
  have answered : Marked (served.requests.content mgr.requests.brk).json.bytes := by
    refine @handleRequest_marked _ _ _ _ request ?_ handled
    simp only [EquipmentMgr.withNone, Heap.set_content_same]
    exact method
  obtain ⟨_, ⟨reply, requests⟩, _⟩ := handleRequest_frame handled
  have servedLive : served.requests.Live mgr.requests.brk := by
    rw [requests]
    exact live
  rw [setResponseReady_ok servedLive] at marked
  cases marked
  obtain ⟨_, rfl⟩ := Heap.load_eq_ok loaded
  rw [Heap.set_content_same] at read
  exact answered.cstr read

/-! The handler's calls. -/

/-- What a call does to the manager: nothing, or one visit with its reply. -/
def Visited (mgr after : EquipmentMgr) : Option (Visit × Text) → Prop
  | none => after = mgr
  | some (visit, text) =>
      sequentialRequest mgr visit.locals visit.request = .ok (after, text)

/-- What the manager has told the client of an exchange. Refused requests and those without data
are answered by the handler itself. -/
def Outcome.told : Outcome → Option Text
  | .replied text => if text = jsonError ∨ text = jsonPostWithNoData then none else some text
  | _ => none

/-- An exchange visits the manager exactly when the manager has told its client something. -/
def Told (visited : Option (Visit × Text)) (outcome : Outcome) : Prop :=
  visited.map Prod.snd = outcome.told

/-- What a call is answered with. Only a `POST` goes on after it, and only a call without data
reaches the manager. -/
def Answer.Told (method : Text) (call : Call) (answer : Answer) : Option (Visit × Text) → Prop
  | none =>
      answer = sendResponse call jsonError ∨ answer = sendResponse call jsonPostWithNoData ∨
        answer = .yes ∧ method = lit "POST"
  | some (_, text) =>
      answer = sendResponse call text ∧ (method = lit "POST" → call.uploadDataSize = 0)

theorem answerGet_visited {locals : HandlerLocals} {url : Text} {call : Call} {conCls : ConCls}
    {server : Server} {result : CallResult} (h : Nat)
    (done : answerGet locals url call conCls server = .ok result) :
    ∃ visited, Visited server.mgr result.server.mgr visited ∧
      result.answer.Told (lit "GET") call visited := by
  obtain ⟨termId, _, done⟩ := bind_eq_ok.mp done
  obtain ⟨jsonReq, _, done⟩ := bind_eq_ok.mp done
  obtain ⟨⟨mgr, request⟩, created, done⟩ := bind_eq_ok.mp done
  obtain ⟨⟨after, json⟩, responded, done⟩ := bind_eq_ok.mp done
  obtain ⟨jResponse, printed, done⟩ := bind_eq_ok.mp done
  obtain ⟨sent, read, done⟩ := bind_eq_ok.mp done
  rw [Buf.print_zero_cstr printed] at read
  cases read
  cases done
  refine ⟨some (⟨h, locals.mgr, .get termId jsonReq⟩, json), ?_, rfl, fun post => ?_⟩
  swap
  · exact absurd post get_ne_post.symm
  exact bind_eq_ok.mpr ⟨(mgr, request), created, responded⟩

theorem postWithData_visited {locals : HandlerLocals} {post : PostStatus} {mgr after : EquipmentMgr}
    {reply : Buf maxResponseSize} (h : Nat)
    (done : postWithData locals post mgr = .ok (after, reply)) :
    ∃ visit json, Visited mgr after (some (visit, json)) ∧ reply.cstr = .ok json := by
  obtain ⟨status, none | buff⟩ := post
  · cases done
  · obtain ⟨copied, _, done⟩ := bind_eq_ok.mp done
    obtain ⟨jsonReq, _, done⟩ := bind_eq_ok.mp done
    obtain ⟨⟨created, request⟩, creates, done⟩ := bind_eq_ok.mp done
    obtain ⟨⟨final, json⟩, responded, done⟩ := bind_eq_ok.mp done
    obtain ⟨jsonReqResp, printed, done⟩ := bind_eq_ok.mp done
    cases done
    refine ⟨⟨h, locals.mgr, .post jsonReq⟩, json, ?_, Buf.print_zero_cstr printed⟩
    exact bind_eq_ok.mpr ⟨(created, request), creates, responded⟩

theorem answerPost_visited {locals : HandlerLocals} {url : Text} {call : Call} {conCls : ConCls}
    {server : Server} {result : CallResult} (h : Nat)
    (done : answerPost locals url call conCls server = .ok result) :
    ∃ visited, Visited server.mgr result.server.mgr visited ∧
      result.answer.Told (lit "POST") call visited := by
  obtain ⟨endPoint, _, done⟩ := bind_eq_ok.mp done
  split at done
  · cases done
    exact ⟨none, rfl, Or.inl rfl⟩
  cases conCls with
  | dangling => cases done
  | null =>
      cases done
      exact ⟨none, rfl, Or.inr (Or.inr ⟨rfl, rfl⟩)⟩
  | post post =>
      simp only at done
      split at done
      · cases done
        exact ⟨none, rfl, Or.inr (Or.inr ⟨rfl, rfl⟩)⟩
      split at done
      · cases done
        exact ⟨none, rfl, Or.inr (Or.inr ⟨rfl, rfl⟩)⟩
      rename_i empty
      have noData : call.uploadDataSize = 0 := Decidable.not_not.mp empty
      rw [answerPostLast] at done
      split at done
      · obtain ⟨⟨after, reply⟩, posted, done⟩ := bind_eq_ok.mp done
        obtain ⟨sent, read, done⟩ := bind_eq_ok.mp done
        cases done
        obtain ⟨visit, json, visited, told⟩ := postWithData_visited h posted
        rw [told] at read
        cases read
        exact ⟨some (visit, sent), visited, rfl, fun _ => noData⟩
      · obtain ⟨jsonReqResp, printed, done⟩ := bind_eq_ok.mp done
        obtain ⟨sent, read, done⟩ := bind_eq_ok.mp done
        rw [Buf.print_zero_cstr printed] at read
        cases read
        cases done
        exact ⟨none, rfl, Or.inr (Or.inl rfl)⟩

theorem answerToConnection_visited {locals : HandlerLocals} {url method : Text} {call : Call}
    {conCls : ConCls} {server : Server} {result : CallResult} (h : Nat)
    (done : answerToConnection locals url method call conCls server = .ok result) :
    ∃ visited, Visited server.mgr result.server.mgr visited ∧
      result.answer.Told method call visited := by
  simp only [answerToConnection] at done
  split at done
  · cases done
    exact ⟨none, rfl, Or.inl rfl⟩
  split at done
  · rename_i get
    rw [get]
    exact answerGet_visited h done
  split at done
  · rename_i post
    rw [post]
    exact answerPost_visited h done
  · cases done
    exact ⟨none, rfl, Or.inl rfl⟩

theorem told_own {call : Call} {json sent : Text} (own : json = jsonError ∨ json = jsonPostWithNoData)
    (replied : sendResponse call json = .reply sent) : (Outcome.replied sent).told = none := by
  have same : sent = json := by
    cases call <;> simp_all [sendResponse]
  rw [same, Outcome.told, if_pos own]

/-- A visit at a call other than the upload's is answered with what it has read. -/
theorem sendResponse_visit {method : Text} {call : Call} {text : Text}
    (upload : ∀ piece, call = .data piece → method = lit "POST" ∧ piece ≠ [])
    (noData : method = lit "POST" → call.uploadDataSize = 0) :
    sendResponse call text = .reply text := by
  cases call with
  | data piece =>
      obtain ⟨post, nonempty⟩ := upload piece rfl
      exact absurd (List.length_eq_zero_iff.mp (noData post)) nonempty
  | first => rfl
  | last => rfl

/-- A call that visits the manager ends the exchange, so there is one visit at most. -/
theorem exchangeFrom_visited {locals : Nat → HandlerLocals} {url method : Text} {index : Nat}
    {calls : List Call} {conCls : ConCls} {server after : Server} {outcome : Outcome} (h : Nat)
    (nonempty : .data [] ∉ calls) (opened : method = lit "POST" ∨ ∀ call ∈ calls.head?, call = .first)
    (running : server.mgr.sigEqMgrFlag = true) (tail : server.mgr.requestQueueTail = none)
    (done : exchangeFrom locals url method index calls conCls server = .ok (after, outcome)) :
    ∃ visited, Visited server.mgr after.mgr visited ∧ Told visited outcome := by
  induction calls generalizing index conCls server with
  | nil =>
      cases done
      exact ⟨none, rfl, rfl⟩
  | cons call rest ih =>
      obtain ⟨result, called, done⟩ := bind_eq_ok.mp done
      obtain ⟨visited, moved, told⟩ := answerToConnection_visited h called
      cases visited with
      | none =>
          have kept : result.server.mgr = server.mgr := moved
          split at done
          · rename_i json replied
            cases done
            refine ⟨none, moved, ?_⟩
            rw [replied] at told
            rcases told with refused | empty | ⟨goesOn, _⟩
            · exact (told_own (Or.inl rfl) refused.symm).symm
            · exact (told_own (Or.inr rfl) empty.symm).symm
            · cases goesOn
          · cases done
            exact ⟨none, moved, rfl⟩
          · rename_i goesOn
            rw [goesOn] at told
            have post : method = lit "POST" := by
              rcases told with refused | empty | ⟨_, post⟩
              · cases call <;> cases refused
              · cases call <;> cases empty
              · exact post
            obtain ⟨visited, moved, told⟩ := ih (fun inside => nonempty (List.mem_cons_of_mem _ inside))
              (Or.inl post) (by rw [kept]; exact running) (by rw [kept]; exact tail) done
            rw [kept] at moved
            exact ⟨visited, moved, told⟩
      | some visit =>
          obtain ⟨visit, text⟩ := visit
          obtain ⟨told, noData⟩ := told
          have upload : ∀ piece, call = .data piece → method = lit "POST" ∧ piece ≠ [] := by
            rintro piece rfl
            refine ⟨opened.resolve_right fun first => ?_, ?_⟩
            · cases first _ rfl
            · rintro rfl
              exact nonempty (List.mem_cons_self ..)
          rw [told, sendResponse_visit upload noData] at done
          cases done
          have own := (sequentialRequest_marked running tail moved).ne_own
          refine ⟨some (visit, text), moved, ?_⟩
          rw [Told, Outcome.told, if_neg (not_or.mpr own)]
          rfl

theorem exchange_visited {locals : Nat → HandlerLocals} {url method : Text}
    {pieces : List (List UInt8)} {server after : Server} {outcome : Outcome} (h : Nat)
    (nonempty : [] ∉ pieces) (running : server.mgr.sigEqMgrFlag = true)
    (tail : server.mgr.requestQueueTail = none)
    (done : exchange locals url method pieces server = .ok (after, outcome)) :
    ∃ visited, Visited server.mgr after.mgr visited ∧ Told visited outcome := by
  refine exchangeFrom_visited h ?_ (Or.inr ?_) running tail done
  · simpa [callsFor] using nonempty
  · rintro call first
    exact (Option.mem_some_iff.mp first).symm

/-! Sequences of requests. -/

/-- The visits of the requests that have one, in order. -/
def scheduleOf (visits : List (Option (Visit × Text))) : List Action :=
  visits.reduceOption.flatMap fun visit => visit.1.actions

theorem serve_is_a_run {locals : Nat → Nat → HandlerLocals} {requests : List HttpRequest}
    {p : Process} {server after : Server} {outcomes : List Outcome} (resting : Resting p)
    (same : server.mgr = p.mgr) (h : Nat) (nonempty : ∀ request ∈ requests, [] ∉ request.pieces)
    (done : serve locals requests server = .ok (after, outcomes)) :
    ∃ visits q, List.Forall₂ Told visits outcomes ∧
      runFrom Process.step p (scheduleOf visits) = .ok q ∧ Resting q ∧ q.mgr = after.mgr ∧
      q.log.sent.map Prod.snd = p.log.sent.map Prod.snd ++ visits.reduceOption.map Prod.snd := by
  induction requests generalizing locals p server outcomes with
  | nil =>
      cases done
      exact ⟨[], p, .nil, rfl, resting, same.symm, by simp⟩
  | cons request rest ih =>
      obtain ⟨⟨middle, outcome⟩, exchanged, done⟩ := bind_eq_ok.mp done
      obtain ⟨⟨final, later⟩, served, done⟩ := bind_eq_ok.mp done
      cases done
      obtain ⟨visited, moved, told⟩ := exchange_visited h (nonempty request (List.mem_cons_self ..))
        (by rw [same]; exact resting.running) (by rw [same]; exact resting.tail) exchanged
      rw [same] at moved
      have others : ∀ request ∈ rest, [] ∉ request.pieces :=
        fun other inside => nonempty other (List.mem_cons_of_mem _ inside)
      cases visited with
      | none =>
          obtain ⟨visits, q, tells, ran, rests, mgr, sent⟩ := ih resting moved others served
          exact ⟨none :: visits, q, .cons told tells, ran, rests, mgr, sent⟩
      | some visit =>
          obtain ⟨visit, text⟩ := visit
          obtain ⟨next, r, visits, kept, resumes, sentNow⟩ :=
            (visit_follows resting visit).serves _ _ moved
          obtain ⟨visits, q, tells, ran, rests, mgr, sent⟩ := ih resumes kept.symm others served
          refine ⟨some (visit, text) :: visits, q, .cons told tells, ?_, rests, mgr, ?_⟩
          · exact runFrom_append ‹_› ran
          · rw [sent, sentNow]
            simp

theorem Resting.boot (locals : MgrLocals) :
    ∃ p, runFrom Process.step Process.boot [.main, .main, .mgr locals, .mgr locals] = .ok p ∧ Resting p ∧
      p.mgr = mgrInit EquipmentMgr.blank ∧ p.log = Log.empty :=
  ⟨_, rfl, ⟨rfl, rfl, fun _ => rfl, rfl, rfl, rfl, rfl⟩, rfl, rfl⟩

theorem serve_is_a_run_booted :
    ∃ after visits q, serve (fun _ _ => HandlerLocals.blank)
        [.postData (lit "x"), .postEmpty, .getId 1]
        { mgr := mgrInit EquipmentMgr.blank, postWithDataFlag := false } =
          .ok (after, [.replied (postReply 1), .replied jsonPostWithNoData,
            .replied (singleReply (1, lit "x"))]) ∧
      List.Forall₂ Told visits [.replied (postReply 1), .replied jsonPostWithNoData,
        .replied (singleReply (1, lit "x"))] ∧
      runFrom Process.step Process.boot
        ([.main, .main, .mgr MgrLocals.blank, .mgr MgrLocals.blank] ++ scheduleOf visits) =
          .ok q ∧
      Resting q ∧ q.mgr = after.mgr ∧
      q.log.sent.map Prod.snd = visits.reduceOption.map Prod.snd := by
  have served : (serve (fun _ _ => HandlerLocals.blank)
      [.postData (lit "x"), .postEmpty, .getId 1]
      { mgr := mgrInit EquipmentMgr.blank, postWithDataFlag := false }).map Prod.snd =
        .ok [.replied (postReply 1), .replied jsonPostWithNoData,
          .replied (singleReply (1, lit "x"))] := by
    decide +kernel
  obtain ⟨⟨after, outcomes⟩, served, rfl⟩ := map_eq_ok served
  obtain ⟨p, started, resting, mgr, log⟩ := Resting.boot MgrLocals.blank
  obtain ⟨visits, q, tells, ran, rests, same, sent⟩ :=
    serve_is_a_run resting mgr.symm 0 (by decide) served
  rw [log] at sent
  exact ⟨after, visits, q, served, tells, runFrom_append started ran, rests, same, sent⟩

end SmartPay
