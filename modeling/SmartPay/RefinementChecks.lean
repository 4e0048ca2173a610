import SmartPay.ProtocolChecks

/-!
While the manager stays in its loop, the handlers, the queue and the manager
together are the sequential service: whatever the order of their steps, the
requests are served one after the other, in the order in which they were queued.
-/

namespace SmartPay

open CLib

def MgrPc.Looping : MgrPc → Prop
  | loop => True
  | lock => True
  | dequeue => True
  | unlock _ => True
  | serve _ => True
  | setReady _ => True
  | free _ => True
  | _ => False

/-- The reply buffers of the records served so far: the written ones, then the one in hand. -/
def Process.answers (p : Process) : List (Buf dataSize) :=
  p.log.written.map Prod.snd ++
    p.mgrPc.answered.map fun r => (p.mgr.requests.content r).json

def Process.servedRequests (p : Process) : List Request := p.log.served.map Prod.snd

structure InService (p : Process) : Prop where
  owned : ∃ hand waiting, Owned p hand waiting
  running : p.mgr.sigEqMgrFlag = true
  looping : p.mgrPc.Looping
  tied : Tied p.mgr
  store : Stores p.mgr (postedTexts p.servedRequests)
  replies : List.Forall₂ (fun json reply => json.cstr = .ok reply) p.answers
    (serviceReplies [] p.servedRequests)

section Steps

variable {p q : Process} {hand waiting : List (Nat × Request)}

theorem MgrPc.Looping.calm (looping : p.mgrPc.Looping) (locals : MgrLocals) :
    Calm p (.mgr locals) := by
  constructor
  · rintro (init | freeLists)
    · rw [init] at looping
      exact looping.elim
    · rw [freeLists] at looping
      exact looping.elim
  · intro releasing
    cases pc : p.mgrPc with
    | freeNext headReq => rw [pc] at looping; exact looping.elim
    | freeReq headReq => rw [pc] at looping; exact looping.elim
    | freeMove => rw [pc] at looping; exact looping.elim
    | _ => rw [pc] at releasing; exact releasing.elim

theorem Tied.of_eq {mgr other : EquipmentMgr} (tied : Tied mgr)
    (list : other.requestQueueList = mgr.requestQueueList)
    (tail : other.requestQueueTail = mgr.requestQueueTail) : Tied other := by
  rwa [Tied, list, tail]

theorem Tied.dequeue {mgr next : EquipmentMgr} {record : Option Nat} (tied : Tied mgr)
    (checked : checkQueueAndGetRequest mgr = .ok (next, record)) : Tied next := by
  simp only [checkQueueAndGetRequest] at checked
  split at checked
  · cases checked
    exact tied
  · rename_i r list
    obtain ⟨item, _, checked⟩ := bind_eq_ok.mp checked
    split at checked
    · cases checked
      exact id
    · cases checked
      intro reset
      rw [tied reset] at list
      cases list

theorem Tied.handlerMove {action : Action} (tied : Tied p.mgr) (move : HandlerMove p action q) :
    Tied q.mgr := by
  cases move with
  | add here added =>
      intro reset
      rw [addRequestToQueue_tail added] at reset
      cases reset
  | _ => exact tied

theorem Owned.tailLive (owned : Owned p hand waiting) :
    ∀ t, p.mgr.requestQueueTail = some t → p.mgr.requests.Live t := by
  intro t found
  rcases owned.tail with reset | last
  · rw [reset] at found
    cases found
  · exact owned.records.queue.live t (List.mem_of_getLast? (last.symm.trans found))

/-- In service the queue is whole. -/
theorem Owned.queueList (owned : Owned p hand waiting) (tied : Tied p.mgr) :
    QueueList p.mgr (waiting.map Prod.fst) := by
  refine ⟨owned.records.queue, ?_⟩
  rcases owned.tail with reset | last
  · have queue := owned.records.queue
    rw [tied reset] at queue
    rw [queue.of_none, reset]
    rfl
  · exact last

theorem InService.congr (inService : InService p) (owned : ∃ first rest, Owned q first rest)
    (tied : Tied q.mgr) (store : StoreSame p.mgr q.mgr) (looping : q.mgrPc.Looping)
    (served : q.log.served = p.log.served) (answers : q.answers = p.answers) : InService q := by
  have requests : q.servedRequests = p.servedRequests := by
    rw [Process.servedRequests, served]
    rfl
  refine ⟨owned, store.flag.trans inService.running, looping, tied, ?_, ?_⟩
  · rw [requests]
    exact inService.store.congr store
  · rw [requests, answers]
    exact inService.replies

theorem InService.between (inService : InService p) (owned : ∃ first rest, Owned q first rest)
    (tied : Tied q.mgr) (store : StoreSame p.mgr q.mgr) (looping : q.mgrPc.Looping)
    (served : q.log.served = p.log.served) (written : q.log.written = p.log.written)
    (before : p.mgrPc.answered = []) (after : q.mgrPc.answered = []) : InService q := by
  apply inService.congr owned tied store looping served
  rw [Process.answers, Process.answers, written, before, after]
  rfl

theorem InService.handlerMove {action : Action} (inService : InService p)
    (move : HandlerMove p action q) : InService q := by
  obtain ⟨hand, waiting, owned⟩ := inService.owned
  have aside := move.aside
  have calm : Calm p action := by
    cases action with
    | add h => exact inService.tied
    | mgr locals => exact inService.looping.calm locals
    | _ => trivial
  obtain ⟨rest, next⟩ := owned.handlerMove calm move
  refine inService.congr ⟨hand, rest, next⟩ (inService.tied.handlerMove move) aside.store ?_
    aside.served ?_
  · rw [aside.pc]
    exact inService.looping
  · rw [Process.answers, Process.answers, aside.written, aside.pc]
    congr 1
    apply List.map_congr_left
    intro r member
    exact (aside.records r (owned.records.unready r member).1).json

theorem InService.serve {locals : MgrLocals} {r : Nat} {mgr : EquipmentMgr}
    (inService : InService p) (serving : p.mgrPc = .serve r)
    (handled : handleRequest p.mgr locals r = .ok mgr) :
    InService { p with
      mgr
      mgrPc := .setReady r
      log := { p.log with
        served := p.log.served ++ [(r, (p.mgr.requests.content r).request)] } } := by
  obtain ⟨hand, waiting, owned⟩ := inService.owned
  have next := owned.mgrMove (inService.looping.calm locals) (MgrMove.serve serving handled)
  obtain ⟨request, rfl⟩ := owned.records.inHand serving
  have own := owned.records.unserved (r, request) (by simp)
  have answered := inService.replies
  have before : p.answers = p.log.written.map Prod.snd := by
    rw [Process.answers, serving]
    exact List.append_nil _
  rw [before] at answered
  by_cases answerable : Answerable (postedTexts p.servedRequests) request
  · obtain ⟨served, done, result⟩ :=
      handleRequest_ok inService.store own.live own.holds locals answerable
    cases done.symm.trans handled
    obtain ⟨json, reply, requests⟩ := result.requests
    have log : (p.log.served ++ [(r, (p.mgr.requests.content r).request)]).map Prod.snd =
        p.servedRequests ++ [request] := by
      rw [own.holds.request_eq, List.map_append]
      rfl
    refine ⟨next, result.flag.trans inService.running, trivial,
      inService.tied.of_eq result.list result.tail, ?_, ?_⟩
    · simp only [Process.servedRequests, log]
      rw [postedTexts, List.filterMap_append]
      have stored := result.store
      rw [serviceStep_texts] at stored
      exact stored
    · simp only [Process.servedRequests, log, Process.answers, serviceReplies_snoc,
        MgrPc.answered, List.map_cons, List.map_nil, requests, Heap.set_content_same]
      exact List.rel_append answered (List.Forall₂.cons reply List.Forall₂.nil)
  · cases (handleRequest_overflow inService.store own.live own.holds locals answerable).symm.trans
      handled

theorem InService.mgrMove {locals : MgrLocals} (inService : InService p)
    (move : MgrMove p locals q) : InService q := by
  obtain ⟨hand, waiting, owned⟩ := inService.owned
  have next := owned.mgrMove (inService.looping.calm locals) move
  have looping := inService.looping
  have unanswered {pc : MgrPc} (here : p.mgrPc = pc) (nothing : pc.answered = []) :
      p.mgrPc.answered = [] := by rw [here, nothing]
  have tied := inService.tied
  cases move with
  | loop pc =>
      have onward : (if p.mgr.sigEqMgrFlag then MgrPc.lock else MgrPc.freeLists) = .lock :=
        if_pos inService.running
      simp only [onward] at next ⊢
      exact inService.between next tied ⟨rfl, rfl, rfl, rfl, rfl⟩ trivial rfl rfl (unanswered pc rfl) rfl
  | dequeue pc checked =>
      exact inService.between next (tied.dequeue checked) (checkQueueAndGetRequest_frame checked).2
        trivial rfl rfl
        (unanswered pc rfl) rfl
  | serve pc handled => exact inService.serve pc handled
  | setReady pc live =>
      refine inService.congr next tied ⟨rfl, rfl, rfl, rfl, rfl⟩ trivial rfl ?_
      rw [Process.answers, Process.answers, pc]
      simp [MgrPc.answered]
  | lock pc free =>
      exact inService.between next tied ⟨rfl, rfl, rfl, rfl, rfl⟩ trivial rfl rfl (unanswered pc rfl) rfl
  | unlockNone pc =>
      exact inService.between next tied ⟨rfl, rfl, rfl, rfl, rfl⟩ trivial rfl rfl (unanswered pc rfl) rfl
  | unlockSome pc =>
      exact inService.between next tied ⟨rfl, rfl, rfl, rfl, rfl⟩ trivial rfl rfl (unanswered pc rfl) rfl
  | free pc live =>
      exact inService.between next tied ⟨rfl, rfl, rfl, rfl, rfl⟩ trivial rfl rfl (unanswered pc rfl) rfl
  | _ pc => rw [pc] at looping; exact looping.elim

theorem InService.step {action : Action} (inService : InService p) (inLoop : action ≠ .main)
    (done : p.step action = .ok q) : InService q := by
  cases action with
  | main => exact absurd rfl inLoop
  | mgr locals => exact inService.mgrMove (mgrStep_moves done)
  | _ => exact inService.handlerMove (handlerStep_moves (by simp [Action.handler]) done)

end Steps

theorem InService.steady {mgr : EquipmentMgr} (running : mgr.sigEqMgrFlag = true) :
    InService (Process.steady mgr) :=
  ⟨⟨[], [], Owned.steady mgr⟩, running, trivial, fun _ => rfl, Stores.mgrInit mgr,
    List.Forall₂.nil⟩

theorem InService.written_read {p : Process} (inService : InService p)
    (entry : Nat × Buf dataSize) (member : entry ∈ p.log.written) :
    ∃ reply, entry.2.cstr = .ok reply := by
  have read : List.Forall₂
      (fun json reply => (∃ text, json.cstr = .ok text) ∧ json.cstr = .ok reply)
      p.answers (serviceReplies [] p.servedRequests) :=
    inService.replies.imp fun json reply same => ⟨⟨reply, same⟩, same⟩
  apply ((List.forall₂_and_left _ _).mp read).1
  exact List.mem_append_left _ (List.mem_map_of_mem member)

/-- The process is a sequential service that has served a part of what was queued. -/
structure Sequential (q : Process) : Prop where
  order : ∃ hand waiting, q.log.queued = q.log.served ++ hand ++ waiting ∧
    hand.map Prod.fst = q.mgrPc.taken ∧ QueueList q.mgr (waiting.map Prod.fst) ∧
    ∀ entry ∈ hand ++ waiting, RecordHolds (q.mgr.requests.content entry.1) entry.2
  once : (q.log.queued.map Prod.fst).Nodup
  store : Stores q.mgr (postedTexts (q.log.served.map Prod.snd))
  marked : q.log.served.map Prod.fst = q.log.written.map Prod.fst ++ q.mgrPc.answered
  replies : List.Forall₂ (fun entry reply => entry.2.cstr = .ok reply) q.log.written
    ((serviceReplies [] (q.log.served.map Prod.snd)).take q.log.written.length)
  ready : ∀ r ∈ q.log.queued.map Prod.fst, q.mgr.requests.Live r →
    (q.mgr.requests.content r).isResponseReady = true →
      (r, (q.mgr.requests.content r).json) ∈ q.log.written

theorem InService.sequential {q : Process} (inService : InService q) : Sequential q := by
  obtain ⟨⟨hand, waiting, owned⟩, _, _, tied, store, replies⟩ := inService
  have records := owned.records
  refine ⟨⟨hand, waiting, records.accounts, records.taken, owned.queueList tied, ?_⟩,
    records.nodup, store, records.answered, ?_, records.ready⟩
  · intro entry member
    exact (records.unserved entry member).holds
  · have first := List.forall₂_take q.log.written.length replies
    rw [Process.answers, List.take_left' (List.length_map ..)] at first
    exact List.forall₂_map_left_iff.mp first

/-! Faults. -/

theorem InService.serve_fault {p : Process} {r : Nat} {locals : MgrLocals} {fault : Fault}
    (inService : InService p) (serving : p.mgrPc = .serve r)
    (posts : (postedTexts (p.log.queued.map Prod.snd)).length < 2 ^ 31)
    (stopped : handleRequest p.mgr locals r = .error fault) :
    p.mgr.requests.Live r ∧ fault = .overflow := by
  obtain ⟨hand, waiting, owned⟩ := inService.owned
  obtain ⟨request, rfl⟩ := owned.records.inHand serving
  have own := owned.records.unserved (r, request) (by simp)
  refine ⟨own.live, ?_⟩
  by_cases answerable : Answerable (postedTexts p.servedRequests) request
  · obtain ⟨served, done, _⟩ :=
      handleRequest_ok inService.store own.live own.holds locals answerable
    cases done.symm.trans stopped
  · cases (handleRequest_overflow inService.store own.live own.holds locals answerable).symm.trans
      stopped
    cases request with
    | get termId leftover => rfl
    | post text =>
        have queued : (postedTexts (p.log.queued.map Prod.snd)).length =
            (postedTexts p.servedRequests).length + 1 +
              (postedTexts (waiting.map Prod.snd)).length := by
          rw [owned.records.accounts]
          simp [postedTexts, Process.servedRequests, Request.text?]
          omega
        have full : ¬((postedTexts p.servedRequests).length : Int) < intMax := answerable
        simp only [intMax] at full
        omega

theorem InService.mgrStep_fault {p : Process} {locals : MgrLocals} {fault : Fault}
    (inService : InService p) (posts : (postedTexts (p.log.queued.map Prod.snd)).length < 2 ^ 31)
    (stopped : p.mgrStep locals = .error (.fault fault)) : fault = .overflow := by
  obtain ⟨hand, waiting, owned⟩ := inService.owned
  have looping := inService.looping
  cases pc : p.mgrPc with
  | loop =>
      simp only [Process.mgrStep, pc] at stopped
      cases stopped
  | lock =>
      simp only [Process.mgrStep, pc] at stopped
      split at stopped <;> cases stopped
  | dequeue =>
      obtain ⟨next, record, checked⟩ :
          ∃ next record, checkQueueAndGetRequest p.mgr = .ok (next, record) := by
        have queue := owned.queueList inService.tied
        cases waiting with
        | nil => exact ⟨_, _, checkQueueAndGetRequest_nil queue⟩
        | cons entry rest =>
            obtain ⟨list, tail, checked, _⟩ := checkQueueAndGetRequest_cons queue
            exact ⟨_, _, checked⟩
      simp only [Process.mgrStep, pc, checked] at stopped
      cases stopped
  | unlock newRequest =>
      cases newRequest with
      | none =>
          simp only [Process.mgrStep, pc] at stopped
          cases stopped
      | some r =>
          simp only [Process.mgrStep, pc] at stopped
          cases stopped
  | serve r =>
      obtain ⟨request, rfl⟩ := owned.records.inHand pc
      have own := owned.records.unserved (r, request) (by simp)
      simp only [Process.mgrStep, pc, Heap.load_ok own.live] at stopped
      rcases bind_eq_error.mp stopped with loaded | ⟨item, _, later⟩
      · cases loaded
      · rcases bind_eq_error.mp later with handled | ⟨mgr, _, last⟩
        · obtain ⟨other, same, equal⟩ := orStop_eq_error.mp handled
          cases equal
          exact (inService.serve_fault pc posts same).2
        · cases last
  | setReady r =>
      obtain ⟨live, _⟩ := owned.records.setReady pc
      simp only [Process.mgrStep, pc, setResponseReady_ok live, orStop, bind, Except.bind,
        Heap.load, Heap.live_set, live, if_true] at stopped
      cases stopped
  | free r =>
      obtain ⟨live, _⟩ := owned.records.free pc
      simp only [Process.mgrStep, pc, freeRequest_ok live] at stopped
      cases stopped
  | _ => rw [pc] at looping; exact looping.elim

theorem createStep_fault {p : Process} {h : Nat} {request : Request} {fault : Fault}
    (stopped : p.createStep h request = .error (.fault fault)) : fault = .overflow := by
  simp only [Process.createStep] at stopped
  split at stopped
  · split at stopped
    · rcases bind_eq_error.mp stopped with failed | ⟨created, _, last⟩
      · obtain ⟨other, same, equal⟩ := orStop_eq_error.mp failed
        cases equal
        exact createRequestQueueItem_error same
      · cases last
    · cases stopped
  · cases stopped

theorem Owned.addStep_runs {p : Process} {hand waiting : List (Nat × Request)} {h : Nat}
    {fault : Fault} (owned : Owned p hand waiting) : p.addStep h ≠ .error (.fault fault) := by
  intro stopped
  simp only [Process.addStep] at stopped
  split at stopped
  · rename_i record request here
    obtain ⟨unserved, _⟩ :=
      owned.handlers.pending h (record, request) (by rw [here]; rfl)
    obtain ⟨mgr, added⟩ := addRequestToQueue_runs unserved.live owned.tailLive
    rcases bind_eq_error.mp stopped with failed | ⟨mgr, _, last⟩
    · obtain ⟨other, same, _⟩ := orStop_eq_error.mp failed
      cases added.symm.trans same
    · cases last
  · cases stopped

theorem InService.copyStep_runs {p : Process} {h : Nat} {junk : Text} {fault : Fault}
    (inService : InService p) : p.copyStep h junk ≠ .error (.fault fault) := by
  obtain ⟨hand, waiting, owned⟩ := inService.owned
  intro stopped
  simp only [Process.copyStep] at stopped
  split at stopped
  · rename_i record here
    split at stopped
    · rename_i live
      have member := owned.handlers.awaited h record (by rw [here]; rfl)
      have written := owned.records.ready record member live
        (owned.handlers.copying h record here live)
      obtain ⟨reply, read⟩ := inService.written_read _ written
      simp only [read] at stopped
      cases stopped
    · cases stopped
  · cases stopped

theorem InService.handlerStep_fault {p : Process} {action : Action} {fault : Fault}
    (inService : InService p) (handler : action.handler ≠ none)
    (stopped : p.step action = .error (.fault fault)) : fault = .overflow := by
  obtain ⟨hand, waiting, owned⟩ := inService.owned
  cases action with
  | main => exact absurd rfl handler
  | mgr locals => exact absurd rfl handler
  | create h request => exact createStep_fault stopped
  | lock h =>
      simp only [Process.step, Process.lockStep] at stopped
      split at stopped
      · split at stopped <;> cases stopped
      · cases stopped
  | add h => exact absurd stopped owned.addStep_runs
  | unlock h =>
      simp only [Process.step, Process.unlockStep] at stopped
      split at stopped <;> cases stopped
  | test h seen =>
      simp only [Process.step, Process.testStep] at stopped
      split at stopped
      · split at stopped
        · split at stopped <;> cases stopped
        · split at stopped <;> cases stopped
      · cases stopped
  | copy h junk => exact absurd stopped inService.copyStep_runs

theorem InService.step_fault {p : Process} {action : Action} {fault : Fault}
    (inService : InService p) (inLoop : action ≠ .main)
    (posts : (postedTexts (p.log.queued.map Prod.snd)).length < 2 ^ 31)
    (stopped : p.step action = .error (.fault fault)) : fault = .overflow := by
  cases action with
  | main => exact absurd rfl inLoop
  | mgr locals => exact inService.mgrStep_fault posts stopped
  | _ =>
      refine inService.handlerStep_fault ?_ stopped
      simp [Action.handler]

/-- However the steps of the handlers and of the manager interleave, the process is a
sequential service, and only a write that does not fit its buffer can stop it. -/
theorem protocol_refines_service (mgr : EquipmentMgr) (actions : List Action)
    (running : mgr.sigEqMgrFlag = true) (inLoop : ∀ action ∈ actions, action ≠ .main) :
    (∀ q, runFrom Process.step (Process.steady mgr) actions = .ok q → Sequential q) ∧
      ∀ fault,
        Along Process.step
          (fun p _ => (postedTexts (p.log.queued.map Prod.snd)).length < 2 ^ 31)
          (Process.steady mgr) actions →
        runFrom Process.step (Process.steady mgr) actions = .error (.fault fault) →
          fault = .overflow := by
  have noMain : Along Process.step (fun _ action => action ≠ .main) (Process.steady mgr) actions :=
    along_of_forall inLoop _
  have preserved (p : Process) (action : Action) (q : Process) (inService : InService p)
      (inLoop : action ≠ .main) (done : p.step action = .ok q) : InService q :=
    inService.step inLoop done
  constructor
  · intro q reached
    exact (runFrom_invariant preserved (InService.steady running) noMain reached).sequential
  · intro fault posts stopped
    have faults (p : Process) (action : Action) (stop : Stop) (inService : InService p)
        (allowed : action ≠ .main ∧ (postedTexts (p.log.queued.map Prod.snd)).length < 2 ^ 31)
        (stopped : p.step action = .error stop) :
        stop = .disabled ∨ stop = .fault .overflow := by
      cases stop with
      | disabled => exact Or.inl rfl
      | fault other =>
          have same := inService.step_fault allowed.1 allowed.2 stopped
          exact Or.inr (congrArg Stop.fault same)
    have stop := runFrom_fault
      (fun p action q inService allowed => preserved p action q inService allowed.1) faults
      (InService.steady running) (along_and.mpr ⟨noMain, posts⟩) stopped
    rcases stop with disabled | overflow
    · cases disabled
    · exact Stop.fault.inj overflow

def longPost : Text :=
  ⟨List.replicate 1024 97, fun member => absurd (List.eq_of_mem_replicate member) (by decide)⟩

def overlapping : List Action :=
  [.create 0 (.post (lit "a")), .create 1 (.get 1 (lit "")), .lock 0, .add 0, .mgr MgrLocals.blank,
    .unlock 0, .mgr MgrLocals.blank, .mgr MgrLocals.blank, .mgr MgrLocals.blank, .lock 1,
    .mgr MgrLocals.blank, .add 1, .mgr MgrLocals.blank, .test 0 true, .unlock 1, .test 1 true,
    .copy 0 (lit ""), .mgr MgrLocals.blank, .mgr MgrLocals.blank, .mgr MgrLocals.blank,
    .mgr MgrLocals.blank, .mgr MgrLocals.blank, .mgr MgrLocals.blank, .mgr MgrLocals.blank,
    .test 1 true, .copy 1 (lit "")]

theorem protocol_refines_service_overlapping :
    (∃ q, runFrom Process.step (Process.steady EquipmentMgr.blank) overlapping = .ok q ∧
      q.log.sent = [(0, postReply 1), (1, singleReply (1, lit "a"))] ∧ Sequential q) ∧
    ∃ fault, runFrom Process.step (Process.steady EquipmentMgr.blank)
        [.create 0 (.post longPost)] = .error (.fault fault) ∧ fault = .overflow := by
  constructor
  · have sent : (runFrom Process.step (Process.steady EquipmentMgr.blank) overlapping).map
        (fun q => q.log.sent) = .ok [(0, postReply 1), (1, singleReply (1, lit "a"))] := by
      decide +kernel
    obtain ⟨q, reached, sent⟩ := map_eq_ok sent
    refine ⟨q, reached, sent, ?_⟩
    refine (protocol_refines_service EquipmentMgr.blank overlapping rfl ?_).1 q reached
    simp [overlapping]
  · have stopped : runFrom Process.step (Process.steady EquipmentMgr.blank)
        [.create 0 (.post longPost)] = .error (.fault .overflow) := by
      have failed : (runFrom Process.step (Process.steady EquipmentMgr.blank)
          [.create 0 (.post longPost)]).map (fun _ => ()) = .error (.fault .overflow) := by
        decide +kernel
      cases reached : runFrom Process.step (Process.steady EquipmentMgr.blank)
          [.create 0 (.post longPost)] with
      | error stop =>
          rw [reached] at failed
          cases failed
          rfl
      | ok q =>
          rw [reached] at failed
          cases failed
    refine ⟨.overflow, stopped, ?_⟩
    refine (protocol_refines_service EquipmentMgr.blank _ rfl ?_).2 .overflow ?_ stopped
    · simp
    · refine ⟨by decide, fun _ _ => trivial⟩

end SmartPay
