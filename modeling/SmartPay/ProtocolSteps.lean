import SmartPay.ProtocolCore
import SmartPay.ManagerChecks

/-!
What each step of a thread does, said once: the place it is taken from, what
must hold there, and the state it leads to.
-/

namespace SmartPay

open CLib

inductive MainMove (p : Process) : Process → Prop
  | startDaemon (pc : p.mainPc = .startDaemon) : MainMove p { p with mainPc := .createThread }
  | createThread (pc : p.mainPc = .createThread) :
      MainMove p { p with mainPc := .getchar, mgrPc := .init }
  | getchar (pc : p.mainPc = .getchar) :
      MainMove p { p with mainPc := .waitFlag, mgr := { p.mgr with sigEqMgrFlag := false } }
  | later {next : MainPc} (late : next ≠ .startDaemon ∧ next ≠ .createThread) :
      MainMove p { p with mainPc := next }

inductive MgrMove (p : Process) (locals : MgrLocals) : Process → Prop
  | init (pc : p.mgrPc = .init) :
      MgrMove p locals { p with mgr := initLists p.mgr, mgrPc := .initTail }
  | initTail (pc : p.mgrPc = .initTail) :
      MgrMove p locals { p with mgr := initTail p.mgr, mgrPc := .loop }
  | loop (pc : p.mgrPc = .loop) :
      MgrMove p locals { p with mgrPc := if p.mgr.sigEqMgrFlag then .lock else .freeLists }
  | lock (pc : p.mgrPc = .lock) (free : p.mutex = none) :
      MgrMove p locals { p with mutex := some .manager, mgrPc := .dequeue }
  | dequeue {mgr : EquipmentMgr} {newRequest : Option Nat} (pc : p.mgrPc = .dequeue)
      (checked : checkQueueAndGetRequest p.mgr = .ok (mgr, newRequest)) :
      MgrMove p locals { p with mgr, mgrPc := .unlock newRequest }
  | unlockNone (pc : p.mgrPc = .unlock none) :
      MgrMove p locals { p with mutex := none, mgrPc := .loop }
  | unlockSome {r : Nat} (pc : p.mgrPc = .unlock (some r)) :
      MgrMove p locals { p with mutex := none, mgrPc := .serve r }
  | serve {mgr : EquipmentMgr} {r : Nat} (pc : p.mgrPc = .serve r)
      (served : handleRequest p.mgr locals r = .ok mgr) :
      MgrMove p locals { p with
        mgr
        mgrPc := .setReady r
        log := { p.log with
          served := p.log.served ++ [(r, (p.mgr.requests.content r).request)] } }
  | setReady {r : Nat} (pc : p.mgrPc = .setReady r) (live : p.mgr.requests.Live r) :
      MgrMove p locals { p with
        mgr := { p.mgr with
          requests :=
            p.mgr.requests.set r { p.mgr.requests.content r with isResponseReady := true } }
        mgrPc := .free r
        log := { p.log with
          written := p.log.written ++ [(r, (p.mgr.requests.content r).json)] } }
  | free {r : Nat} (pc : p.mgrPc = .free r) (live : p.mgr.requests.Live r) :
      MgrMove p locals { p with
        mgr := { p.mgr with requests := p.mgr.requests.release r live }
        mgrPc := .loop }
  | freeLists {mgr : EquipmentMgr} (pc : p.mgrPc = .freeLists)
      (freed : freeTerminals p.mgr = .ok mgr) :
      MgrMove p locals { p with mgr, mgrPc := .freeReqs p.mgr.requestQueueList }
  | freeReqsEnd {headReq : Option Nat} (pc : p.mgrPc = .freeReqs headReq)
      (empty : p.mgr.requestQueueList = none) : MgrMove p locals { p with mgrPc := .signal }
  | freeReqsMore {headReq : Option Nat} (pc : p.mgrPc = .freeReqs headReq)
      (more : p.mgr.requestQueueList ≠ none) :
      MgrMove p locals { p with mgrPc := .freeNext headReq }
  | freeNext {headReq : Option Nat} {r : Nat} (pc : p.mgrPc = .freeNext headReq)
      (list : p.mgr.requestQueueList = some r) (live : p.mgr.requests.Live r) :
      MgrMove p locals { p with
        mgr := { p.mgr with requestQueueList := (p.mgr.requests.content r).next }
        mgrPc := .freeReq headReq }
  | freeReqNull (pc : p.mgrPc = .freeReq none) : MgrMove p locals { p with mgrPc := .freeMove }
  | freeReq {r : Nat} (pc : p.mgrPc = .freeReq (some r)) (live : p.mgr.requests.Live r) :
      MgrMove p locals { p with
        mgr := { p.mgr with requests := p.mgr.requests.release r live }
        mgrPc := .freeMove }
  | freeMove (pc : p.mgrPc = .freeMove) :
      MgrMove p locals { p with mgrPc := .freeReqs p.mgr.requestQueueList }
  | signal (pc : p.mgrPc = .signal) :
      MgrMove p locals { p with mgr := { p.mgr with sigEqMgrFlag := true }, mgrPc := .returning }
  | returning (pc : p.mgrPc = .returning) : MgrMove p locals { p with mgrPc := .finished }

inductive HandlerMove (p : Process) : Action → Process → Prop
  | create {h : Nat} {request : Request} {item : RequestQueueItem} (here : p.handlers h = .idle)
      (holds : RecordHolds item request) (unready : item.isResponseReady = false) :
      HandlerMove p (.create h request) { p with
        mgr := { p.mgr with requests := p.mgr.requests.malloc.1.set p.mgr.requests.brk item }
        handlers := p.setHandler h (.lock p.mgr.requests.brk request)
        busy := p.busy + 1 }
  | lock {h record : Nat} {request : Request} (here : p.handlers h = .lock record request)
      (free : p.mutex = none) :
      HandlerMove p (.lock h) { p with
        mutex := some (.handler h)
        handlers := p.setHandler h (.add record request) }
  | add {h record : Nat} {request : Request} {mgr : EquipmentMgr}
      (here : p.handlers h = .add record request) (added : addRequestToQueue p.mgr record = .ok mgr) :
      HandlerMove p (.add h) { p with
        mgr
        handlers := p.setHandler h (.unlock record)
        log := { p.log with queued := p.log.queued ++ [(record, request)] } }
  | unlock {h record : Nat} (here : p.handlers h = .unlock record) :
      HandlerMove p (.unlock h) { p with
        mutex := none
        handlers := p.setHandler h (.wait record)
        log := { p.log with accepted := p.log.accepted ++ [record] } }
  | testReady {h record : Nat} {seen : Bool} (here : p.handlers h = .wait record)
      (live : p.mgr.requests.Live record)
      (ready : (p.mgr.requests.content record).isResponseReady = true) :
      HandlerMove p (.test h seen) { p with handlers := p.setHandler h (.copy record) }
  | testAgain {h record : Nat} {seen : Bool} (here : p.handlers h = .wait record)
      (live : p.mgr.requests.Live record) : HandlerMove p (.test h seen) p
  | testStale {h record : Nat} {seen : Bool} (here : p.handlers h = .wait record)
      (dead : ¬p.mgr.requests.Live record) :
      HandlerMove p (.test h seen) { p with
        handlers := p.setHandler h (.copy record)
        log := { p.log with stale := p.log.stale ++ [record] } }
  | testStaleAgain {h record : Nat} {seen : Bool} (here : p.handlers h = .wait record)
      (dead : ¬p.mgr.requests.Live record) :
      HandlerMove p (.test h seen) { p with
        log := { p.log with stale := p.log.stale ++ [record] } }
  | copy {h record : Nat} {junk json : Text} (here : p.handlers h = .copy record)
      (live : p.mgr.requests.Live record)
      (read : (p.mgr.requests.content record).json.cstr = .ok json) :
      HandlerMove p (.copy h junk) { p with
        handlers := p.setHandler h .idle
        busy := p.busy - 1
        log := { p.log with sent := p.log.sent ++ [(record, json)] } }
  | copyStale {h record : Nat} {junk : Text} (here : p.handlers h = .copy record)
      (dead : ¬p.mgr.requests.Live record) :
      HandlerMove p (.copy h junk) { p with
        handlers := p.setHandler h .idle
        busy := p.busy - 1
        log := { p.log with
          sent := p.log.sent ++ [(record, junk)]
          stale := p.log.stale ++ [record] } }

section Moves

variable {p q : Process}

theorem mainStep_moves (done : p.mainStep = .ok q) : MainMove p q := by
  simp only [Process.mainStep] at done
  split at done
  · rename_i pc
    cases done
    exact MainMove.startDaemon pc
  · rename_i pc
    cases done
    exact MainMove.createThread pc
  · rename_i pc
    cases done
    exact MainMove.getchar pc
  · cases done
    apply MainMove.later
    split <;> simp
  · split at done
    · cases done
      exact MainMove.later (by simp)
    · cases done
  · split at done
    · cases done
      exact MainMove.later (by simp)
    · cases done
  · cases done

theorem mgrStep_moves {locals : MgrLocals} (done : p.mgrStep locals = .ok q) :
    MgrMove p locals q := by
  cases pc : p.mgrPc with
  | notCreated =>
      simp only [Process.mgrStep, pc] at done
      cases done
  | init =>
      simp only [Process.mgrStep, pc] at done
      cases done
      exact MgrMove.init pc
  | initTail =>
      simp only [Process.mgrStep, pc] at done
      cases done
      exact MgrMove.initTail pc
  | loop =>
      simp only [Process.mgrStep, pc] at done
      cases done
      exact MgrMove.loop pc
  | lock =>
      simp only [Process.mgrStep, pc] at done
      split at done
      · rename_i free
        cases done
        exact MgrMove.lock pc free
      · cases done
  | dequeue =>
      simp only [Process.mgrStep, pc] at done
      obtain ⟨⟨mgr, newRequest⟩, checked, done⟩ := bind_eq_ok.mp done
      cases done
      exact MgrMove.dequeue pc (orStop_eq_ok.mp checked)
  | unlock newRequest =>
      cases newRequest with
      | none =>
          simp only [Process.mgrStep, pc] at done
          cases done
          exact MgrMove.unlockNone pc
      | some r =>
          simp only [Process.mgrStep, pc] at done
          cases done
          exact MgrMove.unlockSome pc
  | serve r =>
      simp only [Process.mgrStep, pc] at done
      obtain ⟨item, loaded, done⟩ := bind_eq_ok.mp done
      obtain ⟨mgr, served, done⟩ := bind_eq_ok.mp done
      cases done
      obtain ⟨_, rfl⟩ := Heap.load_eq_ok (orStop_eq_ok.mp loaded)
      exact MgrMove.serve pc (orStop_eq_ok.mp served)
  | setReady r =>
      simp only [Process.mgrStep, pc] at done
      obtain ⟨mgr, marked, done⟩ := bind_eq_ok.mp done
      obtain ⟨after, reloaded, done⟩ := bind_eq_ok.mp done
      cases done
      obtain ⟨before, loaded, marked⟩ := bind_eq_ok.mp (orStop_eq_ok.mp marked)
      obtain ⟨requests, stored, marked⟩ := bind_eq_ok.mp marked
      cases marked
      obtain ⟨live, rfl⟩ := Heap.load_eq_ok loaded
      obtain ⟨_, rfl⟩ := Heap.store_eq_ok stored
      obtain ⟨_, rfl⟩ := Heap.load_eq_ok (orStop_eq_ok.mp reloaded)
      simp only [Heap.set_content_same]
      exact MgrMove.setReady pc live
  | free r =>
      simp only [Process.mgrStep, pc] at done
      obtain ⟨mgr, freed, done⟩ := bind_eq_ok.mp done
      cases done
      obtain ⟨requests, released, freed⟩ := bind_eq_ok.mp (orStop_eq_ok.mp freed)
      cases freed
      obtain ⟨live, rfl⟩ := Heap.free_eq_ok released
      exact MgrMove.free pc live
  | freeLists =>
      simp only [Process.mgrStep, pc] at done
      obtain ⟨mgr, freed, done⟩ := bind_eq_ok.mp done
      cases done
      exact MgrMove.freeLists pc (orStop_eq_ok.mp freed)
  | freeReqs headReq =>
      simp only [Process.mgrStep, pc] at done
      cases done
      split
      · rename_i empty
        exact MgrMove.freeReqsEnd pc empty
      · rename_i more
        exact MgrMove.freeReqsMore pc more
  | freeNext headReq =>
      simp only [Process.mgrStep, pc] at done
      obtain ⟨mgr, moved, done⟩ := bind_eq_ok.mp done
      cases done
      replace moved := orStop_eq_ok.mp moved
      simp only [nextRequest] at moved
      split at moved
      · cases moved
      · rename_i r list
        obtain ⟨item, loaded, moved⟩ := bind_eq_ok.mp moved
        cases moved
        obtain ⟨live, rfl⟩ := Heap.load_eq_ok loaded
        exact MgrMove.freeNext pc list live
  | freeReq headReq =>
      simp only [Process.mgrStep, pc] at done
      obtain ⟨mgr, freed, done⟩ := bind_eq_ok.mp done
      cases done
      obtain ⟨requests, released, freed⟩ := bind_eq_ok.mp (orStop_eq_ok.mp freed)
      cases freed
      cases headReq with
      | none =>
          cases released
          exact MgrMove.freeReqNull pc
      | some r =>
          obtain ⟨live, rfl⟩ := Heap.free_eq_ok released
          exact MgrMove.freeReq pc live
  | freeMove =>
      simp only [Process.mgrStep, pc] at done
      cases done
      exact MgrMove.freeMove pc
  | signal =>
      simp only [Process.mgrStep, pc] at done
      cases done
      exact MgrMove.signal pc
  | returning =>
      simp only [Process.mgrStep, pc] at done
      cases done
      exact MgrMove.returning pc
  | finished =>
      simp only [Process.mgrStep, pc] at done
      cases done

theorem createStep_moves {h : Nat} {request : Request} (done : p.createStep h request = .ok q) :
    HandlerMove p (.create h request) q := by
  simp only [Process.createStep] at done
  split at done
  · rename_i here
    split at done
    · obtain ⟨⟨mgr, record⟩, created, done⟩ := bind_eq_ok.mp done
      cases done
      obtain ⟨item, rfl, rfl, json, method, termId, unready⟩ :=
        createRequestQueueItem_inv (orStop_eq_ok.mp created)
      exact HandlerMove.create here ⟨method, json, termId⟩ unready
    · cases done
  · cases done

theorem lockStep_moves {h : Nat} (done : p.lockStep h = .ok q) : HandlerMove p (.lock h) q := by
  simp only [Process.lockStep] at done
  split at done
  · rename_i record request here
    split at done
    · rename_i free
      cases done
      exact HandlerMove.lock here free
    · cases done
  · cases done

theorem addStep_moves {h : Nat} (done : p.addStep h = .ok q) : HandlerMove p (.add h) q := by
  simp only [Process.addStep] at done
  split at done
  · rename_i record request here
    obtain ⟨mgr, added, done⟩ := bind_eq_ok.mp done
    cases done
    exact HandlerMove.add here (orStop_eq_ok.mp added)
  · cases done

theorem unlockStep_moves {h : Nat} (done : p.unlockStep h = .ok q) :
    HandlerMove p (.unlock h) q := by
  simp only [Process.unlockStep] at done
  split at done
  · rename_i record here
    cases done
    exact HandlerMove.unlock here
  · cases done

theorem testStep_moves {h : Nat} {seen : Bool} (done : p.testStep h seen = .ok q) :
    HandlerMove p (.test h seen) q := by
  simp only [Process.testStep] at done
  split at done
  · rename_i record here
    split at done
    · rename_i live
      split at done
      · rename_i ready
        cases done
        exact HandlerMove.testReady here live ready
      · cases done
        exact HandlerMove.testAgain here live
    · rename_i dead
      split at done
      · cases done
        exact HandlerMove.testStale here dead
      · cases done
        exact HandlerMove.testStaleAgain here dead
  · cases done

theorem copyStep_moves {h : Nat} {junk : Text} (done : p.copyStep h junk = .ok q) :
    HandlerMove p (.copy h junk) q := by
  simp only [Process.copyStep] at done
  split at done
  · rename_i record here
    split at done
    · rename_i live
      obtain ⟨json, read, done⟩ := bind_eq_ok.mp done
      cases done
      exact HandlerMove.copy here live (orStop_eq_ok.mp read)
    · rename_i dead
      cases done
      exact HandlerMove.copyStale here dead
  · cases done

theorem handlerStep_moves {action : Action} (handler : action.handler ≠ none)
    (done : p.step action = .ok q) : HandlerMove p action q := by
  cases action with
  | main => exact absurd rfl handler
  | mgr locals => exact absurd rfl handler
  | create h request => exact createStep_moves done
  | lock h => exact lockStep_moves done
  | add h => exact addStep_moves done
  | unlock h => exact unlockStep_moves done
  | test h seen => exact testStep_moves done
  | copy h junk => exact copyStep_moves done

theorem HandlerMove.elsewhere {action : Action} (move : HandlerMove p action q) {k : Nat}
    (other : action.handler ≠ some k) : q.handlers k = p.handlers k := by
  have apart {h : Nat} (pc : HandlerPc) (different : some h ≠ some k) :
      p.setHandler h pc k = p.handlers k :=
    Function.update_of_ne (fun same => different (congrArg some same.symm)) ..
  cases move with
  | testAgain here live => rfl
  | testStaleAgain here dead => rfl
  | _ => exact apart _ other

theorem MainMove.handlers (move : MainMove p q) : q.handlers = p.handlers := by
  cases move <;> rfl

theorem MgrMove.handlers {locals : MgrLocals} (move : MgrMove p locals q) :
    q.handlers = p.handlers := by
  cases move <;> rfl

theorem MgrMove.created {locals : MgrLocals} (move : MgrMove p locals q) :
    p.mgrPc ≠ .notCreated := by
  cases move <;> simp [*]

/-- A step moves no handler but the one that takes it. -/
theorem step_elsewhere {action : Action} {k : Nat} (done : p.step action = .ok q)
    (other : action.handler ≠ some k) : q.handlers k = p.handlers k := by
  cases action with
  | main => rw [(mainStep_moves done).handlers]
  | mgr locals => rw [(mgrStep_moves done).handlers]
  | _ => exact (handlerStep_moves (by simp [Action.handler]) done).elsewhere other

end Moves

/-! Undisturbed, the manager's steps are the calls of `mgrInit` and of `freeNodeList`. -/

theorem mgrInit_steps {p : Process} (locals : MgrLocals) (pc : p.mgrPc = .init) :
    runFrom Process.step p (List.replicate 2 (.mgr locals)) =
      .ok { p with mgr := mgrInit p.mgr, mgrPc := .loop } := by
  simp only [List.replicate, runFrom, Process.step, Process.mgrStep, pc, ok_bind, mgrInit_split]

theorem freeReqs_ends {p : Process} {headReq : Option Nat} (locals : MgrLocals)
    (pc : p.mgrPc = .freeReqs headReq) (empty : p.mgr.requestQueueList = none) :
    runFrom Process.step p (List.replicate 1 (.mgr locals)) = .ok { p with mgrPc := .signal } := by
  simp only [List.replicate, runFrom, Process.step, Process.mgrStep, pc, empty, if_true, ok_bind]

theorem freeRequests_steps {p : Process} {locals : MgrLocals} {fuel : Nat}
    {requests : Heap RequestQueueItem} {last headReq : Option Nat}
    (pc : p.mgrPc = .freeReqs headReq)
    (done : freeFrom RequestQueueItem.next fuel p.mgr.requests p.mgr.requestQueueList headReq =
      .ok (requests, last)) :
    ∃ n, runFrom Process.step p (List.replicate n (.mgr locals)) = .ok { p with
      mgr := { p.mgr with requests, requestQueueList := last }
      mgrPc := .signal } := by
  induction fuel generalizing p headReq with
  | zero =>
      cases list : p.mgr.requestQueueList with
      | none =>
          rw [list] at done
          cases done
          rw [← list]
          exact ⟨1, freeReqs_ends locals pc list⟩
      | some r =>
          rw [list] at done
          cases done
  | succ fuel ih =>
      cases list : p.mgr.requestQueueList with
      | none =>
          rw [list] at done
          cases done
          rw [← list]
          exact ⟨1, freeReqs_ends locals pc list⟩
      | some r =>
          rw [list] at done
          obtain ⟨node, loaded, done⟩ := bind_eq_ok.mp done
          obtain ⟨freed, released, done⟩ := bind_eq_ok.mp done
          let next : Process := { p with
            mgr := { p.mgr with requests := freed, requestQueueList := node.next }
            mgrPc := .freeReqs node.next }
          obtain ⟨n, ran⟩ := @ih next node.next rfl done
          refine ⟨4 + n, ?_⟩
          have round : runFrom Process.step p (List.replicate 4 (.mgr locals)) = .ok next := by
            simp only [List.replicate, runFrom, Process.step, Process.mgrStep, pc, list,
              reduceCtorEq, if_false, nextRequest, freeHead, loaded, released, orStop, ok_bind,
              next]
          rw [List.replicate_add, runFrom_append round ran]

theorem freeNodeList_steps {p : Process} {freed : EquipmentMgr} (locals : MgrLocals)
    (pc : p.mgrPc = .freeLists) (done : freeNodeList p.mgr = .ok freed) :
    ∃ n, runFrom Process.step p (List.replicate n (.mgr locals)) =
      .ok { p with mgr := freed, mgrPc := .signal } := by
  obtain ⟨⟨terminals, termList⟩, terms, done⟩ := bind_eq_ok.mp done
  obtain ⟨⟨requests, last⟩, reqs, done⟩ := bind_eq_ok.mp done
  cases done
  let next : Process := { p with
    mgr := { p.mgr with terminals, termList }
    mgrPc := .freeReqs p.mgr.requestQueueList }
  have first : runFrom Process.step p (List.replicate 1 (.mgr locals)) = .ok next := by
    simp only [List.replicate, runFrom, Process.step, Process.mgrStep, pc, freeTerminals, terms,
      orStop, ok_bind, next]
  obtain ⟨n, ran⟩ := @freeRequests_steps next locals _ _ _ _ rfl reqs
  refine ⟨1 + n, ?_⟩
  rw [List.replicate_add, runFrom_append first ran]

end SmartPay
