import SmartPay.RunHttpServerCore
import SmartPay.ServiceReference

/-!
The process as a transition system: the main thread, the manager thread and any
number of handlers take turns. A handler that reads a record which has been
released goes on with an arbitrary value, and the log remembers it.
-/

namespace SmartPay

open CLib

inductive Owner
  | manager
  | handler (h : Nat)
  deriving DecidableEq

inductive MainPc
  | startDaemon
  | createThread
  | getchar
  | waitFlag
  | join
  | stopDaemon
  | exited
  deriving DecidableEq

inductive MgrPc
  | notCreated
  | init
  | initTail
  | loop
  | lock
  | dequeue
  | unlock (newRequest : Option Nat)
  | serve (newRequest : Nat)
  | setReady (newRequest : Nat)
  | free (newRequest : Nat)
  | freeLists
  | freeReqs (headReq : Option Nat)
  | freeNext (headReq : Option Nat)
  | freeReq (headReq : Option Nat)
  | freeMove
  | signal
  | returning
  | finished
  deriving DecidableEq

/-- Where a handler is with its record, from `createRequestQueueItem` to the copy of the reply. -/
inductive HandlerPc
  | idle
  | lock (record : Nat) (request : Request)
  | add (record : Nat) (request : Request)
  | unlock (record : Nat)
  | wait (record : Nat)
  | copy (record : Nat)

/-- What has happened so far, record by record. -/
structure Log where
  queued : List (Nat × Request)
  accepted : List Nat
  served : List (Nat × Request)
  written : List (Nat × Buf dataSize)
  sent : List (Nat × Text)
  stale : List Nat

structure Process where
  mgr : EquipmentMgr
  mutex : Option Owner
  mainPc : MainPc
  mgrPc : MgrPc
  handlers : Nat → HandlerPc
  busy : Nat
  log : Log

inductive Action
  | main
  | mgr (locals : MgrLocals)
  | create (h : Nat) (request : Request)
  | lock (h : Nat)
  | add (h : Nat)
  | unlock (h : Nat)
  | test (h : Nat) (seen : Bool)
  | copy (h : Nat) (junk : Text)

def Action.handler : Action → Option Nat
  | main => none
  | mgr _ => none
  | create h _ => some h
  | lock h => some h
  | add h => some h
  | unlock h => some h
  | test h _ => some h
  | copy h _ => some h

inductive Stop
  | disabled
  | fault (fault : Fault)
  deriving DecidableEq

def orStop {α : Type} : Except Fault α → Except Stop α
  | .ok value => .ok value
  | .error fault => .error (.fault fault)

theorem orStop_eq_ok {α : Type} {result : Except Fault α} {value : α} :
    orStop result = .ok value ↔ result = .ok value := by
  cases result <;> simp [orStop]

theorem orStop_eq_error {α : Type} {result : Except Fault α} {stop : Stop} :
    orStop result = .error stop ↔ ∃ fault, result = .error fault ∧ stop = .fault fault := by
  cases result with
  | ok value => simp [orStop]
  | error fault => simp [orStop, eq_comm]

/-- The request that a record asks for. -/
def RequestQueueItem.request (item : RequestQueueItem) : Request :=
  if Text.ofBytes item.method.bytes = lit "GET" then
    .get item.termId (Text.ofBytes item.json.bytes)
  else .post (Text.ofBytes item.json.bytes)

/-! `mgrInit` and `freeNodeList` take no lock, so that a handler can step in between their
statements on the request queue. -/

/-- `mgrInit` up to the head of the request queue. -/
def initLists (mgr : EquipmentMgr) : EquipmentMgr :=
  { mgr with
    termList := none
    termListTail := none
    globalTermCtr := 0
    requestQueueList := none }

def initTail (mgr : EquipmentMgr) : EquipmentMgr := { mgr with requestQueueTail := none }

theorem mgrInit_split (mgr : EquipmentMgr) : mgrInit mgr = initTail (initLists mgr) := rfl

/-- The first loop of `freeNodeList`. Only the manager uses the list of terminals. -/
def freeTerminals (mgr : EquipmentMgr) : Except Fault EquipmentMgr := do
  let (terminals, termList) ←
    freeFrom Terminals.next mgr.terminals.brk mgr.terminals mgr.termList mgr.termList
  .ok { mgr with terminals, termList }

/-- `requestQueueList = requestQueueList->next;` -/
def nextRequest (mgr : EquipmentMgr) : Except Fault EquipmentMgr :=
  match mgr.requestQueueList with
  | none => .error .nullPointer
  | some record => do
      let item ← mgr.requests.load record
      .ok { mgr with requestQueueList := item.next }

/-- `free(headReq);` -/
def freeHead (mgr : EquipmentMgr) (headReq : Option Nat) : Except Fault EquipmentMgr := do
  let requests ← mgr.requests.free headReq
  .ok { mgr with requests }

namespace Process

def setHandler (p : Process) (h : Nat) (pc : HandlerPc) : Nat → HandlerPc :=
  Function.update p.handlers h pc

/-- Libmicrohttpd calls the access handler between the start and the stop of the daemon. -/
def daemonRuns (p : Process) : Bool := p.mainPc ≠ .startDaemon ∧ p.mainPc ≠ .exited

/-- `MHD_stop_daemon` waits for the calls in progress. -/
def mainStep (p : Process) : Except Stop Process :=
  match p.mainPc with
  | .startDaemon => .ok { p with mainPc := .createThread }
  | .createThread => .ok { p with mainPc := .getchar, mgrPc := .init }
  | .getchar =>
      .ok { p with mainPc := .waitFlag, mgr := { p.mgr with sigEqMgrFlag := false } }
  | .waitFlag => .ok { p with mainPc := if p.mgr.sigEqMgrFlag then .join else .waitFlag }
  | .join => if p.mgrPc = .finished then .ok { p with mainPc := .stopDaemon } else .error .disabled
  | .stopDaemon => if p.busy = 0 then .ok { p with mainPc := .exited } else .error .disabled
  | .exited => .error .disabled

def mgrStep (p : Process) (locals : MgrLocals) : Except Stop Process :=
  match p.mgrPc with
  | .notCreated => .error .disabled
  | .init => .ok { p with mgr := initLists p.mgr, mgrPc := .initTail }
  | .initTail => .ok { p with mgr := initTail p.mgr, mgrPc := .loop }
  | .loop => .ok { p with mgrPc := if p.mgr.sigEqMgrFlag then .lock else .freeLists }
  | .lock =>
      if p.mutex = none then .ok { p with mutex := some .manager, mgrPc := .dequeue }
      else .error .disabled
  | .dequeue => do
      let (mgr, newRequest) ← orStop (checkQueueAndGetRequest p.mgr)
      .ok { p with mgr, mgrPc := .unlock newRequest }
  | .unlock none => .ok { p with mutex := none, mgrPc := .loop }
  | .unlock (some newRequest) => .ok { p with mutex := none, mgrPc := .serve newRequest }
  | .serve newRequest => do
      let item ← orStop (p.mgr.requests.load newRequest)
      let mgr ← orStop (handleRequest p.mgr locals newRequest)
      let log := { p.log with served := p.log.served ++ [(newRequest, item.request)] }
      .ok { p with mgr, mgrPc := .setReady newRequest, log }
  | .setReady newRequest => do
      let mgr ← orStop (setResponseReady p.mgr newRequest)
      let item ← orStop (mgr.requests.load newRequest)
      let log := { p.log with written := p.log.written ++ [(newRequest, item.json)] }
      .ok { p with mgr, mgrPc := .free newRequest, log }
  | .free newRequest => do
      let mgr ← orStop (freeRequest p.mgr newRequest)
      .ok { p with mgr, mgrPc := .loop }
  | .freeLists => do
      let headReq := p.mgr.requestQueueList
      let mgr ← orStop (freeTerminals p.mgr)
      .ok { p with mgr, mgrPc := .freeReqs headReq }
  | .freeReqs headReq =>
      .ok { p with mgrPc := if p.mgr.requestQueueList = none then .signal else .freeNext headReq }
  | .freeNext headReq => do
      let mgr ← orStop (nextRequest p.mgr)
      .ok { p with mgr, mgrPc := .freeReq headReq }
  | .freeReq headReq => do
      let mgr ← orStop (freeHead p.mgr headReq)
      .ok { p with mgr, mgrPc := .freeMove }
  | .freeMove => .ok { p with mgrPc := .freeReqs p.mgr.requestQueueList }
  | .signal => .ok { p with mgr := { p.mgr with sigEqMgrFlag := true }, mgrPc := .returning }
  | .returning => .ok { p with mgrPc := .finished }
  | .finished => .error .disabled

def createStep (p : Process) (h : Nat) (request : Request) : Except Stop Process :=
  match p.handlers h with
  | .idle =>
      if p.daemonRuns then do
        let (mgr, record) ← orStop
          (createRequestQueueItem p.mgr request.json request.method request.termId false)
        .ok { p with mgr, handlers := p.setHandler h (.lock record request), busy := p.busy + 1 }
      else .error .disabled
  | _ => .error .disabled

def lockStep (p : Process) (h : Nat) : Except Stop Process :=
  match p.handlers h with
  | .lock record request =>
      if p.mutex = none then
        .ok { p with
          mutex := some (.handler h)
          handlers := p.setHandler h (.add record request) }
      else .error .disabled
  | _ => .error .disabled

def addStep (p : Process) (h : Nat) : Except Stop Process :=
  match p.handlers h with
  | .add record request => do
      let mgr ← orStop (queueReq p.mgr record)
      let log := { p.log with queued := p.log.queued ++ [(record, request)] }
      .ok { p with mgr, handlers := p.setHandler h (.unlock record), log }
  | _ => .error .disabled

def unlockStep (p : Process) (h : Nat) : Except Stop Process :=
  match p.handlers h with
  | .unlock record =>
      let log := { p.log with accepted := p.log.accepted ++ [record] }
      .ok { p with mutex := none, handlers := p.setHandler h (.wait record), log }
  | _ => .error .disabled

/-- One round of `while(!request->isResponseReady);`. -/
def testStep (p : Process) (h : Nat) (seen : Bool) : Except Stop Process :=
  match p.handlers h with
  | .wait record =>
      if p.mgr.requests.Live record then
        if (p.mgr.requests.content record).isResponseReady then
          .ok { p with handlers := p.setHandler h (.copy record) }
        else .ok p
      else
        let log := { p.log with stale := p.log.stale ++ [record] }
        if seen then .ok { p with handlers := p.setHandler h (.copy record), log }
        else .ok { p with log }
  | _ => .error .disabled

/-- The copy of `request->json` that is sent as the reply. -/
def copyStep (p : Process) (h : Nat) (junk : Text) : Except Stop Process :=
  match p.handlers h with
  | .copy record =>
      let handlers := p.setHandler h .idle
      if p.mgr.requests.Live record then do
        let json ← orStop (p.mgr.requests.content record).json.cstr
        let log := { p.log with sent := p.log.sent ++ [(record, json)] }
        .ok { p with handlers, busy := p.busy - 1, log }
      else
        let log := { p.log with
          sent := p.log.sent ++ [(record, junk)]
          stale := p.log.stale ++ [record] }
        .ok { p with handlers, busy := p.busy - 1, log }
  | _ => .error .disabled

def step (p : Process) : Action → Except Stop Process
  | .main => p.mainStep
  | .mgr locals => p.mgrStep locals
  | .create h request => p.createStep h request
  | .lock h => p.lockStep h
  | .add h => p.addStep h
  | .unlock h => p.unlockStep h
  | .test h seen => p.testStep h seen
  | .copy h junk => p.copyStep h junk

end Process

def Log.empty : Log where
  queued := []
  accepted := []
  served := []
  written := []
  sent := []
  stale := []

def Process.boot : Process where
  mgr := EquipmentMgr.blank
  mutex := none
  mainPc := .startDaemon
  mgrPc := .notCreated
  handlers := fun _ => .idle
  busy := 0
  log := Log.empty

/-- The process when the manager enters its loop. -/
def Process.steady (mgr : EquipmentMgr) : Process where
  mgr := mgrInit mgr
  mutex := none
  mainPc := .getchar
  mgrPc := .loop
  handlers := fun _ => .idle
  busy := 0
  log := Log.empty

end SmartPay
