import SmartPay.CFormat
import SmartPay.CHeap
import SmartPay.Runs

/-!
The equipment manager of `equipmentMgr.c`: the terminal list, the request
queue, the reply texts and the database calls, on explicit heaps of nodes.
Every function returns the fault at which its C execution stops being defined.
-/

namespace SmartPay

open CLib

def dataSize : Nat := 1024

def methodSize : Nat := 10

def errorMsgSize : Nat := 512

def all : Int := -1

structure Terminals where
  id : Int
  transactions : Buf dataSize
  next : Option Nat

structure RequestQueueItem where
  method : Buf methodSize
  json : Buf dataSize
  termId : Int
  isResponseReady : Bool
  next : Option Nat

/-- The globals of `equipmentMgr.c` with the two heaps their pointers lead into. -/
structure EquipmentMgr where
  terminals : Heap Terminals
  requests : Heap RequestQueueItem
  termList : Option Nat
  termListTail : Option Nat
  globalTermCtr : Int
  requestQueueList : Option Nat
  requestQueueTail : Option Nat
  sigEqMgrFlag : Bool

/-- What the local arrays of the manager thread hold before they are written. -/
structure MgrLocals where
  tempTransHolder : Buf dataSize
  tempDataHolder : Buf dataSize
  errMsg : Buf errorMsgSize

def EquipmentMgr.blank : EquipmentMgr where
  terminals := Heap.blank { id := 0, transactions := Buf.ofText _ (lit ""), next := none }
  requests := Heap.blank
    { method := Buf.ofText _ (lit ""), json := Buf.ofText _ (lit ""), termId := 0,
      isResponseReady := false, next := none }
  termList := none
  termListTail := none
  globalTermCtr := 0
  requestQueueList := none
  requestQueueTail := none
  sigEqMgrFlag := true

def MgrLocals.blank : MgrLocals where
  tempTransHolder := Buf.ofText _ (lit "")
  tempDataHolder := Buf.ofText _ (lit "")
  errMsg := Buf.ofText _ (lit "")

inductive Status
  | fail
  | success
  deriving DecidableEq

def basicResponseWraper : Text := lit "\x7b \"Response\": \x7b %s \x7d \x7d"

def postIdTransWraper : Text := lit "\"terminalID\": %d, \"transactions\": [ %s ]"

def postIdWraper : Text := lit "\"terminalID\": %d"

def basicErrorWraper : Text := lit "\x7b \"error\": \x7b %s \x7d \x7d"

/-! Linked list manipulations. -/

/-- `malloc` is taken to succeed. -/
def createNode (mgr : EquipmentMgr) (transData : Text) :
    Except Fault (EquipmentMgr × Nat) := do
  let (terminals, newNode) := mgr.terminals.malloc
  if mgr.globalTermCtr = intMax then .error .intOverflow else
  let globalTermCtr := mgr.globalTermCtr + 1
  let node ← terminals.load newNode
  let transactions ← node.transactions.print 0 transData
  let terminals ← terminals.store newNode { node with id := globalTermCtr, transactions }
  .ok ({ mgr with terminals, globalTermCtr }, newNode)

def createTerminalFromJson (mgr : EquipmentMgr) (json : Text) :
    Except Fault (EquipmentMgr × Nat) := do
  let (mgr, newNode) ← createNode mgr (lit "")
  let node ← mgr.terminals.load newNode
  let transactions ← node.transactions.print 0 json
  let terminals ← mgr.terminals.store newNode { node with transactions }
  .ok ({ mgr with terminals }, newNode)

def addNodeToList (mgr : EquipmentMgr) (newNode : Nat) : Except Fault (EquipmentMgr × Int) := do
  let node ← mgr.terminals.load newNode
  let terminals ← mgr.terminals.store newNode { node with next := none }
  match mgr.termListTail with
  | none =>
      .ok ({ mgr with terminals, termList := some newNode, termListTail := some newNode }, node.id)
  | some tail => do
      let last ← terminals.load tail
      let terminals ← terminals.store tail { last with next := some newNode }
      .ok ({ mgr with terminals, termListTail := some newNode }, node.id)

/-- The loop of `getTerminalById`; a walk longer than the heap is a cycle. -/
def getTerminalByIdFrom (terminals : Heap Terminals) (id : Int) :
    Nat → Option Nat → Except Fault (Option Nat)
  | _, none => .ok none
  | 0, some _ => .error .diverge
  | fuel + 1, some runner => do
      let node ← terminals.load runner
      if node.id = id then .ok (some runner) else getTerminalByIdFrom terminals id fuel node.next

def getTerminalById (mgr : EquipmentMgr) (id : Int) : Except Fault (Option Nat) :=
  getTerminalByIdFrom mgr.terminals id mgr.terminals.brk mgr.termList

def getAllTerminals (mgr : EquipmentMgr) : Option Nat := mgr.termList

/-- Both loops keep `headTerm`, `headReq` equal to the list they walk; the tails stay as they are. -/
def freeNodeList (mgr : EquipmentMgr) : Except Fault EquipmentMgr := do
  let (terminals, termList) ←
    freeFrom Terminals.next mgr.terminals.brk mgr.terminals mgr.termList mgr.termList
  let (requests, requestQueueList) ←
    freeFrom RequestQueueItem.next mgr.requests.brk mgr.requests mgr.requestQueueList
      mgr.requestQueueList
  .ok { mgr with terminals, requests, termList, requestQueueList }

/-! Replies. -/

/-- The loop of `createJsonFromList` that appends every terminal at `lastIndex`. -/
def appendTerminalsFrom {size : Nat} (terminals : Heap Terminals) :
    Nat → Option Nat → Buf size → Nat → Except Fault (Buf size × Nat)
  | _, none, respJson, lastIndex => .ok (respJson, lastIndex)
  | 0, some _, _, _ => .error .diverge
  | fuel + 1, some runner, respJson, lastIndex => do
      let node ← terminals.load runner
      let transactions ← node.transactions.cstr
      let written := format postIdTransWraper [.d node.id, .s transactions]
      let respJson ← respJson.print lastIndex written
      let lastIndex := lastIndex + written.length
      let respJson ← respJson.print lastIndex (lit ", ")
      appendTerminalsFrom terminals fuel node.next respJson (lastIndex + (lit ", ").length)

def createJsonFromList {size : Nat} (mgr : EquipmentMgr) (tempTransHolder : Buf dataSize)
    (terms : Nat) (termId : Int) (respJson : Buf size) : Except Fault (Buf size) :=
  if termId ≠ all then do
    let node ← mgr.terminals.load terms
    let transactions ← node.transactions.cstr
    let tempTransHolder ←
      tempTransHolder.print 0 (format postIdTransWraper [.d node.id, .s transactions])
    let held ← tempTransHolder.cstr
    respJson.print 0 (format basicResponseWraper [.s held])
  else do
    let frame := format basicResponseWraper [.s (lit " ")]
    let respJson ← respJson.print 0 frame
    let (respJson, lastIndex) ←
      appendTerminalsFrom mgr.terminals mgr.terminals.brk mgr.termList respJson (frame.length - 3)
    respJson.print (lastIndex - 2) (lit " \x7d \x7d")

/-! Database manipulations. -/

def writeToDb (mgr : EquipmentMgr) (tempDataHolder json : Buf dataSize) :
    Except Fault (EquipmentMgr × Buf dataSize) := do
  let text ← json.cstr
  let (mgr, newNodePtr) ← createTerminalFromJson mgr text
  let (mgr, _) ← addNodeToList mgr newNodePtr
  let node ← mgr.terminals.load newNodePtr
  let tempDataHolder ← tempDataHolder.print 0 (format postIdWraper [.d node.id])
  let held ← tempDataHolder.cstr
  let json ← json.print 0 (format basicResponseWraper [.s held])
  .ok (mgr, json)

def readFromDb {size : Nat} (mgr : EquipmentMgr) (tempTransHolder : Buf dataSize) (termId : Int)
    (respJson : Buf size) (errMsg : Buf errorMsgSize) :
    Except Fault (Status × Buf size × Buf errorMsgSize) := do
  let terms ← (if termId = all then .ok (getAllTerminals mgr) else getTerminalById mgr termId)
  match terms with
  | none => do
      let errMsg ← errMsg.print 0 (format basicErrorWraper [.s (lit "No such terminal in DB")])
      .ok (.fail, respJson, errMsg)
  | some terms => do
      let respJson ← createJsonFromList mgr tempTransHolder terms termId respJson
      .ok (.success, respJson, errMsg)

/-! Request queue. -/

def mgrInit (mgr : EquipmentMgr) : EquipmentMgr :=
  { mgr with
    termList := none
    termListTail := none
    globalTermCtr := 0
    requestQueueList := none
    requestQueueTail := none }

/-- The last step reads the new tail back through the old one. -/
def addRequestToQueue (mgr : EquipmentMgr) (reqNodeToAdd : Nat) : Except Fault EquipmentMgr :=
  match mgr.requestQueueTail with
  | none => do
      let item ← mgr.requests.load reqNodeToAdd
      let requests ← mgr.requests.store reqNodeToAdd { item with next := none }
      .ok { mgr with
        requests
        requestQueueList := some reqNodeToAdd
        requestQueueTail := some reqNodeToAdd }
  | some tail => do
      let item ← mgr.requests.load reqNodeToAdd
      let requests ← mgr.requests.store reqNodeToAdd { item with next := none }
      let last ← requests.load tail
      let requests ← requests.store tail { last with next := some reqNodeToAdd }
      let last ← requests.load tail
      .ok { mgr with requests, requestQueueTail := last.next }

def createRequestQueueItem (mgr : EquipmentMgr) (jsonReq method : Text) (termId : Int)
    (isResponseReady : Bool) : Except Fault (EquipmentMgr × Nat) := do
  let (requests, reqNode) := mgr.requests.malloc
  let item ← requests.load reqNode
  let json ← item.json.print 0 jsonReq
  let method ← item.method.print 0 method
  let requests ← requests.store reqNode { item with json, method, termId, isResponseReady }
  .ok ({ mgr with requests }, reqNode)

def checkQueueAndGetRequest (mgr : EquipmentMgr) : Except Fault (EquipmentMgr × Option Nat) :=
  match mgr.requestQueueList with
  | none => .ok (mgr, none)
  | some tempReqHolder => do
      let item ← mgr.requests.load tempReqHolder
      if some tempReqHolder = mgr.requestQueueTail then
        .ok ({ mgr with requestQueueList := item.next, requestQueueTail := item.next },
          some tempReqHolder)
      else .ok ({ mgr with requestQueueList := item.next }, some tempReqHolder)

/-! The loop body of `mgrRoutine` for one request. -/

/-- The branch on the method: the reply replaces the request in the record's `json`. -/
def handleRequest (mgr : EquipmentMgr) (locals : MgrLocals) (newRequest : Nat) :
    Except Fault EquipmentMgr := do
  let item ← mgr.requests.load newRequest
  let method ← item.method.cstr
  if method = lit "GET" then do
    let (status, json, errMsg) ←
      readFromDb mgr locals.tempTransHolder item.termId item.json locals.errMsg
    let json ← (match status with
      | .fail => errMsg.cstr >>= json.print 0
      | .success => .ok json)
    let requests ← mgr.requests.store newRequest { item with json }
    .ok { mgr with requests }
  else if method = lit "POST" then do
    let (mgr, json) ← writeToDb mgr locals.tempDataHolder item.json
    let requests ← mgr.requests.store newRequest { item with json }
    .ok { mgr with requests }
  else .ok mgr

def setResponseReady (mgr : EquipmentMgr) (newRequest : Nat) : Except Fault EquipmentMgr := do
  let item ← mgr.requests.load newRequest
  let requests ← mgr.requests.store newRequest { item with isResponseReady := true }
  .ok { mgr with requests }

def freeRequest (mgr : EquipmentMgr) (newRequest : Nat) : Except Fault EquipmentMgr := do
  let requests ← mgr.requests.free (some newRequest)
  .ok { mgr with requests }

end SmartPay
