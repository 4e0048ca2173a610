import SmartPay.ConnectionChecks

/-!
The POST branch of the access handler with the memory it allocates: `post` and
`post->buff` are cells that come from `malloc`, and `*con_cls` is a pointer that a
connection keeps, also to a cell that has been released.
-/

namespace SmartPay

open CLib

/-- A `struct postStatus`. Until it is assigned, `buff` is no pointer. -/
structure PostCell where
  status : Bool
  buff : Option Nat

structure ServerHeap where
  mgr : EquipmentMgr
  postWithDataFlag : Bool
  posts : Heap PostCell
  buffs : Heap Text

structure HeapResult where
  answer : Answer
  uploadDataSize : Nat
  conCls : Option Nat
  server : ServerHeap

namespace ServerHeap

def start (mgr : EquipmentMgr) : ServerHeap where
  mgr := mgrInit mgr
  postWithDataFlag := false
  posts := Heap.blank { status := false, buff := none }
  buffs := Heap.blank (lit "")

def postWithData (locals : HandlerLocals) (post : Nat) (server : ServerHeap) :
    Except Fault (ServerHeap × Buf maxResponseSize) := do
  let cell ← server.posts.load post
  match cell.buff with
  | none => .error .uninitialised
  | some buff => do
      let body ← server.buffs.load buff
      let jsonReqResp ← locals.jsonReqResp.print 0 body
      let buffs ← server.buffs.free (some buff)
      let jsonReq ← jsonReqResp.cstr
      let (mgr, request) ← createRequestQueueItem server.mgr jsonReq (lit "POST") (-1) false
      let (mgr, json) ← requestResponse mgr locals.mgr request
      let jsonReqResp ← jsonReqResp.print 0 json
      .ok ({ server with mgr, buffs, postWithDataFlag := false }, jsonReqResp)

def answerPostLast (locals : HandlerLocals) (call : Call) (post : Nat) (server : ServerHeap) :
    Except Fault HeapResult := do
  let (server, jsonReqResp) ← (if server.postWithDataFlag then postWithData locals post server
    else do
      let jsonReqResp ← locals.jsonReqResp.print 0 jsonPostWithNoData
      .ok (server, jsonReqResp))
  let posts ← server.posts.free (some post)
  let sent ← jsonReqResp.cstr
  .ok { answer := sendResponse call sent, uploadDataSize := call.uploadDataSize,
        conCls := some post, server := { server with posts } }

/-- `malloc` is taken to succeed. -/
def firstPost (posts : Heap PostCell) : Option Nat → Except Fault (Heap PostCell × Nat)
  | some post => .ok (posts, post)
  | none => do
      let (posts, post) := posts.malloc
      let cell ← posts.load post
      let posts ← posts.store post { cell with status := false }
      .ok (posts, post)

def answerPost (locals : HandlerLocals) (url : Text) (call : Call) (conCls : Option Nat)
    (server : ServerHeap) : Except Fault HeapResult := do
  let endPoint ← sscanf url terminalsResource locals.endPoint
  if endPoint.bytes.headD 0 ≠ 0 then
    .ok { answer := sendResponse call jsonError, uploadDataSize := call.uploadDataSize, conCls,
          server }
  else do
    let (posts, post) ← firstPost server.posts conCls
    let cell ← posts.load post
    if !cell.status then do
      let posts ← posts.store post { cell with status := true }
      .ok { answer := .yes, uploadDataSize := call.uploadDataSize, conCls := some post,
            server := { server with posts } }
    else if call.uploadDataSize ≠ 0 then do
      let (buffs, buff) := server.buffs.malloc
      let posts ← posts.store post { cell with buff := some buff }
      let buffs ← buffs.store buff (Text.ofBytes call.uploadData)
      .ok { answer := .yes, uploadDataSize := 0, conCls := some post,
            server := { server with posts, buffs, postWithDataFlag := true } }
    else answerPostLast locals call post { server with posts }

/-- `answerToConnection` for a POST. -/
def answerToConnection (locals : HandlerLocals) (url : Text) (call : Call) (conCls : Option Nat)
    (server : ServerHeap) : Except Fault HeapResult :=
  if strstr url terminalsResource = false then
    .ok { answer := sendResponse call jsonError, uploadDataSize := call.uploadDataSize, conCls,
          server }
  else answerPost locals url call conCls server

end ServerHeap

structure ConnectionsHeap where
  server : ServerHeap
  conCls : Nat → Option Nat
  replies : List (Nat × Text)

def ConnectionsHeap.start (mgr : EquipmentMgr) : ConnectionsHeap where
  server := ServerHeap.start mgr
  conCls := fun _ => none
  replies := []

def handleOnHeap (url : Text) (state : ConnectionsHeap) (action : ConnectionCall) :
    Except Fault ConnectionsHeap := do
  let result ← ServerHeap.answerToConnection action.locals url action.call
    (state.conCls action.connection) state.server
  let replies := match result.answer with
    | .reply json => state.replies ++ [(action.connection, json)]
    | _ => state.replies
  .ok { server := result.server
        conCls := Function.update state.conCls action.connection result.conCls
        replies }

/-! One POST request after another. -/

/-- A POST request; when the client goes away, the last call is not made. -/
structure Upload where
  pieces : List (List UInt8)
  complete : Bool
  locals : Nat → HandlerLocals

def Upload.calls (upload : Upload) : List Call :=
  .first :: (upload.pieces.map .data ++ if upload.complete then [.last] else [])

namespace ServerHeap

def exchangeFrom (locals : Nat → HandlerLocals) (url : Text) :
    Nat → List Call → Option Nat → ServerHeap → Except Fault (ServerHeap × Outcome)
  | _, [], _, server => .ok (server, .unanswered)
  | index, call :: rest, conCls, server => do
      let result ← answerToConnection (locals index) url call conCls server
      match result.answer with
      | .reply json => .ok (result.server, .replied json)
      | .no => .ok (result.server, .closed)
      | .yes => exchangeFrom locals url (index + 1) rest result.conCls result.server

def session (url : Text) : List Upload → ServerHeap → Except Fault ServerHeap
  | [], server => .ok server
  | upload :: rest, server => do
      let (server, _) ← exchangeFrom upload.locals url 0 upload.calls none server
      session url rest server

end ServerHeap

/-! What a pointer stands for. -/

def ServerHeap.view (server : ServerHeap) : Server where
  mgr := server.mgr
  postWithDataFlag := server.postWithDataFlag

def ServerHeap.status (server : ServerHeap) : Option Nat → ConCls
  | none => .null
  | some post =>
      if server.posts.Live post then
        .post {
          status := (server.posts.content post).status
          buff := (server.posts.content post).buff.map server.buffs.content }
      else .dangling

def HeapResult.view (result : HeapResult) : CallResult where
  answer := result.answer
  uploadDataSize := result.uploadDataSize
  conCls := result.server.status result.conCls
  server := result.server.view

def ConnectionsHeap.view (state : ConnectionsHeap) : Connections where
  server := state.server.view
  conCls := fun connection => state.server.status (state.conCls connection)
  replies := state.replies

end SmartPay
