import SmartPay.EquipmentMgrCore

/-!
The HTTP side of `runHttpServer.c`: the access handler, the id taken from the
URL, and one request as the sequence of handler calls that libmicrohttpd makes
for it. There is one HTTP thread, so a call runs until it returns while the
manager thread serves the queue.
-/

namespace SmartPay

open CLib

def maxEndpointSize : Nat := 10

def maxResponseSize : Nat := 1024

def terminalsResource : Text := lit "/api/terminals/"

def jsonPostWithNoData : Text := lit "\x7b 'error': [This is a POST request with NO data!] \x7d"

def jsonError : Text := lit "\x7b 'error': [Request was neither proper GET nor POST!] \x7d"

/-- `status` is set by the first call; `buff` is the string its pointer leads to, if it has one. -/
structure PostStatus where
  status : Bool
  buff : Option Text

/-- `*con_cls` of a connection; it keeps its value when the status is freed. -/
inductive ConCls
  | null
  | post (status : PostStatus)
  | dangling

/-- The state a connection is in when libmicrohttpd calls the access handler: before the upload,
with a part of it, or after it. -/
inductive Call
  | first
  | data (uploadData : List UInt8)
  | last

def Call.uploadDataSize : Call → Nat
  | .data uploadData => uploadData.length
  | _ => 0

def Call.uploadData : Call → List UInt8
  | .data uploadData => uploadData
  | _ => []

/-- `MHD_YES` without a reply, `MHD_NO`, or `MHD_YES` with a queued reply. -/
inductive Answer
  | yes
  | no
  | reply (json : Text)
  deriving DecidableEq

structure Server where
  mgr : EquipmentMgr
  postWithDataFlag : Bool

/-- What the local arrays of one call hold before they are written, on both threads. -/
structure HandlerLocals where
  endPoint : Buf maxEndpointSize
  jResponse : Buf maxResponseSize
  jsonReqResp : Buf maxResponseSize
  mgr : MgrLocals

def HandlerLocals.blank : HandlerLocals where
  endPoint := Buf.ofText _ (lit "")
  jResponse := Buf.ofText _ (lit "")
  jsonReqResp := Buf.ofText _ (lit "")
  mgr := MgrLocals.blank

structure CallResult where
  answer : Answer
  uploadDataSize : Nat
  conCls : ConCls
  server : Server

/-- `MHD_queue_response` takes a reply before and after the upload, and refuses it in between. -/
def sendResponse (call : Call) (json : Text) : Answer :=
  match call with
  | .data _ => .no
  | _ => .reply json

def getTerminalId (endPoint : Buf maxEndpointSize) (url : Text) : Except Fault Int := do
  let endPoint ← sscanf url terminalsResource endPoint
  if endPoint.bytes.headD 0 ≠ 0 then atoi endPoint.bytes else .ok all

def queueReq (mgr : EquipmentMgr) (request : Nat) : Except Fault EquipmentMgr :=
  addRequestToQueue mgr request

/-- Rounds of the manager's loop until it has set `isResponseReady` of the record. -/
def waitForResponse (locals : MgrLocals) (request : Nat) :
    Nat → EquipmentMgr → Except Fault EquipmentMgr
  | 0, _ => .error .diverge
  | fuel + 1, mgr =>
      if mgr.sigEqMgrFlag then do
        let (mgr, newRequest) ← checkQueueAndGetRequest mgr
        match newRequest with
        | none => .error .diverge
        | some newRequest => do
            let mgr ← handleRequest mgr locals newRequest
            let mgr ← setResponseReady mgr newRequest
            if newRequest = request then .ok mgr else do
              let mgr ← freeRequest mgr newRequest
              waitForResponse locals request fuel mgr
      else .error .diverge

/-- Queueing a record, waiting for it and copying its `json`; the manager frees it afterwards. -/
def requestResponse (mgr : EquipmentMgr) (locals : MgrLocals) (request : Nat) :
    Except Fault (EquipmentMgr × Text) := do
  let mgr ← queueReq mgr request
  let mgr ← waitForResponse locals request mgr.requests.brk mgr
  let item ← mgr.requests.load request
  let json ← item.json.cstr
  let mgr ← freeRequest mgr request
  .ok (mgr, json)

def answerGet (locals : HandlerLocals) (url : Text) (call : Call) (conCls : ConCls)
    (server : Server) : Except Fault CallResult := do
  let termId ← getTerminalId locals.endPoint url
  let jsonReq ← locals.jResponse.cstr
  let (mgr, request) ← createRequestQueueItem server.mgr jsonReq (lit "GET") termId false
  let (mgr, json) ← requestResponse mgr locals.mgr request
  let jResponse ← locals.jResponse.print 0 json
  let sent ← jResponse.cstr
  .ok { answer := sendResponse call sent, uploadDataSize := call.uploadDataSize, conCls,
        server := { server with mgr } }

/-- The body a POST with data has collected becomes a record and then its reply. -/
def postWithData (locals : HandlerLocals) (post : PostStatus) (mgr : EquipmentMgr) :
    Except Fault (EquipmentMgr × Buf maxResponseSize) :=
  match post.buff with
  | none => .error .uninitialised
  | some buff => do
      let jsonReqResp ← locals.jsonReqResp.print 0 buff
      let jsonReq ← jsonReqResp.cstr
      let (mgr, request) ← createRequestQueueItem mgr jsonReq (lit "POST") (-1) false
      let (mgr, json) ← requestResponse mgr locals.mgr request
      let jsonReqResp ← jsonReqResp.print 0 json
      .ok (mgr, jsonReqResp)

def answerPostLast (locals : HandlerLocals) (call : Call) (post : PostStatus) (server : Server) :
    Except Fault CallResult :=
  if server.postWithDataFlag then do
    let (mgr, jsonReqResp) ← postWithData locals post server.mgr
    let sent ← jsonReqResp.cstr
    .ok { answer := sendResponse call sent, uploadDataSize := call.uploadDataSize,
          conCls := .dangling, server := { mgr, postWithDataFlag := false } }
  else do
    let jsonReqResp ← locals.jsonReqResp.print 0 jsonPostWithNoData
    let sent ← jsonReqResp.cstr
    .ok { answer := sendResponse call sent, uploadDataSize := call.uploadDataSize,
          conCls := .dangling, server }

/-- `snprintf` keeps at most `*upload_data_size` bytes of the upload, up to a NUL. -/
def answerPost (locals : HandlerLocals) (url : Text) (call : Call) (conCls : ConCls)
    (server : Server) : Except Fault CallResult := do
  let endPoint ← sscanf url terminalsResource locals.endPoint
  if endPoint.bytes.headD 0 ≠ 0 then
    .ok { answer := sendResponse call jsonError, uploadDataSize := call.uploadDataSize, conCls,
          server }
  else
    match conCls with
    | .dangling => .error .useAfterFree
    | .null =>
        .ok { answer := .yes, uploadDataSize := call.uploadDataSize,
              conCls := .post { status := true, buff := none }, server }
    | .post post =>
        if !post.status then
          .ok { answer := .yes, uploadDataSize := call.uploadDataSize,
                conCls := .post { post with status := true }, server }
        else if call.uploadDataSize ≠ 0 then
          .ok { answer := .yes, uploadDataSize := 0,
                conCls := .post { post with buff := some (Text.ofBytes call.uploadData) },
                server := { server with postWithDataFlag := true } }
        else answerPostLast locals call post server

def answerToConnection (locals : HandlerLocals) (url method : Text) (call : Call)
    (conCls : ConCls) (server : Server) : Except Fault CallResult :=
  if strstr url terminalsResource = false then
    .ok { answer := sendResponse call jsonError, uploadDataSize := call.uploadDataSize, conCls,
          server }
  else if method = lit "GET" then answerGet locals url call conCls server
  else if method = lit "POST" then answerPost locals url call conCls server
  else
    .ok { answer := sendResponse call jsonError, uploadDataSize := call.uploadDataSize, conCls,
          server }

/-! One request as libmicrohttpd runs it. -/

inductive Outcome
  | replied (json : Text)
  | closed
  | unanswered
  deriving DecidableEq

def callsFor (pieces : List (List UInt8)) : List Call :=
  .first :: (pieces.map .data ++ [.last])

/-- The handler is called until it queues a reply or makes libmicrohttpd close the connection. -/
def exchangeFrom (locals : Nat → HandlerLocals) (url method : Text) :
    Nat → List Call → ConCls → Server → Except Fault (Server × Outcome)
  | _, [], _, server => .ok (server, .unanswered)
  | index, call :: rest, conCls, server => do
      let result ← answerToConnection (locals index) url method call conCls server
      match result.answer with
      | .reply json => .ok (result.server, .replied json)
      | .no => .ok (result.server, .closed)
      | .yes => exchangeFrom locals url method (index + 1) rest result.conCls result.server

def exchange (locals : Nat → HandlerLocals) (url method : Text) (pieces : List (List UInt8))
    (server : Server) : Except Fault (Server × Outcome) :=
  exchangeFrom locals url method 0 (callsFor pieces) .null server

end SmartPay
