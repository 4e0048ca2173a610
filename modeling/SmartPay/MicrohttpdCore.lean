import SmartPay.Loops
import SmartPay.RunHttpServerCore

/-!
The part of libmicrohttpd's `connection.c` that makes calls of the access handler out of
the bytes of a connection: the request line, the header lines, the body and the footers.
The memory pool is taken to be large enough, so that no head is refused for its size. A
reply is followed up to the point where its header is ready to be sent.
-/

namespace SmartPay

open CLib

/-! `mhd_str.c` and `internal.c`. -/

def uint64Max : Nat := 2 ^ 64 - 1

def mhdSizeUnknown : Nat := uint64Max

def uint64Sub (a b : Nat) : Nat := (a + 2 ^ 64 - b) % 2 ^ 64

def toAsciiLower (c : UInt8) : UInt8 := if 65 ≤ c ∧ c ≤ 90 then c + 32 else c

def strEqualCaseless (first second : Text) : Bool :=
  first.bytes.map toAsciiLower = second.bytes.map toAsciiLower

def toXdigitValue (c : UInt8) : Option Nat :=
  if isDigit c then some (c.toNat - 48)
  else if 65 ≤ c ∧ c ≤ 70 then some (c.toNat - 55)
  else if 97 ≤ c ∧ c ≤ 102 then some (c.toNat - 87)
  else none

/-- The number of digits read and the value; there is no value without digits. -/
def strxToUint64N (maxlen : Nat) (str : List UInt8) : Nat × Option Nat :=
  digits maxlen str 0 0
where
  digits : Nat → List UInt8 → Nat → Nat → Nat × Option Nat
    | maxlen + 1, c :: rest, i, res =>
        match toXdigitValue c with
        | some digit =>
            if res > uint64Max / 16 ∨ (res = uint64Max / 16 ∧ digit > uint64Max % 16) then (0, none)
            else digits maxlen rest (i + 1) (res * 16 + digit)
        | none => (i, if i = 0 then none else some res)
    | _, _, i, res => (i, if i = 0 then none else some res)

/-- The value and what follows the digits. -/
def strToUint64 (str : List UInt8) : Option (Nat × List UInt8) :=
  match str with
  | [] => none
  | c :: _ => if isDigit c then digits str 0 else none
where
  digits : List UInt8 → Nat → Option (Nat × List UInt8)
    | [], res => some (res, [])
    | c :: rest, res =>
        if isDigit c then
          let digit := c.toNat - 48
          if res > uint64Max / 10 ∨ (res = uint64Max / 10 ∧ digit > uint64Max % 10) then none
          else digits rest (res * 10 + digit)
        else some (res, c :: rest)

def httpUnescape : List UInt8 → List UInt8
  | [] => []
  | [c] => [c]
  | [c, d] => [c, d]
  | c :: d :: e :: rest =>
      if c = 37 then
        match toXdigitValue d, toXdigitValue e with
        | some high, some low => (16 * high + low).toUInt8 :: httpUnescape rest
        | _, _ => c :: httpUnescape (d :: e :: rest)
      else c :: httpUnescape (d :: e :: rest)

/-! `struct MHD_Connection`. -/

inductive MhdState
  | init
  | urlReceived
  | headerPartReceived
  | headersReceived
  | headersProcessed
  | continueSending
  | continueSent
  | bodyReceived
  | footerPartReceived
  | footersReceived
  | headersSending
  | closed
  deriving DecidableEq

/-- The states in the order in which a request passes them, counted from the end. -/
def MhdState.rank : MhdState → Nat
  | .init => 10
  | .urlReceived => 9
  | .headerPartReceived => 8
  | .headersReceived => 7
  | .headersProcessed => 6
  | .continueSending => 5
  | .continueSent => 4
  | .bodyReceived => 3
  | .footerPartReceived => 2
  | .footersReceived => 1
  | .headersSending => 0
  | .closed => 0

inductive MhdValueKind
  | header
  | footer
  deriving DecidableEq

structure MhdHttpHeader where
  kind : MhdValueKind
  header : Text
  value : Text
  deriving DecidableEq

/-- `readBuffer` is the part of the buffer that has been filled and not been used. The socket is
`writeClosed` once it has been shut down for writing. -/
structure MhdConnection where
  state : MhdState
  readBuffer : List UInt8
  method : Text
  url : Text
  version : Text
  last : Text
  colon : Text
  headersReceived : List MhdHttpHeader
  response : Option Text
  responseCode : Nat
  responseWritePosition : Nat
  readClosed : Bool
  remainingUploadSize : Nat
  haveChunkedUpload : Bool
  currentChunkSize : Nat
  currentChunkOffset : Nat
  continueWritten : Bool
  writeClosed : Bool
  deriving DecidableEq

structure HandlerReturn (σ : Type) where
  answer : Answer
  uploadDataSize : Nat
  context : σ

/-- The access handler with its URL, its method and the state of the application. -/
abbrev AccessHandler (ε σ : Type) := Text → Text → Call → σ → Except ε (HandlerReturn σ)

inductive Halt (ε : Type)
  | panic
  | handler (fault : ε)
  deriving DecidableEq

def orHalt {ε α : Type} : Except ε α → Except (Halt ε) α
  | .ok value => .ok value
  | .error fault => .error (.handler fault)

def cr : UInt8 := 13

def lf : UInt8 := 10

def isEol (c : UInt8) : Bool := c == cr || c == lf

def isBlank (c : UInt8) : Bool := c == 32 || c == 9

/-- The line without its end, and what follows it. -/
def getNextHeaderLine : List UInt8 → Option (List UInt8 × List UInt8)
  | [] => none
  | [c] => if c = lf then some ([], []) else none
  | c :: d :: rest =>
      if c = cr then some ([], if d = lf then rest else d :: rest)
      else if c = lf then some ([], d :: rest)
      else (getNextHeaderLine (d :: rest)).map fun (line, after) => (c :: line, after)

def emptyLine (line : List UInt8) : Bool := line.headD 0 == 0

/-- The method, the URL and the version; the arguments behind the `?` are not kept. -/
def parseInitialMessageLine (line : List UInt8) : Option (Text × Text × Text) :=
  if 32 ∈ line then
    let method := Text.ofBytes (line.takeWhile (· ≠ 32))
    let uri := (line.dropWhile (· ≠ 32)).dropWhile (· = 32)
    let spaced := (uri.rdropWhile (· = 32)).rdropWhile (· ≠ 32)
    let (uri, version) :=
      if spaced = [] then (uri, []) else (spaced.dropLast, uri.drop spaced.length)
    let url := (Text.ofBytes (uri.takeWhile (· ≠ 63))).bytes
    some (method, Text.ofBytes (httpUnescape url), Text.ofBytes version)
  else none

/-- `last` and `colon` for a line with a colon. -/
def processHeaderLine (line : List UInt8) : Option (Text × Text) :=
  let bytes := (Text.ofBytes line).bytes
  if 58 ∈ bytes then
    some (Text.ofBytes (bytes.takeWhile (· ≠ 58)),
      Text.ofBytes ((bytes.dropWhile (· ≠ 58)).tail.dropWhile isBlank))
  else none

namespace MhdConnection

def start : MhdConnection where
  state := .init
  readBuffer := []
  method := lit ""
  url := lit ""
  version := lit ""
  last := lit ""
  colon := lit ""
  headersReceived := []
  response := none
  responseCode := 0
  responseWritePosition := 0
  readClosed := false
  remainingUploadSize := 0
  haveChunkedUpload := false
  currentChunkSize := 0
  currentChunkOffset := 0
  continueWritten := false
  writeClosed := false

def closeError (c : MhdConnection) : MhdConnection :=
  { c with state := .closed, response := none, writeClosed := true }

/-- An upload that a reply at the first call refuses. -/
def isUpload (c : MhdConnection) : Bool :=
  strEqualCaseless c.method (lit "POST") || strEqualCaseless c.method (lit "PUT")

/-- Of a reply without a body, all of it counts as sent. -/
def setResponse (c : MhdConnection) (statusCode : Nat) (json : Text) : MhdConnection :=
  { c with
    response := some json
    responseCode := statusCode
    responseWritePosition :=
      if strEqualCaseless c.method (lit "HEAD") || statusCode < 200 || statusCode == 204 ||
          statusCode == 304 then json.length
      else c.responseWritePosition }

@[simp] theorem setResponse_state (c : MhdConnection) (statusCode : Nat) (json : Text) :
    (c.setResponse statusCode json).state = c.state := rfl

@[simp] theorem setResponse_response (c : MhdConnection) (statusCode : Nat) (json : Text) :
    (c.setResponse statusCode json).response = some json := rfl

@[simp] theorem setResponse_method (c : MhdConnection) (statusCode : Nat) (json : Text) :
    (c.setResponse statusCode json).method = c.method := rfl

@[simp] theorem setResponse_remainingUploadSize (c : MhdConnection) (statusCode : Nat)
    (json : Text) : (c.setResponse statusCode json).remainingUploadSize = c.remainingUploadSize :=
  rfl

def queueResponse (c : MhdConnection) (statusCode : Nat) (json : Text) : Option MhdConnection :=
  if c.response.isSome ∨ (c.state ≠ .headersProcessed ∧ c.state ≠ .footersReceived) then none
  else if c.state = .headersProcessed ∧ c.isUpload then
    some { c.setResponse statusCode json with readClosed := true, state := .footersReceived }
  else some (c.setResponse statusCode json)

def requestMalformed : Text :=
  lit "<html><head><title>Request malformed</title></head><body>Your HTTP request was " ++
    lit "syntactically incorrect.</body></html>"

def transmitErrorResponse (c : MhdConnection) (statusCode : Nat) (message : Text) : MhdConnection :=
  { c.setResponse statusCode message with state := .headersSending, readClosed := true }

def lookupConnectionValue (c : MhdConnection) (key : Text) : Option Text :=
  (c.headersReceived.find? fun pos =>
    pos.kind == .header && strEqualCaseless key pos.header).map MhdHttpHeader.value

def need100Continue (c : MhdConnection) : Bool :=
  c.response.isNone && strEqualCaseless c.version (lit "HTTP/1.1") &&
    (match c.lookupConnectionValue (lit "Expect") with
      | some expect => strEqualCaseless expect (lit "100-continue")
      | none => false) &&
    !c.continueWritten

/-- A folded line is added to the name of the header, which is the string that `last` leads to. -/
def processBrokenLine (c : MhdConnection) (line : List UInt8) (kind : MhdValueKind) :
    Bool × MhdConnection :=
  if isBlank (line.headD 0) then
    (true, { c with last := c.last ++ Text.ofBytes (line.dropWhile isBlank) })
  else
    let c := { c with
      headersReceived := c.headersReceived ++ [{ kind, header := c.last, value := c.colon }] }
    if emptyLine line then (true, c)
    else
      match processHeaderLine line with
      | none => (false, c.closeError.transmitErrorResponse 400 requestMalformed)
      | some (last, colon) => (true, { c with last, colon })

def parseConnectionHeaders (c : MhdConnection) : MhdConnection :=
  match c.lookupConnectionValue (lit "Transfer-Encoding") with
  | some enc =>
      { c with
        remainingUploadSize := mhdSizeUnknown
        haveChunkedUpload := strEqualCaseless enc (lit "chunked") || c.haveChunkedUpload }
  | none =>
      match c.lookupConnectionValue (lit "Content-Length") with
      | none => { c with remainingUploadSize := 0 }
      | some clen =>
          match strToUint64 clen.bytes with
          | some (size, []) => { c with remainingUploadSize := size }
          | _ => { c with remainingUploadSize := 0 }.closeError

/-! The body. -/

def skipEol (buffer : List UInt8) : List UInt8 :=
  if isEol (buffer.headD 0) then buffer.tail else buffer

/-- The line end behind a chunk, in two parts. -/
def skipChunkEnd (c : MhdConnection) : Option MhdConnection :=
  if c.currentChunkOffset = c.currentChunkSize ∧ c.currentChunkOffset ≠ 0 ∧
      2 ≤ c.readBuffer.length then
    if isEol (c.readBuffer.headD 0) then
      some { c with
        readBuffer := skipEol (skipEol c.readBuffer)
        currentChunkOffset := 0
        currentChunkSize := 0 }
    else none
  else some c

/-- The size is missing where the line has no digits. -/
inductive SizeLine
  | incomplete
  | malformed
  | read (size : Option Nat) (rest : List UInt8)

/-- `end_size`. -/
def sizeEnd (buffer : List UInt8) : Nat :=
  ((buffer.take 16).takeWhile fun b => !isEol b && b != 59).length

/-- The beginning of the line end, behind the chunk extensions. -/
def sizeLineEnd (buffer : List UInt8) : Nat :=
  if buffer[sizeEnd buffer]? = some 59 then
    sizeEnd buffer + ((buffer.drop (sizeEnd buffer)).takeWhile fun b => !isEol b).length
  else sizeEnd buffer

/-- A last chunk is taken with the first part of its line end. -/
def sizeLine (buffer : List UInt8) : SizeLine :=
  if buffer.length ≤ sizeLineEnd buffer + 1 ∧
      ¬(sizeLineEnd buffer = 1 ∧ buffer.length = 2 ∧ buffer.head? = some 48) then .incomplete
  else if 16 ≤ sizeEnd buffer ∨ (strxToUint64N (sizeEnd buffer) buffer).1 ≠ sizeEnd buffer then
    .malformed
  else
    .read (strxToUint64N (sizeEnd buffer) buffer).2
      (skipEol (buffer.drop (sizeLineEnd buffer + 1)))

/-- The loop goes on when there is data behind the line. -/
def readChunkSize (c : MhdConnection) : Bool × MhdConnection :=
  match sizeLine c.readBuffer with
  | .incomplete => (false, c)
  | .malformed => (false, c.closeError)
  | .read size rest =>
      let c := { c with
        readBuffer := rest
        currentChunkOffset := 0
        currentChunkSize := size.getD c.currentChunkSize }
      if c.currentChunkSize = 0 then (false, { c with remainingUploadSize := 0 })
      else (!rest.isEmpty, c)

/-- What the library does with an answer. A reply that it refuses is an `MHD_NO` of the handler. -/
def takeAnswer (c : MhdConnection) : Answer → MhdConnection
  | .yes => c
  | .no => c.closeError
  | .reply json => (c.queueResponse 200 json).getD c.closeError

def bytesProcessed (c : MhdConnection) (processedSize : Nat) : MhdConnection :=
  { c with
    readBuffer := c.readBuffer.drop processedSize
    currentChunkOffset :=
      if c.haveChunkedUpload then c.currentChunkOffset + processedSize else c.currentChunkOffset
    remainingUploadSize :=
      if c.remainingUploadSize = mhdSizeUnknown then c.remainingUploadSize
      else uint64Sub c.remainingUploadSize processedSize }

section Handler

variable {ε σ : Type} (handler : AccessHandler ε σ)

/-- The first call or the last one, by the state of the connection. -/
def callConnectionHandler (call : Call) (state : MhdConnection × σ) :
    Except (Halt ε) (MhdConnection × σ) :=
  if state.1.response.isSome then .ok state else do
    let result ← orHalt (handler state.1.url state.1.method call state.2)
    .ok (state.1.takeAnswer result.answer, result.context)

/-- The call for `toBeProcessed` bytes of the body. -/
def deliver (toBeProcessed : Nat) (instantRetry : Bool) (state : MhdConnection × σ) :
    Except (Halt ε) (Bool × MhdConnection × σ) := do
  let result ← orHalt
    (handler state.1.url state.1.method (.data (state.1.readBuffer.take toBeProcessed)) state.2)
  if (state.1.takeAnswer result.answer).state = .closed then
    .ok (false, state.1.takeAnswer result.answer, result.context)
  else if toBeProcessed < result.uploadDataSize then .error .panic
  else
    .ok (instantRetry && result.uploadDataSize == 0,
      (state.1.takeAnswer result.answer).bytesProcessed (toBeProcessed - result.uploadDataSize),
      result.context)

/-- In a chunked body, behind the line end of the last chunk. -/
def chunkStep (state : MhdConnection × σ) : Except (Halt ε) (Bool × MhdConnection × σ) :=
  let available := state.1.readBuffer.length
  let left := state.1.currentChunkSize - state.1.currentChunkOffset
  if state.1.currentChunkOffset < state.1.currentChunkSize then
    if available < left then deliver handler available false state
    else deliver handler left (left < available) state
  else .ok (state.1.readChunkSize.1, state.1.readChunkSize.2, state.2)

/-- One round of the loop in `process_request_body`. -/
def bodyStep (state : MhdConnection × σ) : Except (Halt ε) (Bool × MhdConnection × σ) :=
  let available := state.1.readBuffer.length
  let remaining := state.1.remainingUploadSize
  if state.1.haveChunkedUpload ∧ remaining = mhdSizeUnknown then
    match state.1.skipChunkEnd with
    | none => .ok (false, state.1.closeError, state.2)
    | some c => chunkStep handler (c, state.2)
  else if remaining ≠ 0 ∧ remaining ≠ mhdSizeUnknown ∧ remaining < available then
    deliver handler remaining false state
  else deliver handler available false state

/-- Every further round has used a part of the buffer. -/
def bodySize (state : MhdConnection × σ) : Nat := state.1.readBuffer.length

def processRequestBody (state : MhdConnection × σ) : Except (Halt ε) (MhdConnection × σ) :=
  if state.1.response.isSome then .ok state else loop (bodyStep handler) bodySize state

/-! `MHD_connection_handle_idle`. -/

/-- Without a full line. -/
def waitLine (c : MhdConnection) : Bool × MhdConnection :=
  if c.readClosed then (true, c.closeError) else (false, c)

def initStep (c : MhdConnection) : Bool × MhdConnection :=
  match getNextHeaderLine c.readBuffer with
  | none => c.waitLine
  | some (line, rest) =>
      let c := { c with readBuffer := rest }
      if emptyLine line then c.waitLine
      else
        match parseInitialMessageLine line with
        | none => (true, c.closeError)
        | some (method, url, version) =>
            (true, { c with state := .urlReceived, method, url, version })

/-- The line after the request line, and the first line after a chunked body. -/
def firstLineStep (empty other : MhdState) (c : MhdConnection) : Bool × MhdConnection :=
  match getNextHeaderLine c.readBuffer with
  | none => c.waitLine
  | some (line, rest) =>
      let c := { c with readBuffer := rest }
      if emptyLine line then (true, { c with state := empty })
      else
        match processHeaderLine line with
        | none => (false, c.closeError.transmitErrorResponse 400 requestMalformed)
        | some (last, colon) => (true, { c with state := other, last, colon })

def laterLineStep (kind : MhdValueKind) (empty : MhdState) (c : MhdConnection) :
    Bool × MhdConnection :=
  match getNextHeaderLine c.readBuffer with
  | none => c.waitLine
  | some (line, rest) =>
      match { c with readBuffer := rest }.processBrokenLine line kind with
      | (false, c) => (true, c)
      | (true, c) => (true, if emptyLine line then { c with state := empty } else c)

def urlReceivedStep : MhdConnection → Bool × MhdConnection :=
  firstLineStep .headersReceived .headerPartReceived

def headerPartReceivedStep : MhdConnection → Bool × MhdConnection :=
  laterLineStep .header .headersReceived

def bodyReceivedStep : MhdConnection → Bool × MhdConnection :=
  firstLineStep .footersReceived .footerPartReceived

def footerPartReceivedStep : MhdConnection → Bool × MhdConnection :=
  laterLineStep .footer .footersReceived

def headersReceivedStep (c : MhdConnection) : Bool × MhdConnection :=
  let c := c.parseConnectionHeaders
  (true, if c.state = .closed then c else { c with state := .headersProcessed })

/-- After the first call. The `100 Continue` message is sent before anything else is read, so it is
taken as sent in the step after this one. -/
def firstCallDone (c : MhdConnection) : Bool × MhdConnection :=
  if c.state = .closed then (true, c)
  else if c.need100Continue then (true, { c with state := .continueSending })
  else
    let c := if c.response.isSome ∧ c.isUpload then
        { c with remainingUploadSize := 0, readClosed := true }
      else c
    (true, { c with
      state := if c.remainingUploadSize = 0 then .footersReceived else .continueSent })

def bodyProcessed (c : MhdConnection) : Bool × MhdConnection :=
  if c.state = .closed then (true, c)
  else if c.remainingUploadSize = 0 ∨
      (c.remainingUploadSize = mhdSizeUnknown ∧ c.readBuffer = [] ∧ c.readClosed) then
    (true, { c with
      state := if c.haveChunkedUpload ∧ !c.readClosed then .bodyReceived else .footersReceived })
  else (false, c)

/-- After the last call. -/
def lastCallDone (c : MhdConnection) : Bool × MhdConnection :=
  if c.state = .closed then (true, c)
  else if c.response.isNone then (false, c)
  else (false, { c with state := .headersSending })

def withContext (context : σ) (next : Bool × MhdConnection) :
    Except (Halt ε) (Bool × MhdConnection × σ) :=
  .ok (next.1, next.2, context)

def idleStep (state : MhdConnection × σ) : Except (Halt ε) (Bool × MhdConnection × σ) :=
  match state.1.state with
  | .init => withContext state.2 state.1.initStep
  | .urlReceived => withContext state.2 state.1.urlReceivedStep
  | .headerPartReceived => withContext state.2 state.1.headerPartReceivedStep
  | .headersReceived => withContext state.2 state.1.headersReceivedStep
  | .headersProcessed => do
      let state ← callConnectionHandler handler .first state
      withContext state.2 state.1.firstCallDone
  | .continueSending =>
      withContext state.2 (true, { state.1 with state := .continueSent, continueWritten := true })
  | .continueSent => do
      let state ← (if state.1.readBuffer = [] then .ok state else processRequestBody handler state)
      withContext state.2 state.1.bodyProcessed
  | .bodyReceived => withContext state.2 state.1.bodyReceivedStep
  | .footerPartReceived => withContext state.2 state.1.footerPartReceivedStep
  | .footersReceived => do
      let state ← callConnectionHandler handler .last state
      withContext state.2 state.1.lastCallDone
  | .headersSending => withContext state.2 (false, state.1)
  | .closed => withContext state.2 (false, state.1)

def idleSize (state : MhdConnection × σ) : Nat :=
  state.1.readBuffer.length + state.1.state.rank

def handleIdle (state : MhdConnection × σ) : Except (Halt ε) (MhdConnection × σ) :=
  loop (idleStep handler) idleSize state

/-- Nothing to read means that the client has closed the connection. -/
def handleRead (c : MhdConnection) (bytesRead : List UInt8) : MhdConnection :=
  if c.state = .closed then c
  else if bytesRead = [] then { c with readClosed := true }.closeError
  else { c with readBuffer := c.readBuffer ++ bytesRead }

/-- `MHD_EVENT_LOOP_INFO_READ`. -/
def wantsRead (c : MhdConnection) : Bool :=
  !c.readClosed &&
    match c.state with
    | .init | .urlReceived | .headerPartReceived | .continueSent | .bodyReceived
    | .footerPartReceived => true
    | _ => false

/-- A reply goes out, or the connection is given up. -/
def ended (c : MhdConnection) : Bool := c.state = .headersSending ∨ c.state = .closed

/-- The connection in the rounds of the daemon, for as long as it takes what they bring. In a round
that brings nothing there is only `MHD_connection_handle_idle`. -/
def receive : List (List UInt8) → MhdConnection × σ →
    Except (Halt ε) ((MhdConnection × σ) × List (List UInt8))
  | [], state => .ok (state, [])
  | bytesRead :: rest, state =>
      if state.1.ended then .ok (state, bytesRead :: rest)
      else if bytesRead = [] then do
        let state ← handleIdle handler state
        receive rest state
      else if state.1.wantsRead then do
        let state ← handleIdle handler (state.1.handleRead bytesRead, state.2)
        receive rest state
      else .ok (state, bytesRead :: rest)

/-- A round in which the client has closed the connection. -/
def hangUp (state : MhdConnection × σ) : Except (Halt ε) (MhdConnection × σ) :=
  if state.1.wantsRead then handleIdle handler (state.1.handleRead [], state.2) else .ok state

end Handler

end MhdConnection

end SmartPay
