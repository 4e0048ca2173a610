import SmartPay.MicrohttpdCore

/-!
A connection that is kept alive. When its reply has been sent, the connection is closed
or made ready for the next request, of which a part may already be in its read buffer.
-/

namespace SmartPay

open CLib

/-! `MHD_str_has_token_caseless_`. -/

inductive TokenMatch
  | ended
  | found
  | differs (rest : List UInt8)

/-- The string is used up to where it differs, the differing character with it. -/
def matchToken : List UInt8 → List UInt8 → TokenMatch
  | [], str =>
      match str.dropWhile isBlank with
      | [] => .found
      | c :: rest => if c = 44 then .found else .differs (c :: rest)
  | _ :: _, [] => .ended
  | tc :: token, sc :: str =>
      if toAsciiLower sc ≠ toAsciiLower tc then .differs str else matchToken token str

/-- Every round uses at least one character. -/
def hasTokenFrom (token : List UInt8) : Nat → List UInt8 → Bool
  | 0, _ => false
  | _ + 1, [] => false
  | fuel + 1, c :: str =>
      match matchToken token ((c :: str).dropWhile fun b => isBlank b || b == 44) with
      | .ended => false
      | .found => true
      | .differs rest => hasTokenFrom token fuel (rest.dropWhile (· ≠ 44))

def strHasTokenCaseless (str token : Text) : Bool :=
  token.bytes ≠ [] && hasTokenFrom token.bytes str.length str.bytes

inductive MhdKeepalive
  | unknown
  | useKeepalive
  | mustClose
  deriving DecidableEq

namespace MhdConnection

def lookupHeaderTokenCi (c : MhdConnection) (header token : Text) : Bool :=
  c.headersReceived.any fun pos =>
    pos.kind == .header && strEqualCaseless header pos.header && strHasTokenCaseless pos.value token

def keepalivePossible (c : MhdConnection) : Bool :=
  if strEqualCaseless c.version (lit "HTTP/1.1") then
    !c.lookupHeaderTokenCi (lit "Connection") (lit "upgrade") &&
      !c.lookupHeaderTokenCi (lit "Connection") (lit "close")
  else if strEqualCaseless c.version (lit "HTTP/1.0") then
    c.lookupHeaderTokenCi (lit "Connection") (lit "Keep-Alive")
  else false

/-- What `build_header_response` decides, for a reply that has a length and no `Connection` header
of its own. -/
def buildKeepalive (c : MhdConnection) : MhdKeepalive :=
  if c.version.bytes = [] then .unknown
  else if c.lookupHeaderTokenCi (lit "Connection") (lit "close") || c.readClosed then .mustClose
  else if c.keepalivePossible then .useKeepalive
  else .unknown

/-- `MHD_CONNECTION_FOOTERS_SENT`. -/
def replySent (c : MhdConnection) : MhdConnection :=
  let next := { c with
    response := none
    continueWritten := false
    responseCode := 0
    headersReceived := []
    responseWritePosition := 0
    haveChunkedUpload := false
    currentChunkSize := 0
    currentChunkOffset := 0
    method := lit ""
    url := lit "" }
  if c.buildKeepalive ≠ .useKeepalive ∨ c.readClosed then
    { next with state := .closed, writeClosed := true, readBuffer := [] }
  else { next with version := lit "", state := .init, last := lit "", colon := lit "" }

/-- What goes out of the body of the reply. -/
def bodySent (c : MhdConnection) : Option Text :=
  c.response.map fun json => Text.ofBytes (json.bytes.drop c.responseWritePosition)

section Replies

variable {ε σ : Type} (handler : AccessHandler ε σ) (forget : σ → σ)

/-- A reply that is ready goes out, and `next` follows it. Over a socket that is shut down it cannot
be sent, and the connection is closed. -/
def sendReply
    (next : List (List UInt8) → MhdConnection × σ →
      Except (Halt ε) (List Text × (MhdConnection × σ) × List (List UInt8)))
    (ready : (MhdConnection × σ) × List (List UInt8)) :
    Except (Halt ε) (List Text × (MhdConnection × σ) × List (List UInt8)) :=
  let (state, reads) := ready
  if state.1.state ≠ .headersSending then .ok ([], state, reads)
  else if state.1.writeClosed then .ok ([], (state.1.closeError, state.2), reads)
  else do
    let (told, rest) ← next reads (state.1.replySent, forget state.2)
    .ok (state.1.bodySent.toList ++ told, rest)

/-- A connection until it has sent so many replies, or takes no more. `forget` takes back what the
handler has kept of a request (`client_context`). -/
def converse : Nat → List (List UInt8) → MhdConnection × σ →
    Except (Halt ε) (List Text × (MhdConnection × σ) × List (List UInt8))
  | 0, reads, state => .ok ([], state, reads)
  | replies + 1, reads, state => do
      let state ← handleIdle handler state
      let ready ← receive handler reads state
      sendReply forget (converse replies) ready

end Replies

end MhdConnection

end SmartPay
