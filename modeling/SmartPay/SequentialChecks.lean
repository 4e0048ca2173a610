import SmartPay.ExchangeChecks

/-!
The whole server, one request after the other. A sequence of complete requests
gets the replies of a reference service whose state is the list of texts.
-/

namespace SmartPay

open CLib

/-! Requests over HTTP and what they mean. -/

inductive HttpRequest
  | getAll
  | getId (id : Nat)
  | postEmpty
  | postData (body : Text)
  | postEndpoint (endPoint : Text) (pieces : List (List UInt8))
  | otherMethod (method url : Text) (pieces : List (List UInt8))
  | elsewhere (method url : Text) (pieces : List (List UInt8))

namespace HttpRequest

def url : HttpRequest → Text
  | getAll => terminalsResource
  | getId id => terminalsResource ++ decimalNat id
  | postEmpty => terminalsResource
  | postData _ => terminalsResource
  | postEndpoint endPoint _ => terminalsResource ++ endPoint
  | otherMethod _ url _ => url
  | elsewhere _ url _ => url

def method : HttpRequest → Text
  | getAll => lit "GET"
  | getId _ => lit "GET"
  | postEmpty => lit "POST"
  | postData _ => lit "POST"
  | postEndpoint _ _ => lit "POST"
  | otherMethod method _ _ => method
  | elsewhere method _ _ => method

def pieces : HttpRequest → List (List UInt8)
  | getAll => []
  | getId _ => []
  | postEmpty => []
  | postData body => [body.bytes]
  | postEndpoint _ pieces => pieces
  | otherMethod _ _ pieces => pieces
  | elsewhere _ _ pieces => pieces

def Proper : HttpRequest → Prop
  | getAll => True
  | getId id => id < 10 ^ 9
  | postEmpty => True
  | postData body => body.bytes ≠ []
  | postEndpoint endPoint _ =>
      ∃ word, scanWord terminalsResource (terminalsResource ++ endPoint) = some word ∧
        word.length ≤ 9
  | otherMethod method url _ =>
      strstr url terminalsResource = true ∧ method ≠ lit "GET" ∧ method ≠ lit "POST"
  | elsewhere _ url _ => strstr url terminalsResource = false

end HttpRequest

def httpStep (texts : List Text) : HttpRequest → List Text × Text
  | .getAll => (texts, getReply texts all)
  | .getId id => (texts, getReply texts id)
  | .postEmpty => (texts, jsonPostWithNoData)
  | .postData body => (texts ++ [body], postReply (texts.length + 1))
  | .postEndpoint _ _ => (texts, jsonError)
  | .otherMethod _ _ _ => (texts, jsonError)
  | .elsewhere _ _ _ => (texts, jsonError)

/-- The service over a list of texts: the texts after all requests, and the replies. -/
def httpService (texts : List Text) : List HttpRequest → List Text × List Text
  | [] => (texts, [])
  | request :: rest =>
      let (after, reply) := httpStep texts request
      let (final, replies) := httpService after rest
      (final, reply :: replies)

/-- Every array, and the id of a new terminal, holds what is written to it. -/
def WritesFit (texts : List Text) : HttpRequest → Prop
  | .getAll => (getReply texts all).length < dataSize
  | .getId id => (getReply texts id).length < dataSize
  | .postData body => body.length < dataSize ∧ (texts.length : Int) < intMax
  | _ => True

def AllWritesFit (texts : List Text) : List HttpRequest → Prop
  | [] => True
  | request :: rest => WritesFit texts request ∧ AllWritesFit (httpStep texts request).1 rest

/-- The server run on a sequence of requests, each with its own local arrays at every call. -/
def serve : (Nat → Nat → HandlerLocals) → List HttpRequest → Server →
    Except Fault (Server × List Outcome)
  | _, [], server => .ok (server, [])
  | locals, request :: rest, server => do
      let (server, outcome) ←
        exchange (locals 0) request.url request.method request.pieces server
      let (server, outcomes) ← serve (fun k => locals (k + 1)) rest server
      .ok (server, outcome :: outcomes)

/-- What is assumed of the arrays: an endpoint array that stays unwritten starts with a zero, and
the array a GET copies from is terminated. -/
structure ArraysAssumed (locals : HandlerLocals) (request : HttpRequest) : Prop where
  endPoint : scanWord terminalsResource request.url = none → locals.endPoint.bytes.headD 0 = 0
  jResponse : request.method = lit "GET" → ∃ leftover, locals.jResponse.cstr = .ok leftover

/-! One request. -/

theorem exchange_get {locals : Nat → HandlerLocals} {url leftover : Text} {termId : Int}
    {server : Server} {texts : List Text} (resource : strstr url terminalsResource = true)
    (idle : Idle server.mgr texts) (scanned : getTerminalId (locals 0).endPoint url = .ok termId)
    (terminated : (locals 0).jResponse.cstr = .ok leftover)
    (fits : (getReply texts termId).length < dataSize) :
    ∃ mgr, exchange locals url (lit "GET") [] server =
        .ok ({ server with mgr }, .replied (getReply texts termId)) ∧ Idle mgr texts := by
  have decided := answerGet_decided idle scanned terminated .first .null
  rw [if_pos fits] at decided
  obtain ⟨mgr, done, idleAfter⟩ := decided
  refine ⟨mgr, ?_, idleAfter⟩
  rw [exchange, callsFor, exchangeFrom, answerToConnection_get resource, done]
  simp only [bind, Except.bind, sendResponse]

theorem exchange_refused {url method : Text}
    (refused : strstr url terminalsResource = false ∨ method ≠ lit "GET" ∧ method ≠ lit "POST")
    (locals : Nat → HandlerLocals) (pieces : List (List UInt8)) (server : Server) :
    exchange locals url method pieces server = .ok (server, .replied jsonError) := by
  have answered : answerToConnection (locals 0) url method .first .null server = .ok {
      answer := .reply jsonError, uploadDataSize := 0, conCls := .null, server } := by
    simp only [answerToConnection]
    rcases refused with missing | ⟨notGet, notPost⟩
    · rw [if_pos missing]
      rfl
    · rw [if_neg notGet, if_neg notPost, ite_self]
      rfl
  rw [exchange, callsFor, exchangeFrom, answered]
  simp only [bind, Except.bind]

theorem scanWord_numeral (id : Nat) :
    scanWord terminalsResource (terminalsResource ++ decimalNat id) = some (decimalNat id) := by
  apply scanWord_append
  · exact decimalBytes_ne_nil id
  · intro c member
    exact not_isSpace_of_isDigit (isDigit_of_mem_decimalBytes member)

theorem getTerminalId_numeral {id : Nat} (small : id < 10 ^ 9) (endPoint : Buf maxEndpointSize) :
    getTerminalId endPoint (terminalsResource ++ decimalNat id) = .ok id := by
  have digits : (decimalNat id).length ≤ 9 := (decimalNat_length_le_iff (by omega)).mpr small
  have fits : (decimalNat id).length < maxEndpointSize := by
    simp only [maxEndpointSize]
    omega
  rw [getTerminalId_written (scanWord_numeral id) fits]
  apply atoi_decimalNat
  simp only [intMax]
  omega

/-- One request is one step of the service. -/
theorem exchange_request {locals : Nat → HandlerLocals} {request : HttpRequest}
    {start : EquipmentMgr} {texts : List Text} (idle : Idle start texts) (proper : request.Proper)
    (fits : WritesFit texts request) (arrays : ∀ i, ArraysAssumed (locals i) request) :
    ∃ mgr, exchange locals request.url request.method request.pieces
          { mgr := start, postWithDataFlag := false } =
        .ok ({ mgr, postWithDataFlag := false }, .replied (httpStep texts request).2) ∧
      Idle mgr (httpStep texts request).1 := by
  let server : Server := { mgr := start, postWithDataFlag := false }
  have idle : Idle server.mgr texts := idle
  cases request with
  | getAll =>
      obtain ⟨leftover, terminated⟩ := (arrays 0).jResponse rfl
      have zero := (arrays 0).endPoint scanWord_resource
      have scanned : getTerminalId (locals 0).endPoint terminalsResource = .ok all := by
        rw [getTerminalId_unwritten scanWord_resource, if_neg (not_not.mpr zero)]
      exact exchange_get strstr_resource idle scanned terminated fits
  | getId id =>
      obtain ⟨leftover, terminated⟩ := (arrays 0).jResponse rfl
      have scanned := getTerminalId_numeral proper (locals 0).endPoint
      exact exchange_get (strstr_append _ _) idle scanned terminated fits
  | postEmpty =>
      have passes (i : Nat) : Passes (locals i) terminalsResource := by
        rw [passes_iff scanWord_resource]
        exact (arrays i).endPoint scanWord_resource
      refine ⟨start, ?_, idle⟩
      rw [HttpRequest.url, HttpRequest.method, HttpRequest.pieces,
        exchange_passes strstr_resource (by simp) fun i _ => passes i]
      exact exchangeFrom_last_noData strstr_resource (passes _) _ rfl
  | postData body =>
      have passes (i : Nat) : Passes (locals i) terminalsResource := by
        rw [passes_iff scanWord_resource]
        exact (arrays i).endPoint scanWord_resource
      have whole : Text.ofBytes body.bytes = body := Text.ofBytes_bytes body
      have last : [body.bytes].getLast? = some body.bytes := rfl
      have short : (Text.ofBytes body.bytes).length < dataSize := by
        rw [whole]
        exact fits.1
      have nonempty : ∀ piece ∈ [body.bytes], piece ≠ [] := by
        intro piece member
        rw [List.mem_singleton.mp member]
        exact proper
      have stored := exchange_pieces_ok strstr_resource nonempty last short (fun i _ => passes i)
        idle fits.2
      rw [whole] at stored
      exact stored
  | postEndpoint endPoint pieces =>
      obtain ⟨word, scanned, short⟩ := proper
      have fitting : word.length < maxEndpointSize := by
        simp only [maxEndpointSize]
        omega
      exact ⟨start, exchange_first_blocks (strstr_append _ _)
        (blocks_of_written scanned fitting _) _ _, idle⟩
  | otherMethod method url pieces =>
      exact ⟨start, exchange_refused (Or.inr proper.2) _ _ _, idle⟩
  | elsewhere method url pieces =>
      exact ⟨start, exchange_refused (Or.inl proper) _ _ _, idle⟩

/-! Sequences. -/

theorem serve_idle {locals : Nat → Nat → HandlerLocals} {requests : List HttpRequest}
    {mgr : EquipmentMgr} {texts : List Text} (idle : Idle mgr texts)
    (proper : ∀ request ∈ requests, request.Proper) (fits : AllWritesFit texts requests)
    (arrays : ∀ (k : Nat) (inside : k < requests.length) (i : Nat),
      ArraysAssumed (locals k i) requests[k]) :
    ∃ after, serve locals requests { mgr, postWithDataFlag := false } =
        .ok ({ mgr := after, postWithDataFlag := false },
          (httpService texts requests).2.map .replied) ∧
      Idle after (httpService texts requests).1 := by
  induction requests generalizing locals mgr texts with
  | nil => exact ⟨mgr, rfl, idle⟩
  | cons request rest ih =>
      have now : ∀ i, ArraysAssumed (locals 0 i) request := arrays 0 (by simp)
      obtain ⟨middle, done, idleMiddle⟩ :=
        exchange_request idle (proper request (by simp)) fits.1 now
      have properLater : ∀ other ∈ rest, other.Proper := by
        intro other member
        exact proper other (by simp [member])
      have later : ∀ (k : Nat) (inside : k < rest.length) (i : Nat),
          ArraysAssumed (locals (k + 1) i) rest[k] := by
        intro k inside
        exact arrays (k + 1) (by simpa using inside)
      obtain ⟨after, served, idleAfter⟩ := ih idleMiddle properLater fits.2 later
      refine ⟨after, ?_, idleAfter⟩
      simp only [serve, done, bind, Except.bind, served]
      rfl

/-- A server that starts empty answers every sequence of requests like the reference service, and
ends up with its texts. -/
theorem serve_replies {locals : Nat → Nat → HandlerLocals} {requests : List HttpRequest}
    {mgr : EquipmentMgr} (running : mgr.sigEqMgrFlag = true)
    (proper : ∀ request ∈ requests, request.Proper) (fits : AllWritesFit [] requests)
    (arrays : ∀ (k : Nat) (inside : k < requests.length) (i : Nat),
      ArraysAssumed (locals k i) requests[k]) :
    ∃ after, serve locals requests { mgr := mgrInit mgr, postWithDataFlag := false } =
        .ok (after, (httpService [] requests).2.map .replied) ∧
      Stores after.mgr (httpService [] requests).1 ∧ after.postWithDataFlag = false := by
  obtain ⟨final, served, idle⟩ := serve_idle (Idle.mgrInit running) proper fits arrays
  exact ⟨_, served, idle.store, rfl⟩

def everyKind : List HttpRequest :=
  [.postData (lit "x"), .getId 1, .getAll, .postEmpty, .postEndpoint (lit "7") [[120]],
    .otherMethod (lit "PUT") terminalsResource [], .elsewhere (lit "GET") (lit "/") []]

theorem serve_replies_everyKind :
    ∃ after, serve (fun _ _ => HandlerLocals.blank) everyKind
        { mgr := mgrInit EquipmentMgr.blank, postWithDataFlag := false } =
        .ok (after, (httpService [] everyKind).2.map .replied) ∧
      Stores after.mgr (httpService [] everyKind).1 ∧ after.postWithDataFlag = false := by
  refine serve_replies rfl ?_ ?_ fun k inside i => ⟨fun _ => rfl, fun _ => ⟨lit "", by decide⟩⟩
  · simp only [everyKind, List.forall_mem_cons, List.not_mem_nil, false_imp_iff, implies_true,
      and_true]
    refine ⟨?_, ?_, trivial, trivial, ⟨lit "7", by decide, by decide⟩,
      ⟨strstr_resource, by decide, by decide⟩, ?_⟩
    · exact List.cons_ne_nil _ _
    · exact (by decide : 1 < 10 ^ 9)
    · exact (by decide : strstr (lit "/") terminalsResource = false)
  · refine ⟨⟨by decide, by decide⟩, ?_, ?_, trivial, trivial, trivial, trivial, trivial⟩
    · exact (by decide : (getReply [lit "x"] 1).length < dataSize)
    · exact (by decide : (getReply [lit "x"] all).length < dataSize)

end SmartPay
