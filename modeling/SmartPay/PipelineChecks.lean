import SmartPay.KeepAliveChecks
import SmartPay.NetworkChecks
import SmartPay.SequentialChecks

/-!
The terminals service over a connection that is kept alive. Requests sent one behind the
other, in reads that end where they will, get the replies of the reference service, in
which a posted body is what the last of its reads has brought.
-/

namespace SmartPay

open CLib

/-- `client_context` is `NULL` when a request begins. -/
def forgetUpload (context : HandlerContext) : HandlerContext := { context with conCls := .null }

/-- The calls of an exchange may be numbered from anywhere. -/
theorem exchangeFrom_shift (locals : Nat → HandlerLocals) (url method : Text) (index : Nat)
    (calls : List Call) (position : Nat) (conCls : ConCls) (server : Server) :
    exchangeFrom locals url method (index + position) calls conCls server =
      exchangeFrom (fun i => locals (index + i)) url method position calls conCls server := by
  induction calls generalizing position conCls server with
  | nil => rfl
  | cons call rest ih =>
      simp only [exchangeFrom]
      cases answerToConnection (locals (index + position)) url method call conCls server with
      | error fault => simp only [bind, Except.bind]
      | ok result =>
          obtain ⟨answer, size, conCls, server⟩ := result
          simp only [ok_bind]
          cases answer with
          | yes =>
              simp only
              rw [Nat.add_assoc, ih]
          | no => simp only
          | reply json => simp only

/-- What the program gets of a request: of a posted body, the last piece. -/
def heard (request : HttpRequest) (pieces : List (List UInt8)) : HttpRequest :=
  match request with
  | .postData _ => .postData (Text.ofBytes (pieces.getLastD []))
  | other => other

/-- Requests that are not answered before their body is there. -/
def AnsweredLate : HttpRequest → Prop
  | .postEndpoint _ _ => False
  | .otherMethod method _ _ | .elsewhere method _ _ =>
      strEqualCaseless method (lit "POST") = false ∧ strEqualCaseless method (lit "PUT") = false
  | _ => True

/-- A request and how its client sends it. -/
structure SentRequest where
  request : HttpRequest
  sent : KeptRequest
  url : sent.head.url = request.url
  method : sent.head.method.text = request.method
  body : sent.body = request.pieces.flatten
  proper : request.Proper
  lasting : AnsweredLate request

def heardAll : List SentRequest → List (List UInt8) → List HttpRequest
  | [], _ => []
  | first :: rest, reads =>
      heard first.request
          (MhdConnection.bodyReads first.sent.head first.sent.body.length reads) ::
        heardAll rest (MhdConnection.readsBehind first.sent.wire.length reads)

/-- The bodies of the replies as the clients get them. -/
def toldBodies (requests : List SentRequest) (replies : List Text) : List Text :=
  List.zipWith (fun first json => MhdConnection.bodyTold first.sent.head json) requests replies

theorem pieces_nil {pieces : List (List UInt8)} (some : ∀ piece ∈ pieces, piece ≠ [])
    (whole : pieces.flatten = []) : pieces = [] := by
  rw [List.eq_nil_iff_forall_not_mem]
  intro piece member
  exact some piece member (List.flatten_eq_nil_iff.mp whole piece member)

/-- One request is one step of the service, whatever pieces its body comes in. -/
theorem exchange_heard {locals : Nat → HandlerLocals} {request : HttpRequest}
    {start : EquipmentMgr} {texts : List Text} {pieces : List (List UInt8)}
    (idle : Idle start texts) (proper : request.Proper) (lasting : AnsweredLate request)
    (some : ∀ piece ∈ pieces, piece ≠ []) (whole : pieces.flatten = request.pieces.flatten)
    (fits : WritesFit texts (heard request pieces))
    (arrays : ∀ i, ArraysAssumed (locals i) request) :
    ∃ mgr, exchange locals request.url request.method pieces
          { mgr := start, postWithDataFlag := false } =
        .ok ({ mgr, postWithDataFlag := false },
          .replied (httpStep texts (heard request pieces)).2) ∧
      Idle mgr (httpStep texts (heard request pieces)).1 := by
  have idle : Idle ({ mgr := start, postWithDataFlag := false } : Server).mgr texts := idle
  cases request with
  | getAll =>
      obtain rfl := pieces_nil some whole
      exact exchange_request idle proper fits arrays
  | getId id =>
      obtain rfl := pieces_nil some whole
      exact exchange_request idle proper fits arrays
  | postEmpty =>
      obtain rfl := pieces_nil some whole
      exact exchange_request idle proper fits arrays
  | postData body =>
      have passes (i : Nat) : Passes (locals i) terminalsResource := by
        rw [passes_iff scanWord_resource]
        exact (arrays i).endPoint scanWord_resource
      have nothing : pieces ≠ [] := by
        rintro rfl
        exact proper (by simpa [HttpRequest.pieces] using whole.symm)
      obtain ⟨before, piece, rfl⟩ := (List.eq_nil_or_concat' pieces).resolve_left nothing
      simp only [heard, List.getLastD_concat] at fits ⊢
      exact exchange_pieces_ok strstr_resource some List.getLast?_concat fits.1
        (fun i _ => passes i) idle fits.2
  | postEndpoint endPoint other => exact lasting.elim
  | otherMethod method url other =>
      exact ⟨start, exchange_refused (Or.inr proper.2) _ _ _, idle⟩
  | elsewhere method url other =>
      exact ⟨start, exchange_refused (Or.inl proper) _ _ _, idle⟩

/-- None of these requests is an upload that is answered at once. -/
theorem sent_not_refused (first : SentRequest) {locals : Nat → HandlerLocals}
    (arrays : ∀ i, ArraysAssumed (locals i) first.request) {context : HandlerContext}
    (fresh : context.conCls = .null) :
    MhdConnection.refuses (answerHandler locals) first.sent.head context = false := by
  obtain ⟨request, sent, url, method, body, proper, lasting⟩ := first
  have notUpload (first : strEqualCaseless request.method (lit "POST") = false)
      (second : strEqualCaseless request.method (lit "PUT") = false) :
      MhdConnection.refuses (answerHandler locals) sent.head context = false := by
    simp only [MhdConnection.refuses, RequestHead.isUpload, method, first, second, Bool.or_self,
      Bool.false_and]
  have posts (post : request.method = lit "POST") (resource : request.url = terminalsResource) :
      MhdConnection.refuses (answerHandler locals) sent.head context = false := by
    have passes : Passes (locals context.index) terminalsResource := by
      rw [passes_iff scanWord_resource]
      exact (arrays context.index).endPoint (by rw [resource]; exact scanWord_resource)
    have answered : answerHandler locals sent.head.url sent.head.method.text .first context =
        .ok {
          answer := .yes
          uploadDataSize := 0
          context := {
            index := context.index + 1
            conCls := .post { status := true, buff := none }
            server := context.server } } := by
      rw [url, method, post, resource, answerHandler, fresh,
        answerToConnection_post strstr_resource, answerPost_first passes]
      rfl
    simp only [MhdConnection.refuses, answered, Bool.and_false]
  cases request with
  | getAll => exact notUpload (by decide) (by decide)
  | getId id =>
      have get : (HttpRequest.getId id).method = lit "GET" := rfl
      exact notUpload (by rw [get]; decide) (by rw [get]; decide)
  | postEmpty => exact posts rfl rfl
  | postData body => exact posts rfl rfl
  | postEndpoint endPoint other => exact lasting.elim
  | otherMethod method url other => exact notUpload lasting.1 lasting.2
  | elsewhere method url other => exact notUpload lasting.1 lasting.2

/-- The exchange of the server's model, from any numbered call on. -/
theorem exchangeWith_of_exchange {locals : Nat → HandlerLocals} {url method json : Text}
    {pieces : List (List UInt8)} {context : HandlerContext} {server : Server}
    (fresh : context.conCls = .null)
    (done : exchange (fun i => locals (context.index + i)) url method pieces context.server =
      .ok (server, .replied json)) :
    ∃ after, exchangeWith (answerHandler locals) url method (callsFor pieces) context =
      .ok (after, .replied json) ∧ after.server = server := by
  have same := exchangeWith_answer locals url method context (callsFor pieces)
  have shifted := exchangeFrom_shift locals url method context.index (callsFor pieces) 0
    context.conCls context.server
  rw [Nat.add_zero] at shifted
  rw [shifted, fresh, ← exchange, done] at same
  obtain ⟨⟨after, outcome⟩, ran, equal⟩ := map_eq_ok same
  cases equal
  exact ⟨after, ran, rfl⟩

theorem heardAll_start (requests : List SentRequest) (reads : List (List UInt8)) :
    heardAll requests ([] :: reads) = heardAll requests reads := by
  cases requests with
  | nil => rfl
  | cons first rest =>
      have positive : 0 < first.sent.wire.length := by
        have head := MhdConnection.wire_positive first.sent.head
        rw [KeptRequest.wire, List.length_append]
        omega
      rw [heardAll, heardAll, MhdConnection.bodyReads, MhdConnection.bodyReads,
        MhdConnection.readsBehind_start (MhdConnection.wire_positive _),
        MhdConnection.readsBehind_start positive]

/-- The requests of a connection are a run of the reference service. -/
theorem sent_conversation {locals : Nat → HandlerLocals} {requests : List SentRequest}
    {reads : List (List UInt8)} {rest : List UInt8} {context : HandlerContext} {texts : List Text}
    (fresh : context.conCls = .null) (flag : context.server.postWithDataFlag = false)
    (idle : Idle context.server.mgr texts)
    (stream : reads.flatten = (requests.map SentRequest.sent).flatMap KeptRequest.wire ++ rest)
    (fits : AllWritesFit texts (heardAll requests reads))
    (arrays : ∀ i, ∀ first ∈ requests, ArraysAssumed (locals i) first.request) :
    ∃ final, conversation (answerHandler locals) forgetUpload (requests.map SentRequest.sent) reads
        context =
          .ok (final, toldBodies requests (httpService texts (heardAll requests reads)).2, .kept) ∧
      Idle final.server.mgr (httpService texts (heardAll requests reads)).1 := by
  induction requests generalizing reads context texts with
  | nil => exact ⟨context, rfl, idle⟩
  | cons first requests ih =>
      have now : ∀ i, ArraysAssumed (locals i) first.request := fun i => arrays i first (by simp)
      have here : reads.flatten = first.sent.head.wire ++ (first.sent.body ++
          ((requests.map SentRequest.sent).flatMap KeptRequest.wire ++ rest)) := by
        rw [stream]
        simp [KeptRequest.wire]
      have whole := (MhdConnection.bodyReads_flatten here).trans first.body
      have later : (MhdConnection.readsBehind first.sent.wire.length reads).flatten =
          (requests.map SentRequest.sent).flatMap KeptRequest.wire ++ rest := by
        rw [MhdConnection.readsBehind_flatten, here, ← List.append_assoc, ← KeptRequest.wire,
          List.drop_left]
      obtain ⟨index, conCls, mgr, withData⟩ := context
      obtain rfl : conCls = .null := fresh
      obtain rfl : withData = false := flag
      let start : HandlerContext :=
        { index, conCls := .null, server := { mgr, postWithDataFlag := false } }
      obtain ⟨middle, done, idleMiddle⟩ := @exchange_heard (fun i => locals (index + i))
        first.request mgr texts
        (MhdConnection.bodyReads first.sent.head first.sent.body.length reads) idle first.proper
        first.lasting MhdConnection.cut_nonempty whole fits.1 (fun i => now _)
      obtain ⟨after, ran, server⟩ :=
        @exchangeWith_of_exchange locals _ _ _ _ start _ rfl done
      have accepts := sent_not_refused first now (show start.conCls = .null from rfl)
      obtain ⟨final, conversed, idleFinal⟩ := @ih
        (MhdConnection.readsBehind first.sent.wire.length reads) (forgetUpload after) _ rfl
        (by rw [forgetUpload, server]) (by rw [forgetUpload, server]; exact idleMiddle) later fits.2
        (fun i other member => arrays i other (by simp [member]))
      refine ⟨final, ?_, idleFinal⟩
      rw [← first.url, ← first.method] at ran
      simp only [start] at ran accepts
      simp only [List.map_cons, conversation, ran, ok_bind, accepts, Bool.false_eq_true, if_false,
        conversed]
      rfl

def getHead : RequestHead := requestWith ⟨lit "GET", by decide, by decide, by decide⟩ []

theorem getHead_noBody : NoBody getHead := by
  have unsized : getHead.lookup (lit "Content-Length") = none := by decide
  refine ⟨by decide, fun text found => ?_, by decide⟩
  rw [unsized] at found
  cases found

def sentPost : SentRequest where
  request := .postData (lit "ab")
  sent := keptPost
  url := by decide
  method := rfl
  body := rfl
  proper := (by decide : (lit "ab").bytes ≠ [])
  lasting := trivial

def sentGet : SentRequest where
  request := .getAll
  sent := {
    head := getHead
    body := []
    framed := Or.inl ⟨rfl, getHead_noBody⟩
    keeps := by decide }
  url := by decide
  method := rfl
  body := rfl
  proper := trivial
  lasting := trivial

/-- A read that ends within the body, and one with the rest of it and the next request. -/
def splitReads : List (List UInt8) := [lengthPost.wire ++ [97], 98 :: getHead.wire]

end SmartPay
