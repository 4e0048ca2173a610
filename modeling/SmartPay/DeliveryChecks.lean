import SmartPay.ChunkedChecks

/-!
A whole request. However the bytes of a well-formed request are split into reads, the
access handler gets the URL and the method of its head and its body in order, piece by
piece, and the connection ends as the handler's answers say.
-/

namespace SmartPay

open CLib

namespace RequestHead

def lookup (head : RequestHead) (key : Text) : Option Text :=
  (head.fields.find? fun field => strEqualCaseless key field.name).map HeaderField.value

def isUpload (head : RequestHead) : Bool :=
  strEqualCaseless head.method.text (lit "POST") || strEqualCaseless head.method.text (lit "PUT")

end RequestHead

/-- A numeral for a length. -/
structure LengthText (length : Nat) (text : Text) : Prop where
  nonempty : text.bytes ≠ []
  digits : ∀ b ∈ text.bytes, isDigit b = true
  value : digitsValue text.bytes = length

/-- A head that announces a body of this length. -/
structure AnnouncesLength (head : RequestHead) (length : Nat) : Prop where
  upload : head.isUpload = true
  coding : head.lookup (lit "Transfer-Encoding") = none
  numeral : ∃ text, head.lookup (lit "Content-Length") = some text ∧ LengthText length text
  some : 0 < length
  known : length < mhdSizeUnknown

/-- A head that announces no body. -/
structure NoBody (head : RequestHead) : Prop where
  coding : head.lookup (lit "Transfer-Encoding") = none
  length : ∀ text, head.lookup (lit "Content-Length") = some text → LengthText 0 text
  expect : head.lookup (lit "Expect") = none

/-- How a head announces a body, how the body is sent, and what is left behind it. -/
inductive Framed (head : RequestHead) (rest : List UInt8) :
    List UInt8 → List UInt8 → (List UInt8 → Prop) → Prop
  | none (bodiless : NoBody head) : Framed head rest [] rest (· = rest)
  | length (body : List UInt8) (announced : AnnouncesLength head body.length) :
      Framed head rest body (body ++ rest) (· = rest)
  | chunked (chunks : List Chunk) (last : LastChunk) (text : Text) (upload : head.isUpload = true)
      (found : head.lookup (lit "Transfer-Encoding") = some text)
      (coding : strEqualCaseless text (lit "chunked") = true) :
      Framed head rest (MhdConnection.payload chunks) (MhdConnection.chunksWire chunks last rest)
        (MhdConnection.LeftBehind rest)

theorem digitsValue_le (digits : List UInt8) (value : Nat) :
    value ≤ digits.foldl (fun value c => 10 * value + (c.toNat - 48)) value := by
  induction digits generalizing value with
  | nil => exact le_refl _
  | cons c digits ih =>
      have bound := ih (10 * value + (c.toNat - 48))
      simp only [List.foldl_cons]
      omega

theorem strToUint64_digits (digits : List UInt8) (res : Nat)
    (all : ∀ b ∈ digits, isDigit b = true)
    (fits : digits.foldl (fun value c => 10 * value + (c.toNat - 48)) res ≤ uint64Max) :
    strToUint64.digits digits res =
      some (digits.foldl (fun value c => 10 * value + (c.toNat - 48)) res, []) := by
  induction digits generalizing res with
  | nil => rfl
  | cons c digits ih =>
      have digit := all c (by simp)
      rw [List.foldl_cons] at fits
      have bound := digitsValue_le digits (10 * res + (c.toNat - 48))
      have next : res * 10 + (c.toNat - 48) = 10 * res + (c.toNat - 48) := by omega
      have noOverflow : ¬(res > uint64Max / 10 ∨
          (res = uint64Max / 10 ∧ c.toNat - 48 > uint64Max % 10)) := by
        simp only [uint64Max] at fits ⊢
        omega
      simp only [strToUint64.digits, digit, if_true, if_neg noOverflow, next, List.foldl_cons]
      exact ih _ (fun b member => all b (by simp [member])) fits

theorem LengthText.strToUint64 {length : Nat} {text : Text} (numeral : LengthText length text)
    (known : length < mhdSizeUnknown) : strToUint64 text.bytes = some (length, []) := by
  obtain ⟨nonempty, digits, value⟩ := numeral
  have parsed := strToUint64_digits text.bytes 0 digits (by
    change digitsValue text.bytes ≤ uint64Max
    rw [value]
    exact known.le)
  change _ = Option.some (digitsValue text.bytes, []) at parsed
  obtain ⟨b, rest, shape⟩ := List.exists_cons_of_ne_nil nonempty
  have first := digits b (by simp [shape])
  rw [value] at parsed
  rw [shape] at parsed ⊢
  rw [SmartPay.strToUint64]
  simp only [first, if_true]
  exact parsed

namespace MhdConnection

variable {c : MhdConnection} {reads : List (List UInt8)} {rest : List UInt8}

theorem lookup_fields (fields : List HeaderField) (key : Text) :
    ((fields.map HeaderField.entry).find? fun pos =>
      pos.kind == .header && strEqualCaseless key pos.header).map MhdHttpHeader.value =
      (fields.find? fun field => strEqualCaseless key field.name).map HeaderField.value := by
  induction fields with
  | nil => rfl
  | cons field fields ih =>
      simp only [List.map_cons, List.find?_cons, HeaderField.entry]
      cases strEqualCaseless key field.name with
      | true => rfl
      | false => exact ih

section First

variable {ε σ : Type} {handler : AccessHandler ε σ} {context : σ}
  {left : MhdConnection → List (List UInt8) → Prop} {calls : List Call} {fresh ready : σ → Prop}

/-- Where the connection goes on when the first call has been answered with `MHD_YES`. -/
def accepted (c : MhdConnection) : MhdConnection :=
  if c.need100Continue then { c with state := .continueSent, continueWritten := true }
  else { c with
    state := if c.remainingUploadSize = 0 then .footersReceived else .continueSent }

/-- A reply at the first call. That to an upload ends the reading. -/
def sendingAtFirst (c : MhdConnection) (json : Text) : MhdConnection :=
  if c.isUpload then { c.sending json with readClosed := true, remainingUploadSize := 0 }
  else c.sending json

/-- The first call. -/
theorem first_serves (consuming : Consuming handler c.url c.method fresh ready)
    (isFresh : fresh context) (state : c.state = .headersProcessed) (unqueued : c.response = none)
    (sized : c.isUpload = true ∨ c.remainingUploadSize = 0)
    (replies : ∀ result json, handler c.url c.method .first context = .ok result →
      result.answer = .reply json → left (c.sendingAtFirst json) reads)
    (continues : ∀ result, handler c.url c.method .first context = .ok result →
      result.answer = .yes → ready result.context →
      Serves handler (resume handler (c.accepted, result.context) reads)
        (exchangeWith handler c.url c.method calls result.context) left) :
    Serves handler (resume handler (c, context) reads)
      (exchangeWith handler c.url c.method (.first :: calls) context) left := by
  have stepped : idleStep handler (c, context) = (do
      let result ← orHalt (handler c.url c.method .first context)
      withContext result.context (c.takeAnswer result.answer).firstCallDone) := by
    simp only [idleStep, state, callConnectionHandler, unqueued, Option.isSome_none,
      Bool.false_eq_true, if_false, bind_assoc]
    rfl
  simp only [exchangeWith]
  cases called : handler c.url c.method .first context with
  | error fault =>
      rw [called] at stepped
      exact Serves.of_error (resume_fault stepped)
  | ok result =>
      have isReady := consuming.first context result isFresh called
      have replied := fun json => replies result json called
      have continued := continues result called
      obtain ⟨answer, size, after⟩ := result
      rw [called] at stepped
      simp only [orHalt, ok_bind] at stepped ⊢
      cases answer with
      | yes =>
          have served := continued rfl (isReady rfl)
          by_cases need : c.need100Continue = true
          · have done : (c.takeAnswer .yes).firstCallDone =
                (true, { c with state := .continueSending }) := by
              simp [takeAnswer, firstCallDone, state, need]
            rw [done] at stepped
            have sending : idleStep handler ({ c with state := .continueSending }, after) =
                .ok (true, c.accepted, after) := by
              simp only [idleStep, accepted, need, if_true]
              rfl
            rw [resume_again stepped, resume_again sending]
            exact served
          · have done : (c.takeAnswer .yes).firstCallDone = (true, c.accepted) := by
              simp [takeAnswer, firstCallDone, state, need, unqueued, accepted]
            rw [done] at stepped
            rw [resume_again stepped]
            exact served
      | no =>
          have done : (c.takeAnswer .no).firstCallDone = (true, c.closeError) := rfl
          rw [done] at stepped
          refine Serves.of_closed ⟨c.closeError, reads, ?_, rfl⟩
          rw [resume_again stepped, resume_closed rfl]
      | reply json =>
          let queued : MhdConnection :=
            { c.sendingAtFirst json with state := .footersReceived }
          have done : (c.takeAnswer (.reply json)).firstCallDone = (true, queued) := by
            have still (first : MhdConnection) (same : first.method = c.method) :
                first.isUpload = c.isUpload := by simp only [isUpload, same]
            cases upload : c.isUpload with
            | true =>
                simp [takeAnswer, queueResponse, firstCallDone, state, unqueued, upload,
                  need100Continue, still, queued, sendingAtFirst, sending]
            | false =>
                have zero : c.remainingUploadSize = 0 := by simpa [upload] using sized
                have plain : (c.setResponse 200 json).isUpload = false := upload
                simp [takeAnswer, queueResponse, firstCallDone, state, unqueued, upload, plain, zero,
                  need100Continue, queued, sendingAtFirst, sending]
          have response : queued.response = some json := by
            simp only [queued, sendingAtFirst]
            split <;> rfl
          rw [done] at stepped
          have sent : ({ queued with state := .headersSending } : MhdConnection) =
              c.sendingAtFirst json := by
            simp only [queued, sendingAtFirst, sending]
            split <;> rfl
          refine Serves.of_replied ⟨c.sendingAtFirst json, reads, ?_, ?_, response, replied json rfl⟩
          · rw [resume_again stepped, resume_queued rfl response, sent]
          · rw [← sent]

end First

/-! From the first byte to the last call. -/

theorem start_receives {ε σ : Type} (handler : AccessHandler ε σ) (context : σ)
    (reads : List (List UInt8)) :
    resume handler (start, context) reads = receive handler reads (start, context) :=
  resume_stop rfl

theorem afterHead_lookup (head : RequestHead) (last colon key : Text) (buffer : List UInt8) :
    (afterHead head last colon buffer).lookupConnectionValue key = head.lookup key :=
  lookup_fields head.fields key

/-- The connection before the first call. -/
def beforeCall (head : RequestHead) (last colon : Text) (buffer : List UInt8)
    (remaining : Nat) (chunked : Bool) : MhdConnection :=
  { afterHead head last colon buffer with
    state := .headersProcessed
    remainingUploadSize := remaining
    haveChunkedUpload := chunked }

theorem headersProcessed_leads {head : RequestHead} {last colon : Text} {buffer : List UInt8}
    {remaining : Nat} {chunked : Bool}
    (parsed : (afterHead head last colon buffer).parseConnectionHeaders =
      { afterHead head last colon buffer with
        remainingUploadSize := remaining
        haveChunkedUpload := chunked }) :
    Leads (afterHead head last colon buffer) reads
      (beforeCall head last colon buffer remaining chunked) reads := by
  intro ε σ handler context
  apply resume_again
  simp only [idleStep, afterHead] at parsed ⊢
  simp only [headersReceivedStep, parsed]
  rfl

theorem accepted_body (head : RequestHead) (last colon : Text) (buffer : List UInt8)
    {remaining : Nat} (some : remaining ≠ 0) (chunked : Bool) :
    ∃ written, (beforeCall head last colon buffer remaining chunked).accepted =
      { beforeCall head last colon buffer remaining chunked with
        state := .continueSent
        continueWritten := written } := by
  rw [accepted]
  split
  · exact ⟨true, rfl⟩
  · refine ⟨false, ?_⟩
    rw [if_neg (by exact some)]
    rfl

section Bodies

variable {head : RequestHead} {last colon : Text} {buffer : List UInt8}
  {later : List (List UInt8)}

theorem parsed_receives {remaining : Nat} {chunked : Bool}
    (leads : Leads start reads (afterHead head last colon buffer) later)
    (parsed : (afterHead head last colon buffer).parseConnectionHeaders =
      { afterHead head last colon buffer with
        remainingUploadSize := remaining
        haveChunkedUpload := chunked }) {ε σ : Type} (handler : AccessHandler ε σ) (context : σ) :
    receive handler reads (start, context) =
      resume handler (beforeCall head last colon buffer remaining chunked, context) later :=
  (start_receives handler context reads).symm.trans
    ((leads.trans (headersProcessed_leads parsed)) ε σ handler context)

/-- The reply to an upload comes at the first call. -/
def refuses {ε σ : Type} (handler : AccessHandler ε σ) (head : RequestHead) (context : σ) : Bool :=
  head.isUpload &&
    match handler head.url head.method.text .first context with
    | .ok { answer := .reply _, .. } => true
    | _ => false

/-- The connection has taken in the whole request, or refused an upload. -/
def TakenIn {ε σ : Type} (handler : AccessHandler ε σ) (head : RequestHead) (context : σ)
    (behind : List (List UInt8)) (c : MhdConnection) (later : List (List UInt8)) : Prop :=
  (refuses handler head context = false ∧
    Finished (afterHead head (lit "") (lit "") []) behind c later) ∨
  (refuses handler head context = true ∧ c.response.isSome = true ∧ c.readClosed = true ∧
    Replies (afterHead head (lit "") (lit "") []) c)

theorem not_refuses {ε σ : Type} {handler : AccessHandler ε σ} {context : σ}
    {result : HandlerReturn σ} (called : handler head.url head.method.text .first context = .ok result)
    (yes : result.answer = .yes) : refuses handler head context = false := by
  obtain ⟨answer, size, after⟩ := result
  obtain rfl : answer = .yes := yes
  simp only [refuses, called, Bool.and_false]

/-- A first call that is answered with a reply, before a body is read. -/
theorem first_takenIn {ε σ : Type} {handler : AccessHandler ε σ} {context : σ}
    {behind : List (List UInt8)} {remaining : Nat} {chunked : Bool}
    (plain : head.isUpload = false → remaining = 0 ∧ buffer :: later = behind)
    {result : HandlerReturn σ} {json : Text}
    (called : handler head.url head.method.text .first context = .ok result)
    (replied : result.answer = .reply json) :
    TakenIn handler head context behind
      ((beforeCall head last colon buffer remaining chunked).sendingAtFirst json) later := by
  have upload : (beforeCall head last colon buffer remaining chunked).isUpload = head.isUpload := rfl
  obtain ⟨answer, size, after⟩ := result
  obtain rfl : answer = .reply json := replied
  rw [sendingAtFirst, upload]
  cases isUpload : head.isUpload with
  | true =>
      have refused : refuses handler head context = true := by
        simp only [refuses, isUpload, called, Bool.and_true]
      exact Or.inr ⟨refused, rfl, rfl, .queued rfl rfl rfl⟩
  | false =>
      obtain ⟨zero, behind⟩ := plain isUpload
      have accepts : refuses handler head context = false := by
        simp only [refuses, isUpload, Bool.false_and]
      exact Or.inl ⟨accepts, behind, rfl, zero, rfl, rfl, .queued rfl rfl rfl⟩

theorem none_served (leads : Leads start reads (afterHead head last colon buffer) later)
    (bodiless : NoBody head) {ε σ : Type} {handler : AccessHandler ε σ}
    {fresh ready : σ → Prop} {context : σ}
    (consuming : Consuming handler head.url head.method.text fresh ready)
    (isFresh : fresh context) :
    Serves handler (receive handler reads (start, context))
      (exchangeWith handler head.url head.method.text (callsFor []) context)
      (TakenIn handler head context (buffer :: later)) := by
  have lookup := afterHead_lookup head last colon
  have parsed : (afterHead head last colon buffer).parseConnectionHeaders =
      { afterHead head last colon buffer with
        remainingUploadSize := 0
        haveChunkedUpload := false } := by
    simp only [parseConnectionHeaders, lookup, bodiless.coding]
    cases found : head.lookup (lit "Content-Length") with
    | none => rfl
    | some text =>
        simp only [(bodiless.length text found).strToUint64 (by decide)]
        rfl
  rw [parsed_receives leads parsed]
  refine first_serves consuming isFresh rfl rfl (Or.inr rfl)
    (fun result json called replied => first_takenIn (fun _ => ⟨rfl, rfl⟩) called replied)
    fun result called yes _ => ?_
  have need : (beforeCall head last colon buffer 0 false).need100Continue = false := by
    have same : (beforeCall head last colon buffer 0 false).lookupConnectionValue
        (lit "Expect") = none := (lookup (lit "Expect") buffer).trans bodiless.expect
    simp [need100Continue, same]
  simp only [accepted, need, Bool.false_eq_true, if_false]
  have accepts := not_refuses called yes
  exact last_serves (c := { beforeCall head last colon buffer 0 false with
    state := .footersReceived }) rfl rfl
    (Or.inl ⟨accepts, rfl, rfl, rfl, rfl, rfl, .unqueued rfl rfl⟩)
    fun json => Or.inl ⟨accepts, rfl, rfl, rfl, rfl, rfl, .queued rfl rfl rfl⟩

theorem length_served (leads : Leads start reads (afterHead head last colon buffer) later)
    {length : Nat} (announced : AnnouncesLength head length)
    (enough : length ≤ (buffer ++ later.flatten).length) {ε σ : Type}
    {handler : AccessHandler ε σ} {fresh ready : σ → Prop} {context : σ}
    (consuming : Consuming handler head.url head.method.text fresh ready)
    (isFresh : fresh context) :
    Serves handler (receive handler reads (start, context))
      (exchangeWith handler head.url head.method.text (callsFor (cut length (buffer :: later)))
        context) (TakenIn handler head context (readsBehind length (buffer :: later))) := by
  obtain ⟨upload, coding, ⟨text, found, numeral⟩, positive, known⟩ := announced
  have lookup := afterHead_lookup head last colon
  have parsed : (afterHead head last colon buffer).parseConnectionHeaders =
      { afterHead head last colon buffer with
        remainingUploadSize := length
        haveChunkedUpload := false } := by
    simp only [parseConnectionHeaders, lookup, coding, found, numeral.strToUint64 known]
    rfl
  obtain ⟨written, accepts⟩ :=
    accepted_body head last colon buffer (Nat.ne_of_gt positive) false
  rw [parsed_receives leads parsed]
  refine first_serves consuming isFresh rfl rfl (Or.inl upload)
    (fun result json called replied => first_takenIn (fun other => ?_) called replied)
    fun result called yes isReady => ?_
  · rw [upload] at other
    cases other
  · rw [accepts]
    exact (plain_serves (c := { beforeCall head last colon buffer length false with
      state := .continueSent
      continueWritten := written }) consuming isReady
      ⟨rfl, rfl, rfl, rfl, positive, known⟩ enough).mono
      fun _ _ finished => Or.inl ⟨not_refuses called yes,
        { finished with replies := { finished.replies with } }⟩

/-- The bytes behind a request are left over, unless an upload has been refused. -/
def LeftOver (left : List UInt8 → Prop) (c : MhdConnection) (later : List (List UInt8)) : Prop :=
  (c.response.isSome = true → c.readClosed = false) → left (c.readBuffer ++ later.flatten)

theorem TakenIn.leftOver {ε σ : Type} {handler : AccessHandler ε σ} {context : σ}
    {behind : List (List UInt8)} {c : MhdConnection} {later : List (List UInt8)}
    (taken : TakenIn handler head context behind c later) (flat : behind.flatten = rest) :
    LeftOver (· = rest) c later := by
  intro reading
  rcases taken with ⟨_, finished⟩ | ⟨_, queued, closed, _⟩
  · rw [← flat, ← finished.behind, List.flatten_cons]
  · rw [reading queued] at closed
    cases closed

theorem chunked_served (leads : Leads start reads (afterHead head last colon buffer) later)
    {text : Text} {chunks : List Chunk}
    {lastChunk : LastChunk} (upload : head.isUpload = true)
    (found : head.lookup (lit "Transfer-Encoding") = some text)
    (coding : strEqualCaseless text (lit "chunked") = true)
    (stream : buffer ++ later.flatten = chunksWire chunks lastChunk rest) :
    ∃ pieces : List (List UInt8), (∀ piece ∈ pieces, piece ≠ []) ∧
      pieces.flatten = payload chunks ∧
      ∀ (ε σ : Type) (handler : AccessHandler ε σ) (fresh ready : σ → Prop) (context : σ),
        Consuming handler head.url head.method.text fresh ready → fresh context →
          Serves handler (receive handler reads (start, context))
            (exchangeWith handler head.url head.method.text (callsFor pieces) context)
            (LeftOver (LeftBehind rest)) := by
  have lookup := afterHead_lookup head last colon
  have parsed : (afterHead head last colon buffer).parseConnectionHeaders =
      { afterHead head last colon buffer with
        remainingUploadSize := mhdSizeUnknown
        haveChunkedUpload := true } := by
    simp only [parseConnectionHeaders, lookup, found, coding, Bool.true_or]
  obtain ⟨written, accepts⟩ :=
    accepted_body head last colon buffer (by decide : mhdSizeUnknown ≠ 0) true
  obtain ⟨pieces, somePieces, whole, serves⟩ :=
    chunked_resume (c := { beforeCall head last colon buffer mhdSizeUnknown true with
        state := .continueSent
        continueWritten := written }) ⟨rfl, rfl, rfl, rfl, rfl⟩ ⟨rfl, rfl⟩ stream
  refine ⟨pieces, somePieces, whole,
    fun ε σ handler fresh ready context consuming isFresh => ?_⟩
  rw [parsed_receives leads parsed]
  refine first_serves consuming isFresh rfl rfl (Or.inl upload) ?_ fun result _ _ isReady => ?_
  · intro result json _ _
    have isUpload : (beforeCall head last colon buffer mhdSizeUnknown true).isUpload = true := upload
    rw [sendingAtFirst, if_pos isUpload]
    intro reading
    cases reading rfl
  · rw [accepts]
    exact (serves ε σ handler fresh ready result.context consuming isReady).mono
      fun _ _ left _ => left

end Bodies

theorem behind_head {head : RequestHead} {buffer : List UInt8} {later : List (List UInt8)}
    (behind : buffer :: later = readsBehind head.wire.length reads)
    (stream : reads.flatten = head.wire ++ rest) : buffer ++ later.flatten = rest := by
  have flat := congrArg List.flatten behind
  rwa [readsBehind_flatten, stream, List.drop_left, List.flatten_cons] at flat

/-- The reads of a body with a length: what they bring behind the head and before its end. -/
def bodyReads (head : RequestHead) (length : Nat) (reads : List (List UInt8)) : List (List UInt8) :=
  cut length (readsBehind head.wire.length reads)

theorem bodyReads_flatten {head : RequestHead} {body : List UInt8}
    (stream : reads.flatten = head.wire ++ (body ++ rest)) :
    (bodyReads head body.length reads).flatten = body := by
  rw [bodyReads, cut_flatten, readsBehind_flatten, stream, List.drop_left, List.take_left]

/-- Every read that brings a part of the body is one call with this part. -/
theorem posted_served {head : RequestHead} {body : List UInt8}
    (announced : AnnouncesLength head body.length)
    (stream : reads.flatten = head.wire ++ (body ++ rest)) {ε σ : Type}
    {handler : AccessHandler ε σ} {fresh ready : σ → Prop} {context : σ}
    (consuming : Consuming handler head.url head.method.text fresh ready)
    (isFresh : fresh context) :
    Serves handler (receive handler reads (start, context))
      (exchangeWith handler head.url head.method.text
        (callsFor (bodyReads head body.length reads)) context)
      (TakenIn handler head context (readsBehind (head.wire ++ body).length reads)) := by
  obtain ⟨last, colon, buffer, later, behind, leads⟩ := head_leads head stream
  have whole := behind_head behind stream
  have served := length_served leads announced (by rw [whole]; simp) consuming isFresh
  rw [behind, readsBehind_readsBehind, ← List.length_append] at served
  exact served

end MhdConnection

/-! Requests for examples. -/

def requestWith (method : Token) (fields : List HeaderField) : RequestHead where
  method := method
  target := ⟨terminalsResource, by decide, by decide, by decide⟩
  version := ⟨lit "HTTP/1.1", by decide, by decide, by decide⟩
  fields := fields

def postMethod : Token := ⟨lit "POST", by decide, by decide, by decide⟩

def lengthPost : RequestHead :=
  requestWith postMethod [⟨lit "Content-Length", [32], lit "2", by decide, by decide, by decide,
    by decide, by simp [isBlank], by decide, by decide⟩]

theorem lengthPost_announces : AnnouncesLength lengthPost 2 := by
  have two : (lit "2").bytes = [50] := rfl
  have numeral : LengthText 2 (lit "2") := ⟨by decide, by simp [two, isDigit], by decide⟩
  exact ⟨by decide, by decide, ⟨lit "2", by decide, numeral⟩, by decide, by decide⟩

def chunkedPost : RequestHead :=
  requestWith postMethod [⟨lit "Transfer-Encoding", [32], lit "chunked", by decide, by decide, by decide,
    by decide, by simp [isBlank], by decide, by decide⟩]

/-- Three bytes in two chunks, in reads that end where they will, and a round between them that brings
nothing. -/
def chunkedReads : List (List UInt8) :=
  [chunkedPost.wire ++ (lit "2\r").bytes, [], (lit "\nab\r\n1\r\nc\r\n0\r\n\r\n").bytes]

theorem chunkedPost_framed : Framed chunkedPost [] (lit "abc").bytes
    (lit "2\r\nab\r\n1\r\nc\r\n0\r\n\r\n").bytes (MhdConnection.LeftBehind []) := by
  let first : Chunk := {
    line := ⟨[50], [], by decide, by decide, by simp; decide, by decide, by decide⟩
    data := [97, 98]
    dataSome := by decide
    sized := by decide }
  let second : Chunk := {
    line := ⟨[49], [], by decide, by decide, by simp; decide, by decide, by decide⟩
    data := [99]
    dataSome := by decide
    sized := by decide }
  let last : LastChunk := {
    line := ⟨[48], [], by decide, by decide, by simp; decide, by decide, by decide⟩
    zero := by decide }
  exact .chunked [first, second] last (lit "chunked") (by decide) (by decide) (by decide)

namespace MhdConnection

end MhdConnection

end SmartPay
