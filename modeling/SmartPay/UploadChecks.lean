import SmartPay.HeadChecks

/-!
The body of a request with a length. Each read that brings bytes of it is one call of
the access handler, the last of them cut at the end of the body, and what the client
sends behind the body stays for the next request.
-/

namespace SmartPay

open CLib

/-- The calls of one request up to the first answer that ends it. -/
def exchangeWith {ε σ : Type} (handler : AccessHandler ε σ) (url method : Text) :
    List Call → σ → Except ε (σ × Outcome)
  | [], context => .ok (context, .unanswered)
  | call :: rest, context => do
      let result ← handler url method call context
      match result.answer with
      | .reply json => .ok (result.context, .replied json)
      | .no => .ok (result.context, .closed)
      | .yes => exchangeWith handler url method rest result.context

/-- A handler that leaves nothing of the bytes it is called with, and does not reply to them. -/
structure Consuming {ε σ : Type} (handler : AccessHandler ε σ) (url method : Text)
    (fresh ready : σ → Prop) : Prop where
  first : ∀ context result, fresh context → handler url method .first context = .ok result →
    result.answer = .yes → ready result.context
  data : ∀ context piece result, ready context → piece ≠ [] →
    handler url method (.data piece) context = .ok result → result.answer = .yes →
      result.uploadDataSize = 0 ∧ ready result.context
  quiet : ∀ context piece result json,
    handler url method (.data piece) context = .ok result → result.answer ≠ .reply json

/-- What a connection has done when the calls of a request come to an end in a certain way. `left`
is about the connection and the reads that are still to be used. With its last call unanswered, the
connection takes up the rounds behind it, and each of them makes the call again. -/
structure Serves {ε σ : Type} (handler : AccessHandler ε σ)
    (run : Except (Halt ε) ((MhdConnection × σ) × List (List UInt8)))
    (calls : Except ε (σ × Outcome)) (left : MhdConnection → List (List UInt8) → Prop) : Prop where
  fails : ∀ fault, calls = .error fault → run = .error (.handler fault)
  replied : ∀ context json, calls = .ok (context, .replied json) → ∃ c later,
    run = .ok ((c, context), later) ∧ c.state = .headersSending ∧ c.response = some json ∧
      left c later
  closed : ∀ context, calls = .ok (context, .closed) → ∃ c later,
    run = .ok ((c, context), later) ∧ c.state = .closed
  unanswered : ∀ context, calls = .ok (context, .unanswered) → ∃ c later,
    run = MhdConnection.receive handler later (c, context) ∧ c.state = .footersReceived ∧
      c.response = none ∧ left c later

section Serves

variable {ε σ : Type} {handler : AccessHandler ε σ} {context : σ}
  {left : MhdConnection → List (List UInt8) → Prop}
  {run : Except (Halt ε) ((MhdConnection × σ) × List (List UInt8))}

theorem Serves.of_error {fault : ε} (stops : run = .error (.handler fault)) :
    Serves handler run (.error fault : Except ε (σ × Outcome)) left := by
  refine ⟨?_, ?_, ?_, ?_⟩
  · intro other same
    cases same
    exact stops
  · intro after json same
    cases same
  · intro after same
    cases same
  · intro after same
    cases same

theorem Serves.of_closed
    (closes : ∃ c later, run = .ok ((c, context), later) ∧ c.state = .closed) :
    Serves handler run (.ok (context, .closed) : Except ε (σ × Outcome)) left := by
  refine ⟨?_, ?_, ?_, ?_⟩
  · intro fault same
    cases same
  · intro after json same
    cases same
  · intro after same
    cases same
    exact closes
  · intro after same
    cases same

theorem Serves.of_replied {json : Text}
    (replies : ∃ c later, run = .ok ((c, context), later) ∧ c.state = .headersSending ∧
      c.response = some json ∧ left c later) :
    Serves handler run (.ok (context, .replied json) : Except ε (σ × Outcome)) left := by
  refine ⟨?_, ?_, ?_, ?_⟩
  · intro fault same
    cases same
  · intro after other same
    cases same
    exact replies
  · intro after same
    cases same
  · intro after same
    cases same

theorem Serves.of_unanswered
    (waits : ∃ c later, run = MhdConnection.receive handler later (c, context) ∧
      c.state = .footersReceived ∧ c.response = none ∧ left c later) :
    Serves handler run (.ok (context, .unanswered) : Except ε (σ × Outcome)) left := by
  refine ⟨?_, ?_, ?_, ?_⟩
  · intro fault same
    cases same
  · intro after json same
    cases same
  · intro after same
    cases same
  · intro after same
    cases same
    exact waits

theorem Serves.mono {calls : Except ε (σ × Outcome)}
    {other : MhdConnection → List (List UInt8) → Prop} (serves : Serves handler run calls left)
    (more : ∀ c later, left c later → other c later) : Serves handler run calls other := by
  refine ⟨serves.fails, ?_, serves.closed, ?_⟩
  · intro after json same
    obtain ⟨c, later, ran, sending, queued, holds⟩ := serves.replied after json same
    exact ⟨c, later, ran, sending, queued, more c later holds⟩
  · intro after same
    obtain ⟨c, later, ran, state, unqueued, holds⟩ := serves.unanswered after same
    exact ⟨c, later, ran, state, unqueued, more c later holds⟩

end Serves

/-- The socket is as it was, and of a reply as much counts as sent as would have of one queued
there. -/
structure Replies (first c : MhdConnection) : Prop where
  writing : c.writeClosed = first.writeClosed
  position : ∀ json, c.response = some json →
    c.responseWritePosition = (first.setResponse 200 json).responseWritePosition

theorem Replies.unqueued {first c : MhdConnection} (writing : c.writeClosed = first.writeClosed)
    (none : c.response = none) : Replies first c := by
  refine ⟨writing, fun json queued => ?_⟩
  rw [none] at queued
  cases queued

theorem Replies.queued {first c : MhdConnection} {json : Text}
    (writing : c.writeClosed = first.writeClosed) (queued : c.response = some json)
    (position : c.responseWritePosition = (first.setResponse 200 json).responseWritePosition) :
    Replies first c := by
  refine ⟨writing, fun other same => ?_⟩
  rw [queued] at same
  cases same
  exact position

/-- The connection behind a request that it has taken in to its end, and that was `first` before its
body. -/
structure Finished (first : MhdConnection) (behind : List (List UInt8)) (c : MhdConnection)
    (later : List (List UInt8)) : Prop where
  behind : c.readBuffer :: later = behind
  reading : c.readClosed = false
  used : c.remainingUploadSize = 0
  version : c.version = first.version
  headers : c.headersReceived = first.headersReceived
  replies : Replies first c

namespace MhdConnection

section Calls

variable {ε σ : Type} {handler : AccessHandler ε σ} {c : MhdConnection} {context : σ}
  {reads : List (List UInt8)} {left : MhdConnection → List (List UInt8) → Prop}
  {calls : List Call} {url method : Text}
  {fresh ready : σ → Prop}

theorem resume_closed (closed : c.state = .closed) :
    resume handler (c, context) reads = .ok ((c, context), reads) := by
  have stepped : idleStep handler (c, context) = .ok (false, c, context) := by
    simp only [idleStep, closed]
    rfl
  rw [resume_stop stepped, receive_ended (by simp [ended, closed])]

/-- A reply that is queued goes out. -/
theorem resume_queued {json : Text} (state : c.state = .footersReceived)
    (queued : c.response = some json) :
    resume handler (c, context) reads =
      .ok (({ c with state := .headersSending }, context), reads) := by
  have stepped : idleStep handler (c, context) =
      .ok (false, { c with state := .headersSending }, context) := by
    simp only [idleStep, state, callConnectionHandler, queued, Option.isSome_some, if_true, ok_bind,
      lastCallDone, reduceCtorEq, if_false, Option.isNone_some, Bool.false_eq_true]
    rfl
  rw [resume_stop stepped, receive_ended rfl]

/-- The connection with a reply that starts to be sent. -/
def sending (c : MhdConnection) (json : Text) : MhdConnection :=
  { c.setResponse 200 json with state := .headersSending }

theorem last_serves (state : c.state = .footersReceived) (unqueued : c.response = none)
    (rest : left c reads) (restSending : ∀ json, left (c.sending json) reads) :
    Serves handler (resume handler (c, context) reads)
      (exchangeWith handler c.url c.method [.last] context) left := by
  have stepped : idleStep handler (c, context) = (do
      let result ← orHalt (handler c.url c.method .last context)
      withContext result.context (c.takeAnswer result.answer).lastCallDone) := by
    simp only [idleStep, state, callConnectionHandler, unqueued, Option.isSome_none,
      Bool.false_eq_true, if_false, bind_assoc]
    rfl
  simp only [exchangeWith]
  cases called : handler c.url c.method .last context with
  | error fault =>
      rw [called] at stepped
      exact Serves.of_error (resume_fault stepped)
  | ok result =>
      obtain ⟨answer, size, after⟩ := result
      rw [called] at stepped
      simp only [orHalt, ok_bind] at stepped ⊢
      cases answer with
      | yes =>
          have done : (c.takeAnswer .yes).lastCallDone = (false, c) := by
            simp [takeAnswer, lastCallDone, state, unqueued]
          rw [done] at stepped
          exact Serves.of_unanswered ⟨c, reads, resume_stop stepped, state, unqueued, rest⟩
      | no =>
          have done : (c.takeAnswer .no).lastCallDone = (true, c.closeError) := rfl
          rw [done] at stepped
          refine Serves.of_closed ⟨c.closeError, reads, ?_, rfl⟩
          rw [resume_again stepped, resume_closed rfl]
      | reply json =>
          have done : (c.takeAnswer (.reply json)).lastCallDone = (false, c.sending json) := by
            simp [takeAnswer, queueResponse, lastCallDone, state, unqueued, sending]
          rw [done] at stepped
          refine Serves.of_replied ⟨c.sending json, reads, ?_, rfl, rfl, restSending json⟩
          rw [resume_stop stepped, receive_ended rfl]

/-! In the middle of `process_request_body`. -/

def finishBody (handler : AccessHandler ε σ) (reads : List (List UInt8))
    (state : MhdConnection × σ) : Except (Halt ε) ((MhdConnection × σ) × List (List UInt8)) :=
  if state.1.bodyProcessed.1 then resume handler (state.1.bodyProcessed.2, state.2) reads
  else receive handler reads (state.1.bodyProcessed.2, state.2)

def resumeBody (handler : AccessHandler ε σ) (state : MhdConnection × σ)
    (reads : List (List UInt8)) : Except (Halt ε) ((MhdConnection × σ) × List (List UInt8)) :=
  loop (bodyStep handler) bodySize state >>= finishBody handler reads

theorem resume_body (sent : c.state = .continueSent) (unqueued : c.response = none)
    (some : c.readBuffer ≠ []) :
    resume handler (c, context) reads = resumeBody handler (c, context) reads := by
  have stepped : idleStep handler (c, context) =
      loop (bodyStep handler) bodySize (c, context) >>= fun state =>
        withContext state.2 state.1.bodyProcessed := by
    simp only [idleStep, sent, if_neg some, processRequestBody, unqueued, Option.isSome_none,
      Bool.false_eq_true, if_false]
  rw [resumeBody]
  cases processed : loop (bodyStep handler) bodySize (c, context) with
  | error fault =>
      rw [processed] at stepped
      exact resume_fault stepped
  | ok state =>
      rw [processed] at stepped
      simp only [ok_bind, withContext, finishBody] at stepped ⊢
      cases again : state.1.bodyProcessed.1 with
      | false =>
          rw [again] at stepped
          rw [resume_stop stepped]
          rfl
      | true =>
          rw [again] at stepped
          rw [resume_again stepped]
          rfl

theorem resumeBody_again {state next : MhdConnection × σ}
    (stepped : bodyStep handler state = .ok (true, next)) :
    resumeBody handler state reads = resumeBody handler next reads := by
  simp only [resumeBody, loop_again (bodyStep_decreases handler) stepped]

theorem resumeBody_stop {state next : MhdConnection × σ}
    (stepped : bodyStep handler state = .ok (false, next)) :
    resumeBody handler state reads = finishBody handler reads next := by
  simp only [resumeBody, loop_stop stepped, ok_bind]

theorem finishBody_closed (closed : c.state = .closed) :
    finishBody handler reads (c, context) = .ok ((c, context), reads) := by
  have done : c.bodyProcessed = (true, c) := by
    simp only [bodyProcessed, closed, if_true]
  simp only [finishBody, done, if_true, resume_closed closed]

/-- One call with a part of the body. -/
theorem deliver_serves {first : MhdConnection} {toBeProcessed : Nat} {instantRetry : Bool}
    (consuming : Consuming handler c.url c.method fresh ready) (isReady : ready context)
    (sent : c.state = .continueSent) (some : c.readBuffer.take toBeProcessed ≠ [])
    (stepped : bodyStep handler (first, context) =
      deliver handler toBeProcessed instantRetry (c, context))
    (continues : ∀ after, ready after →
      Serves handler (if instantRetry then resumeBody handler (c.bytesProcessed toBeProcessed, after) reads
          else finishBody handler reads (c.bytesProcessed toBeProcessed, after))
        (exchangeWith handler c.url c.method calls after) left) :
    Serves handler (resumeBody handler (first, context) reads)
      (exchangeWith handler c.url c.method (.data (c.readBuffer.take toBeProcessed) :: calls)
        context) left := by
  simp only [exchangeWith]
  cases called : handler c.url c.method (.data (c.readBuffer.take toBeProcessed)) context with
  | error fault =>
      simp only [deliver, called] at stepped
      apply Serves.of_error
      simp only [resumeBody, loop_fault stepped]
      rfl
  | ok result =>
      simp only [deliver, called, orHalt, ok_bind] at stepped ⊢
      rcases takeAnswer_state sent result.answer with ⟨kept, yes⟩ | ⟨closed, notYes⟩
      · obtain ⟨consumed, isReady⟩ := consuming.data context _ result isReady some called yes
        simp only [kept, sent, reduceCtorEq, if_false, consumed, Nat.not_lt_zero, beq_self_eq_true,
          Bool.and_true, Nat.sub_zero] at stepped
        have next := continues result.context isReady
        simp only [yes]
        cases instantRetry with
        | true =>
            rw [resumeBody_again stepped]
            exact next
        | false =>
            rw [resumeBody_stop stepped]
            exact next
      · simp only [closed, if_true] at stepped
        have refused : result.answer = .no := by
          cases answer : result.answer with
          | yes => exact absurd answer notYes
          | no => rfl
          | reply json => exact absurd answer (consuming.quiet context _ result json called)
        simp only [refused]
        apply Serves.of_closed
        rw [resumeBody_stop stepped, finishBody_closed closed]
        exact ⟨_, reads, rfl, closed⟩

/-! A body with a length. -/

/-- The reads cut at the end of the body, without those that bring nothing of it. -/
def cut : Nat → List (List UInt8) → List (List UInt8)
  | _, [] => []
  | length, read :: rest =>
      if read.take length = [] then cut length rest
      else read.take length :: cut (length - read.length) rest

theorem cut_zero (reads : List (List UInt8)) : cut 0 reads = [] := by
  induction reads with
  | nil => rfl
  | cons read rest ih => simp [cut, ih]

theorem cut_nonempty {length : Nat} {reads : List (List UInt8)} :
    ∀ piece ∈ cut length reads, piece ≠ [] := by
  induction reads generalizing length with
  | nil => simp [cut]
  | cons read rest ih =>
      intro piece member
      simp only [cut] at member
      split at member
      · exact ih piece member
      · rename_i some
        rcases List.mem_cons.mp member with rfl | later
        · exact some
        · exact ih piece later

theorem cut_flatten (length : Nat) (reads : List (List UInt8)) :
    (cut length reads).flatten = reads.flatten.take length := by
  induction reads generalizing length with
  | nil => simp [cut]
  | cons read rest ih =>
      simp only [cut, List.flatten_cons, List.take_append]
      split
      · rename_i nothing
        rw [ih, nothing, List.nil_append]
        rcases List.take_eq_nil_iff.mp nothing with zero | empty
        · simp [zero]
        · simp [empty]
      · rw [List.flatten_cons, ih]

structure PlainBody (c : MhdConnection) : Prop where
  sent : c.state = .continueSent
  unqueued : c.response = none
  reading : c.readClosed = false
  plain : c.haveChunkedUpload = false
  some : 0 < c.remainingUploadSize
  known : c.remainingUploadSize < mhdSizeUnknown

theorem PlainBody.bodyStep (body : PlainBody c) (handler : AccessHandler ε σ) (context : σ) :
    bodyStep handler (c, context) = deliver handler
      (min c.remainingUploadSize c.readBuffer.length) false (c, context) := by
  have some := body.some
  have known := body.known
  simp only [MhdConnection.bodyStep, body.plain, Bool.false_eq_true, false_and, if_false]
  by_cases few : c.remainingUploadSize < c.readBuffer.length
  · rw [if_pos ⟨by omega, by omega, few⟩, min_eq_left few.le]
  · rw [if_neg (by tauto), min_eq_right (by omega)]

theorem uint64Sub_le {a b : Nat} (le : b ≤ a) (bound : a < 2 ^ 64) : uint64Sub a b = a - b := by
  rw [uint64Sub, show a + 2 ^ 64 - b = (a - b) + 2 ^ 64 by omega, Nat.add_mod_right,
    Nat.mod_eq_of_lt (by omega)]

theorem PlainBody.bytesProcessed (body : PlainBody c) {n : Nat} (le : n ≤ c.remainingUploadSize) :
    c.bytesProcessed n = { c with
      readBuffer := c.readBuffer.drop n
      remainingUploadSize := c.remainingUploadSize - n } := by
  have known := body.known
  have small : c.remainingUploadSize < 2 ^ 64 := by
    simp only [mhdSizeUnknown, uint64Max] at known
    omega
  simp only [MhdConnection.bytesProcessed, body.plain, Bool.false_eq_true, if_false,
    if_neg (Nat.ne_of_lt known), uint64Sub_le le small]

theorem PlainBody.waits (body : PlainBody c) : c.bodyProcessed = (false, c) := by
  have some := body.some
  have known := body.known
  rw [bodyProcessed, body.sent, if_neg (by simp), if_neg]
  rintro (zero | ⟨unknown, _⟩) <;> omega

/-- The read that completes the body. -/
theorem PlainBody.lastPiece (consuming : Consuming handler c.url c.method fresh ready)
    (isReady : ready context) (body : PlainBody c)
    (enough : c.remainingUploadSize ≤ c.readBuffer.length) :
    Serves handler (resume handler (c, context) reads)
      (exchangeWith handler c.url c.method
        [.data (c.readBuffer.take c.remainingUploadSize), .last] context)
      (Finished c (readsBehind c.remainingUploadSize (c.readBuffer :: reads))) := by
  have positive := body.some
  have some : c.readBuffer ≠ [] := List.ne_nil_of_length_pos (by omega)
  have piece : c.readBuffer.take c.remainingUploadSize ≠ [] := by
    rw [ne_eq, List.take_eq_nil_iff]
    rintro (zero | empty)
    · omega
    · exact some empty
  have stepped := body.bodyStep handler context
  rw [min_eq_left enough] at stepped
  rw [resume_body body.sent body.unqueued some]
  refine deliver_serves consuming isReady body.sent piece stepped fun after _ => ?_
  let next : MhdConnection := { c with
    state := .footersReceived
    readBuffer := c.readBuffer.drop c.remainingUploadSize
    remainingUploadSize := 0 }
  have done : (c.bytesProcessed c.remainingUploadSize).bodyProcessed = (true, next) := by
    rw [body.bytesProcessed (le_refl _)]
    simp [bodyProcessed, body.sent, body.plain, next]
  simp only [Bool.false_eq_true, if_false, finishBody, done, if_true]
  have behind : next.readBuffer :: reads =
      readsBehind c.remainingUploadSize (c.readBuffer :: reads) := by
    rw [readsBehind, if_pos enough]
  exact last_serves (c := next) rfl body.unqueued
    ⟨behind, body.reading, rfl, rfl, rfl, .unqueued rfl body.unqueued⟩
    fun json => ⟨behind, body.reading, rfl, rfl, rfl, .queued rfl rfl rfl⟩

/-- A read that leaves a part of the body to come. -/
theorem PlainBody.piece (consuming : Consuming handler c.url c.method fresh ready)
    (isReady : ready context) (body : PlainBody c) (some : c.readBuffer ≠ [])
    (few : c.readBuffer.length < c.remainingUploadSize)
    (continues : ∀ after, ready after → Serves handler (receive handler reads ({ c with
        readBuffer := []
        remainingUploadSize := c.remainingUploadSize - c.readBuffer.length }, after))
      (exchangeWith handler c.url c.method calls after) left) :
    Serves handler (resume handler (c, context) reads)
      (exchangeWith handler c.url c.method (.data c.readBuffer :: calls) context) left := by
  have stepped := body.bodyStep handler context
  rw [min_eq_right few.le] at stepped
  have whole : c.readBuffer.take c.readBuffer.length = c.readBuffer := List.take_length
  rw [resume_body body.sent body.unqueued some]
  have served := @deliver_serves _ _ handler c context reads left calls fresh ready c
    c.readBuffer.length false consuming isReady body.sent (by rwa [whole]) stepped
  rw [whole] at served
  refine served fun after isReady => ?_
  let next : MhdConnection := { c with
    readBuffer := []
    remainingUploadSize := c.remainingUploadSize - c.readBuffer.length }
  have processed : c.bytesProcessed c.readBuffer.length = next := by
    rw [body.bytesProcessed few.le]
    simp [next]
  have stays : PlainBody next := by
    have known := body.known
    exact ⟨body.sent, body.unqueued, body.reading, body.plain, by simp only [next]; omega,
      by simp only [next]; omega⟩
  simp only [Bool.false_eq_true, if_false, finishBody, processed, stays.waits]
  exact continues after isReady

/-- Every read that brings bytes of the body is one call with these bytes. -/
theorem receive_serves (consuming : Consuming handler c.url c.method fresh ready)
    (isReady : ready context) (body : PlainBody c) (used : c.readBuffer = [])
    (enough : c.remainingUploadSize ≤ reads.flatten.length) :
    Serves handler (receive handler reads (c, context))
      (exchangeWith handler c.url c.method
        ((cut c.remainingUploadSize reads).map .data ++ [.last]) context)
      (Finished c (readsBehind c.remainingUploadSize reads)) := by
  have positive := body.some
  induction reads generalizing c context with
  | nil =>
      simp only [List.flatten_nil, List.length_nil] at enough
      omega
  | cons read rest ih =>
      have wants : c.wantsRead = true := by simp [wantsRead, body.sent, body.reading]
      let now : MhdConnection := { c with readBuffer := read }
      have bodyNow : PlainBody now :=
        ⟨body.sent, body.unqueued, body.reading, body.plain, body.some, body.known⟩
      rw [@receive_read _ _ handler (c, context) rest read wants]
      simp only [used, List.nil_append, cut]
      by_cases nothing : read = []
      · -- there is nothing to read in this round, and the body is still waited for
        have stepped : idleStep handler (now, context) = .ok (false, c, context) := by
          have same : now = c := by simp only [now, nothing, ← used]
          simp only [same, idleStep, body.sent, if_pos used, ok_bind, body.waits]
          rfl
        rw [resume_stop stepped, nothing, List.take_nil, if_pos rfl, readsBehind_start positive]
        refine ih consuming isReady body used ?_ positive
        rwa [nothing, List.flatten_cons, List.nil_append] at enough
      have piece : read.take c.remainingUploadSize ≠ [] := by
        rw [ne_eq, List.take_eq_nil_iff]
        rintro (zero | empty)
        · omega
        · exact nothing empty
      rw [if_neg piece]
      by_cases complete : c.remainingUploadSize ≤ read.length
      · rw [show c.remainingUploadSize - read.length = 0 by omega, cut_zero]
        exact (bodyNow.lastPiece (c := now) consuming isReady complete).mono
          fun _ _ finished => { finished with replies := { finished.replies with } }
      · have few : read.length < c.remainingUploadSize := by omega
        rw [List.take_of_length_le few.le]
        refine bodyNow.piece (c := now) consuming isReady nothing few fun after isReady => ?_
        have known := body.known
        rw [readsBehind, if_neg complete]
        refine (ih (c := { now with
            readBuffer := []
            remainingUploadSize := c.remainingUploadSize - read.length }) consuming isReady
          ⟨body.sent, body.unqueued, body.reading, body.plain, ?_, ?_⟩ rfl ?_ ?_).mono
          fun _ _ finished => { finished with replies := { finished.replies with } }
        · simp only
          omega
        · simp only
          omega
        · simp only [List.flatten_cons, List.length_append] at enough ⊢
          omega
        · simp only
          omega

theorem plain_serves (consuming : Consuming handler c.url c.method fresh ready)
    (isReady : ready context) (body : PlainBody c)
    (enough : c.remainingUploadSize ≤ (c.readBuffer ++ reads.flatten).length) :
    Serves handler (resume handler (c, context) reads)
      (exchangeWith handler c.url c.method
        ((cut c.remainingUploadSize (c.readBuffer :: reads)).map .data ++ [.last]) context)
      (Finished c (readsBehind c.remainingUploadSize (c.readBuffer :: reads))) := by
  have positive := body.some
  rw [List.length_append] at enough
  by_cases empty : c.readBuffer = []
  · have stepped : idleStep handler (c, context) = .ok (false, c, context) := by
      simp only [idleStep, body.sent, if_pos empty, ok_bind, body.waits]
      rfl
    rw [resume_stop stepped, empty, readsBehind_start positive, cut, List.take_nil, if_pos rfl]
    refine receive_serves consuming isReady body empty ?_
    rwa [empty, List.length_nil, Nat.zero_add] at enough
  · have piece : c.readBuffer.take c.remainingUploadSize ≠ [] := by
      rw [ne_eq, List.take_eq_nil_iff]
      rintro (zero | nothing)
      · omega
      · exact empty nothing
    rw [cut, if_neg piece]
    by_cases complete : c.remainingUploadSize ≤ c.readBuffer.length
    · rw [show c.remainingUploadSize - c.readBuffer.length = 0 by omega, cut_zero]
      exact body.lastPiece consuming isReady complete
    · have few : c.readBuffer.length < c.remainingUploadSize := by omega
      rw [List.take_of_length_le few.le]
      refine body.piece consuming isReady empty few fun after isReady => ?_
      have known := body.known
      rw [readsBehind, if_neg complete]
      refine (receive_serves (c := { c with
          readBuffer := []
          remainingUploadSize := c.remainingUploadSize - c.readBuffer.length }) consuming isReady
        ⟨body.sent, body.unqueued, body.reading, body.plain, ?_, ?_⟩ rfl ?_).mono
        fun _ _ finished => { finished with replies := { finished.replies with } }
      · simp only
        omega
      · simp only
        omega
      · simp only
        omega

end Calls

end MhdConnection

end SmartPay
