import SmartPay.MicrohttpdReplyCore
import SmartPay.DeliveryChecks

/-!
Requests one behind the other on one connection. However their bytes are split into
reads, each request is served with its own body, in order and up to the first one that
ends the connection, and nothing of a request gets into the next one.
-/

namespace SmartPay

open CLib

namespace MhdConnection

/-- What of a reply's body the client of a request gets. -/
def bodyTold (head : RequestHead) (json : Text) : Text :=
  if strEqualCaseless head.method.text (lit "HEAD") then lit "" else json

/-- The head lets the connection live on, as far as it says. -/
def headKeeps (head : RequestHead) : Prop :=
  (afterHead head (lit "") (lit "") []).buildKeepalive = .useKeepalive

instance (head : RequestHead) : Decidable (headKeeps head) :=
  inferInstanceAs (Decidable (_ = _))

theorem buildKeepalive_finished {head : RequestHead} {behind : List (List UInt8)}
    {c : MhdConnection} {later : List (List UInt8)} (keeps : headKeeps head)
    (finished : Finished (afterHead head (lit "") (lit "") []) behind c later) :
    c.buildKeepalive = .useKeepalive := by
  rw [← keeps]
  simp only [buildKeepalive, keepalivePossible, lookupHeaderTokenCi, finished.version,
    finished.headers, finished.reading]
  rfl

theorem replySent_finished {head : RequestHead} {behind : List (List UInt8)}
    {c : MhdConnection} {later : List (List UInt8)} (keeps : headKeeps head)
    (finished : Finished (afterHead head (lit "") (lit "") []) behind c later) :
    c.replySent = { start with readBuffer := c.readBuffer } := by
  have keepalive := buildKeepalive_finished keeps finished
  have stays : ¬(c.buildKeepalive ≠ .useKeepalive ∨ c.readClosed = true) := by
    simp [keepalive, finished.reading]
  rw [replySent, if_neg stays, finished.reading, finished.used, finished.replies.writing]
  rfl

theorem bodySent_replies {head : RequestHead} {c : MhdConnection} {json : Text}
    (replies : Replies (afterHead head (lit "") (lit "") []) c) (queued : c.response = some json) :
    c.bodySent = some (bodyTold head json) := by
  rw [bodySent, queued, Option.map_some, replies.position json queued, bodyTold]
  have method : (afterHead head (lit "") (lit "") []).method = head.method.text := rfl
  rw [setResponse, method]
  cases strEqualCaseless head.method.text (lit "HEAD") with
  | true =>
      simp only [Bool.true_or, if_true]
      rw [← Text.length_bytes, List.drop_length]
      rfl
  | false => exact congrArg some (Text.ofBytes_bytes json)

theorem replySent_refused {c : MhdConnection} (closed : c.readClosed = true) :
    c.replySent.state = .closed := by
  simp only [replySent, closed, or_true, if_true]

end MhdConnection

/-- A request with a body of some length, or with none, that the connection outlives. -/
structure KeptRequest where
  head : RequestHead
  body : List UInt8
  framed : body = [] ∧ NoBody head ∨ AnnouncesLength head body.length
  keeps : MhdConnection.headKeeps head

def KeptRequest.wire (request : KeptRequest) : List UInt8 := request.head.wire ++ request.body

/-- How a conversation ends: with all of its requests answered, or before. -/
inductive ConversationEnd
  | kept
  | closed
  | unanswered

/-- The requests one after the other, as the handler sees them: each with the reads that bring its
body. -/
def conversation {ε σ : Type} (handler : AccessHandler ε σ) (forget : σ → σ) :
    List KeptRequest → List (List UInt8) → σ → Except ε (σ × List Text × ConversationEnd)
  | [], _, context => .ok (context, [], .kept)
  | request :: rest, reads, context => do
      let (after, outcome) ← exchangeWith handler request.head.url request.head.method.text
        (callsFor (MhdConnection.bodyReads request.head request.body.length reads)) context
      match outcome with
      | .replied json =>
          if MhdConnection.refuses handler request.head context then
            .ok (forget after, [MhdConnection.bodyTold request.head json], .closed)
          else do
            let (final, told, ending) ← conversation handler forget rest
              (MhdConnection.readsBehind request.wire.length reads) (forget after)
            .ok (final, MhdConnection.bodyTold request.head json :: told, ending)
      | .closed => .ok (after, [], .closed)
      | .unanswered => .ok (after, [], .unanswered)

/-- The connection's run is the conversation. With a last call unanswered, the connection takes up the
rounds behind it, and each of them makes the call again. -/
structure Converses {ε σ : Type} (handler : AccessHandler ε σ) (forget : σ → σ)
    (run : Except (Halt ε) (List Text × (MhdConnection × σ) × List (List UInt8)))
    (calls : Except ε (σ × List Text × ConversationEnd)) (behind : List (List UInt8)) : Prop where
  fails : ∀ fault, calls = .error fault → run = .error (.handler fault)
  kept : ∀ context told, calls = .ok (context, told, .kept) → ∃ c later,
    run = .ok (told, (c, context), later) ∧
      c = { MhdConnection.start with readBuffer := c.readBuffer } ∧ c.readBuffer :: later = behind
  closed : ∀ context told, calls = .ok (context, told, .closed) → ∃ c later,
    run = .ok (told, (c, context), later) ∧ c.state = .closed
  unanswered : ∀ context told, calls = .ok (context, told, .unanswered) → ∃ c later replies,
    c.state = .footersReceived ∧ c.response = none ∧
      run = (MhdConnection.receive handler later (c, context) >>=
        MhdConnection.sendReply forget (MhdConnection.converse handler forget replies)).map
          fun (more, rest) => (told ++ more, rest)

section Converses

variable {ε σ : Type} {handler : AccessHandler ε σ} {forget : σ → σ} {context : σ}
  {told : List Text} {behind : List (List UInt8)}
  {run : Except (Halt ε) (List Text × (MhdConnection × σ) × List (List UInt8))}

theorem Converses.of_error {fault : ε} (stops : run = .error (.handler fault)) :
    Converses handler forget run (.error fault) behind := by
  refine ⟨?_, ?_, ?_, ?_⟩
  · intro other same
    cases same
    exact stops
  · intro after told same
    cases same
  · intro after told same
    cases same
  · intro after told same
    cases same

theorem Converses.of_kept (keeps : ∃ c later, run = .ok (told, (c, context), later) ∧
      c = { MhdConnection.start with readBuffer := c.readBuffer } ∧
      c.readBuffer :: later = behind) :
    Converses handler forget run (.ok (context, told, .kept)) behind := by
  refine ⟨?_, ?_, ?_, ?_⟩
  · intro fault same
    cases same
  · intro after told same
    cases same
    exact keeps
  · intro after told same
    cases same
  · intro after told same
    cases same

theorem Converses.of_closed
    (closes : ∃ c later, run = .ok (told, (c, context), later) ∧ c.state = .closed) :
    Converses handler forget run (.ok (context, told, .closed)) behind := by
  refine ⟨?_, ?_, ?_, ?_⟩
  · intro fault same
    cases same
  · intro after told same
    cases same
  · intro after told same
    cases same
    exact closes
  · intro after told same
    cases same

theorem Converses.of_unanswered (waits : ∃ c later replies, c.state = .footersReceived ∧
      c.response = none ∧
      run = (MhdConnection.receive handler later (c, context) >>=
        MhdConnection.sendReply forget (MhdConnection.converse handler forget replies)).map
          fun (more, rest) => (told ++ more, rest)) :
    Converses handler forget run (.ok (context, told, .unanswered)) behind := by
  refine ⟨?_, ?_, ?_, ?_⟩
  · intro fault same
    cases same
  · intro after told same
    cases same
  · intro after told same
    cases same
  · intro after told same
    cases same
    exact waits

theorem Converses.cons {calls : Except ε (σ × List Text × ConversationEnd)}
    (converses : Converses handler forget run calls behind) (json : Text) :
    Converses handler forget (do
        let (told, rest) ← run
        .ok (json :: told, rest))
      (do
        let (final, told, ending) ← calls
        .ok (final, json :: told, ending)) behind := by
  cases calls with
  | error fault =>
      apply Converses.of_error
      rw [converses.fails fault rfl]
      rfl
  | ok result =>
      obtain ⟨context, told, ending⟩ := result
      cases ending with
      | kept =>
          obtain ⟨c, later, ran, holds⟩ := converses.kept context told rfl
          refine Converses.of_kept ⟨c, later, ?_, holds⟩
          rw [ran]
          rfl
      | closed =>
          obtain ⟨c, later, ran, holds⟩ := converses.closed context told rfl
          refine Converses.of_closed ⟨c, later, ?_, holds⟩
          rw [ran]
          rfl
      | unanswered =>
          obtain ⟨c, later, replies, state, unqueued, ran⟩ := converses.unanswered context told rfl
          refine Converses.of_unanswered ⟨c, later, replies, state, unqueued, ?_⟩
          rw [ran]
          cases MhdConnection.receive handler later (c, context) >>=
            MhdConnection.sendReply forget (MhdConnection.converse handler forget replies) <;> rfl

end Converses

namespace MhdConnection

variable {ε σ : Type} {handler : AccessHandler ε σ} {forget : σ → σ} {context : σ}
  {buffer rest : List UInt8} {reads : List (List UInt8)}

/-- What is in the read buffer is like a first read. -/
theorem resume_buffer (handler : AccessHandler ε σ) (context : σ) (buffer : List UInt8)
    (reads : List (List UInt8)) :
    resume handler ({ start with readBuffer := buffer }, context) reads =
      receive handler (buffer :: reads) (start, context) :=
  (@receive_read _ _ handler (start, context) reads buffer rfl).symm

theorem wire_positive (head : RequestHead) : 0 < head.wire.length := by
  simp [RequestHead.wire]

/-- One request behind another. -/
theorem kept_serves (request : KeptRequest)
    (stream : buffer ++ reads.flatten = request.wire ++ rest) {fresh ready : σ → Prop}
    (consuming : Consuming handler request.head.url request.head.method.text fresh ready)
    (isFresh : fresh context) :
    Serves handler (resume handler ({ start with readBuffer := buffer }, context) reads)
      (exchangeWith handler request.head.url request.head.method.text
        (callsFor (bodyReads request.head request.body.length (buffer :: reads))) context)
      (TakenIn handler request.head context
        (readsBehind request.wire.length (buffer :: reads))) := by
  have whole : (buffer :: reads).flatten = request.head.wire ++ (request.body ++ rest) := by
    rw [List.flatten_cons, stream, KeptRequest.wire, List.append_assoc]
  rw [resume_buffer]
  rcases request.framed with ⟨empty, bodiless⟩ | announced
  · obtain ⟨last, colon, after, later, behind, leads⟩ := head_leads request.head whole
    have served := none_served leads bodiless consuming isFresh
    rw [behind] at served
    rw [KeptRequest.wire, empty, List.append_nil, bodyReads, List.length_nil, cut_zero]
    exact served
  · exact posted_served announced whole consuming isFresh

theorem converse_closed {c : MhdConnection} (closed : c.state = .closed) (replies : Nat) :
    converse handler forget replies reads (c, context) = .ok ([], (c, context), reads) := by
  cases replies with
  | zero => rfl
  | succ replies =>
      have stays : resume handler (c, context) reads = .ok ((c, context), reads) :=
        resume_closed closed
      have other : c.state ≠ .headersSending := by simp [closed]
      rw [resume] at stays
      cases idle : handleIdle handler (c, context) with
      | error fault =>
          rw [idle] at stays
          cases stays
      | ok state =>
          rw [idle] at stays
          simp only [ok_bind] at stays
          simp only [converse, idle, ok_bind, stays, sendReply, if_pos other]

theorem sendReply_open {c : MhdConnection} {json : Text} {replies : Nat}
    (sending : c.state = .headersSending) (writes : c.writeClosed = false)
    (told : c.bodySent = some json) :
    (Except.ok ((c, context), reads) >>= sendReply forget (converse handler forget replies)) = (do
      let (told, rest) ← converse handler forget replies reads (c.replySent, forget context)
      .ok (json :: told, rest)) := by
  simp only [ok_bind, sendReply, sending, ne_eq, not_true_eq_false, if_false, writes, told,
    Bool.false_eq_true, Option.toList_some, List.singleton_append]

/-- A run up to the next reply. -/
theorem converse_resume (replies : Nat) (state : MhdConnection × σ) :
    converse handler forget (replies + 1) reads state =
      resume handler state reads >>= sendReply forget (converse handler forget replies) := by
  simp only [converse, resume, bind_assoc]

end MhdConnection

def keptPost : KeptRequest where
  head := lengthPost
  body := [97, 98]
  framed := Or.inr lengthPost_announces
  keeps := by decide

/-- A handler that replies when it has the whole request. -/
def replyAtEnd : AccessHandler Unit Unit := fun _ _ call _ =>
  .ok {
    answer :=
      match call with
      | .last => .reply (lit "ok")
      | _ => .yes
    uploadDataSize := 0
    context := () }

namespace MhdConnection

end MhdConnection

end SmartPay
