import SmartPay.DeliveryChecks
import SmartPay.ScheduleChecks

/-!
The terminals service on the network. `answerToConnection` is called as the claims of
this development assume, whatever the reads of the connection are; and what the reads
are decides which part of a posted body is kept.
-/

namespace SmartPay

open CLib

structure HandlerContext where
  index : Nat
  conCls : ConCls
  server : Server

/-- `answerToConnection` as the daemon's default handler, with the local arrays of each call. -/
def answerHandler (locals : Nat → HandlerLocals) : AccessHandler Fault HandlerContext :=
  fun url method call context => do
    let result ← answerToConnection (locals context.index) url method call context.conCls
      context.server
    .ok {
      answer := result.answer
      uploadDataSize := result.uploadDataSize
      context := { index := context.index + 1, conCls := result.conCls, server := result.server } }

section Handler

variable {locals : Nat → HandlerLocals} {url method : Text} {context : HandlerContext}

/-- The calls of a request are the exchange of the server's model. -/
theorem exchangeWith_answer (locals : Nat → HandlerLocals) (url method : Text)
    (context : HandlerContext) (calls : List Call) :
    (exchangeWith (answerHandler locals) url method calls context).map
        (fun (after, outcome) => (after.server, outcome)) =
      exchangeFrom locals url method context.index calls context.conCls context.server := by
  induction calls generalizing context with
  | nil => rfl
  | cons call rest ih =>
      simp only [exchangeWith, exchangeFrom, answerHandler, bind_assoc]
      cases answerToConnection (locals context.index) url method call context.conCls
          context.server with
      | error fault => rfl
      | ok result =>
          obtain ⟨answer, size, conCls, server⟩ := result
          simp only [ok_bind]
          cases answer with
          | yes => exact ih { index := context.index + 1, conCls := conCls, server := server }
          | no => rfl
          | reply json => rfl

def BeforeUpload (context : HandlerContext) : Prop := context.conCls = .null

def DuringUpload (context : HandlerContext) : Prop :=
  ∃ buff, context.conCls = .post { status := true, buff := buff }

theorem answerGet_replies {start : HandlerLocals} {call : Call} {conCls : ConCls} {server : Server}
    {result : CallResult} (done : answerGet start url call conCls server = .ok result) :
    ∃ json, result.answer = sendResponse call json := by
  obtain ⟨termId, _, done⟩ := bind_eq_ok.mp done
  obtain ⟨jsonReq, _, done⟩ := bind_eq_ok.mp done
  obtain ⟨created, _, done⟩ := bind_eq_ok.mp done
  obtain ⟨responded, _, done⟩ := bind_eq_ok.mp done
  obtain ⟨jResponse, _, done⟩ := bind_eq_ok.mp done
  obtain ⟨sent, _, done⟩ := bind_eq_ok.mp done
  cases done
  exact ⟨sent, rfl⟩

theorem answerToConnection_first {start : HandlerLocals} {server : Server} {result : CallResult}
    (done : answerToConnection start url method .first .null server = .ok result)
    (yes : result.answer = .yes) :
    ∃ buff, result.conCls = .post { status := true, buff := buff } := by
  simp only [answerToConnection] at done
  split at done
  · cases done
    cases yes
  split at done
  · obtain ⟨json, told⟩ := answerGet_replies done
    rw [told] at yes
    cases yes
  split at done
  · obtain ⟨endPoint, _, done⟩ := bind_eq_ok.mp done
    split at done
    · cases done
      cases yes
    · cases done
      exact ⟨none, rfl⟩
  · cases done
    cases yes

theorem answerToConnection_data {start : HandlerLocals} {server : Server} {result : CallResult}
    {piece : List UInt8} {buff : Option Text} (some : piece ≠ [])
    (done : answerToConnection start url method (.data piece)
      (.post { status := true, buff := buff }) server = .ok result) (yes : result.answer = .yes) :
    result.uploadDataSize = 0 ∧ ∃ buff, result.conCls = .post { status := true, buff := buff } := by
  have size : (Call.data piece).uploadDataSize ≠ 0 := mt List.length_eq_zero_iff.mp some
  simp only [answerToConnection] at done
  split at done
  · cases done
    cases yes
  split at done
  · obtain ⟨json, told⟩ := answerGet_replies done
    rw [told] at yes
    cases yes
  split at done
  · obtain ⟨endPoint, _, done⟩ := bind_eq_ok.mp done
    split at done
    · cases done
      cases yes
    · simp only [Bool.not_true, Bool.false_eq_true, if_false] at done
      cases done
      exact ⟨rfl, _, rfl⟩
  · cases done
    cases yes

theorem answerPostLast_replies {start : HandlerLocals} {post : PostStatus} {server : Server}
    {result : CallResult} (done : answerPostLast start .last post server = .ok result) :
    result.answer ≠ .yes := by
  rw [answerPostLast] at done
  split at done
  · obtain ⟨told, _, done⟩ := bind_eq_ok.mp done
    obtain ⟨sent, _, done⟩ := bind_eq_ok.mp done
    cases done
    simp [sendResponse]
  · obtain ⟨printed, _, done⟩ := bind_eq_ok.mp done
    obtain ⟨sent, _, done⟩ := bind_eq_ok.mp done
    cases done
    simp [sendResponse]

/-- The last call gets a reply. -/
theorem answerToConnection_last {start : HandlerLocals} {server : Server} {result : CallResult}
    {buff : Option Text}
    (done : answerToConnection start url method .last (.post { status := true, buff := buff })
      server = .ok result) : result.answer ≠ .yes := by
  simp only [answerToConnection] at done
  split at done
  · cases done
    simp [sendResponse]
  split at done
  · obtain ⟨json, told⟩ := answerGet_replies done
    simp [told, sendResponse]
  split at done
  · obtain ⟨endPoint, _, done⟩ := bind_eq_ok.mp done
    split at done
    · cases done
      simp [sendResponse]
    · exact answerPostLast_replies done
  · cases done
    simp [sendResponse]

theorem answerHandler_consuming (locals : Nat → HandlerLocals) (url method : Text) :
    Consuming (answerHandler locals) url method BeforeUpload DuringUpload := by
  refine ⟨?_, ?_, ?_⟩
  · intro context result fresh done yes
    obtain ⟨called, answered, done⟩ := bind_eq_ok.mp done
    cases done
    rw [show context.conCls = .null from fresh] at answered
    exact answerToConnection_first answered yes
  · rintro context piece result ⟨buff, ready⟩ some done yes
    obtain ⟨called, answered, done⟩ := bind_eq_ok.mp done
    cases done
    rw [ready] at answered
    exact answerToConnection_data some answered yes
  · intro context piece result json done
    obtain ⟨called, answered, done⟩ := bind_eq_ok.mp done
    cases done
    obtain ⟨visited, _, told⟩ := answerToConnection_visited 0 answered
    simp only
    cases visited with
    | none =>
        rcases told with refused | withoutData | ⟨yes, _⟩
        · simp [refused, sendResponse]
        · simp [withoutData, sendResponse]
        · simp [yes]
    | some visit =>
        simp [told.1, sendResponse]

/-- From the first piece of the body on. -/
theorem uploadWith_answered {pieces : List (List UInt8)} (some : ∀ piece ∈ pieces, piece ≠ [])
    (during : DuringUpload context) (after : HandlerContext) :
    exchangeWith (answerHandler locals) url method (pieces.map .data ++ [.last]) context ≠
      .ok (after, .unanswered) := by
  induction pieces generalizing context with
  | nil =>
      intro unanswered
      obtain ⟨result, called, unanswered⟩ := bind_eq_ok.mp unanswered
      obtain ⟨inner, answered, called⟩ := bind_eq_ok.mp called
      obtain ⟨buff, ready⟩ := during
      rw [ready] at answered
      have notYes := answerToConnection_last answered
      cases called
      cases answer : inner.answer <;> simp only [answer] at unanswered notYes
      · exact notYes rfl
      · cases unanswered
      · cases unanswered
  | cons piece pieces ih =>
      intro unanswered
      obtain ⟨result, called, unanswered⟩ := bind_eq_ok.mp unanswered
      have ready := (answerHandler_consuming locals url method).data context piece result during
        (some piece (by simp)) called
      cases answer : result.answer with
      | yes =>
          simp only [answer] at unanswered
          exact ih (fun other member => some other (by simp [member])) (ready answer).2 unanswered
      | no =>
          simp only [answer] at unanswered
          cases unanswered
      | reply json =>
          simp only [answer] at unanswered
          cases unanswered

/-- The server answers every exchange. -/
theorem exchangeWith_answered {pieces : List (List UInt8)} (some : ∀ piece ∈ pieces, piece ≠ [])
    (before : BeforeUpload context) (after : HandlerContext) :
    exchangeWith (answerHandler locals) url method (callsFor pieces) context ≠
      .ok (after, .unanswered) := by
  intro unanswered
  obtain ⟨result, called, unanswered⟩ := bind_eq_ok.mp unanswered
  have ready := (answerHandler_consuming locals url method).first context result before called
  cases answer : result.answer with
  | yes =>
      simp only [answer] at unanswered
      exact uploadWith_answered some (ready answer) after unanswered
  | no =>
      simp only [answer] at unanswered
      cases unanswered
  | reply json =>
      simp only [answer] at unanswered
      cases unanswered

/-- How a connection ends for an exchange with the server. -/
structure Answers (run : Except (Halt Fault)
      ((MhdConnection × HandlerContext) × List (List UInt8)))
    (exchanged : Except Fault (Server × Outcome)) (left : List UInt8 → Prop) : Prop where
  fails : ∀ fault, exchanged = .error fault → run = .error (.handler fault)
  replied : ∀ server json, exchanged = .ok (server, .replied json) → ∃ c context later,
    run = .ok ((c, context), later) ∧ context.server = server ∧ c.state = .headersSending ∧
      c.response = some json ∧ (c.readClosed = false → left (c.readBuffer ++ later.flatten))
  closed : ∀ server, exchanged = .ok (server, .closed) → ∃ c context later,
    run = .ok ((c, context), later) ∧ context.server = server ∧ c.state = .closed
  answered : ∀ server, exchanged ≠ .ok (server, .unanswered)

theorem Serves.answers {server : Server} {pieces : List (List UInt8)} {left : List UInt8 → Prop}
    {run : Except (Halt Fault) ((MhdConnection × HandlerContext) × List (List UInt8))}
    (some : ∀ piece ∈ pieces, piece ≠ [])
    (serves : Serves (answerHandler locals) run
      (exchangeWith (answerHandler locals) url method (callsFor pieces)
        { index := 0, conCls := .null, server := server }) (MhdConnection.LeftOver left)) :
    Answers run (exchange locals url method pieces server) left := by
  have same := exchangeWith_answer locals url method
    { index := 0, conCls := .null, server := server } (callsFor pieces)
  rw [exchange, ← same]
  cases ended : exchangeWith (answerHandler locals) url method (callsFor pieces)
      { index := 0, conCls := .null, server := server } with
  | error fault =>
      refine ⟨?_, ?_, ?_, ?_⟩
      · intro other equal
        cases equal
        exact serves.fails fault ended
      · intro after json equal
        cases equal
      · intro after equal
        cases equal
      · intro after equal
        cases equal
  | ok result =>
      obtain ⟨context, outcome⟩ := result
      refine ⟨?_, ?_, ?_, ?_⟩
      · intro fault equal
        cases equal
      · intro after json equal
        cases equal
        obtain ⟨c, later, ran, sending, queued, left⟩ := serves.replied context json ended
        exact ⟨c, context, later, ran, rfl, sending, queued, fun reading => left fun _ => reading⟩
      · intro after equal
        cases equal
        obtain ⟨c, later, ran, closed⟩ := serves.closed context ended
        exact ⟨c, context, later, ran, rfl, closed⟩
      · intro after equal
        cases equal
        have before : BeforeUpload { index := 0, conCls := .null, server := server } := rfl
        exact exchangeWith_answered some before context ended

end Handler

section Posted

variable {head : RequestHead} {rest : List UInt8} {reads : List (List UInt8)}
  {locals : Nat → HandlerLocals} {server : Server} {texts : List Text}

theorem posted_exchanged {body : List UInt8} (announced : AnnouncesLength head body.length)
    (stream : reads.flatten = head.wire ++ (body ++ rest))
    (locals : Nat → HandlerLocals) (server : Server) :
    Answers (MhdConnection.receive (answerHandler locals) reads
        (MhdConnection.start, { index := 0, conCls := .null, server := server }))
      (exchange locals head.url head.method.text
        (MhdConnection.bodyReads head body.length reads) server) (· = rest) := by
  have flat : (MhdConnection.readsBehind (head.wire ++ body).length reads).flatten = rest := by
    rw [MhdConnection.readsBehind_flatten, stream, ← List.append_assoc, List.drop_left]
  have served := MhdConnection.posted_served announced stream
    (answerHandler_consuming locals _ _)
    (show BeforeUpload { index := 0, conCls := .null, server := server } from rfl)
  exact Serves.answers MhdConnection.cut_nonempty
    (served.mono fun _ _ taken => taken.leftOver flat)

/-- Of non-empty pieces, the last one is all of it only where it is the only one. -/
theorem last_piece_whole {before : List (List UInt8)} {piece body : List UInt8}
    (nonempty : ∀ other ∈ before ++ [piece], other ≠ [])
    (whole : (before ++ [piece]).flatten = body) : piece = body ↔ (before ++ [piece]).length = 1 := by
  simp only [List.flatten_append, List.flatten_singleton] at whole
  constructor
  · rintro rfl
    have empty : before.flatten = [] := List.append_left_eq_self.mp whole
    have nothing : before = [] := by
      rw [List.eq_nil_iff_forall_not_mem]
      intro other member
      exact nonempty other (by simp [member]) (List.flatten_eq_nil_iff.mp empty other member)
    simp [nothing]
  · intro single
    have nothing : before = [] := by simpa using single
    simpa [nothing] using whole

end Posted

end SmartPay
