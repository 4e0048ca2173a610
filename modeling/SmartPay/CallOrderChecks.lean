import SmartPay.ChunkedChecks

/-!
The order of the calls. Whatever bytes a client sends, in whatever rounds of the daemon, and
whatever the access handler answers, it is called once before the upload, then with parts of
the upload that are not empty, and then for the last time, again in every round until it
has answered.
-/

namespace SmartPay

open CLib

/-- The handler with the calls it has got and its answers. -/
def recorded {ε σ : Type} (handler : AccessHandler ε σ) :
    AccessHandler ε (σ × List (Call × Answer)) :=
  fun url method call context => do
    let result ← handler url method call context.1
    .ok {
      answer := result.answer
      uploadDataSize := result.uploadDataSize
      context := (result.context, context.2 ++ [(call, result.answer)]) }

def UploadCalls (calls : List Call) : Prop :=
  ∃ pieces : List (List UInt8), (∀ piece ∈ pieces, piece ≠ []) ∧
    calls = .first :: pieces.map .data

/-- The calls for one request. -/
def RequestCalls (calls : List Call) : Prop :=
  ∃ upload lasts, UploadCalls upload ∧ calls = upload ++ List.replicate lasts .last

def AllYes (made : List (Call × Answer)) : Prop := ∀ call ∈ made, call.2 = .yes

/-- What the documentation of the access handler promises for one request. Behind an answer other
than `MHD_YES` there is no call. -/
structure Orderly (made : List (Call × Answer)) : Prop where
  calls : made = [] ∨ RequestCalls (made.map Prod.fst)
  yes : AllYes made.dropLast

theorem UploadCalls.data {calls : List Call} {piece : List UInt8} (uploading : UploadCalls calls)
    (some : piece ≠ []) : UploadCalls (calls ++ [.data piece]) := by
  obtain ⟨pieces, nonempty, rfl⟩ := uploading
  refine ⟨pieces ++ [piece], ?_, by simp⟩
  intro other member
  rcases List.mem_append.mp member with before | last
  · exact nonempty other before
  · rw [List.mem_singleton.mp last]
    exact some

theorem UploadCalls.request {calls : List Call} (uploading : UploadCalls calls) :
    RequestCalls calls :=
  ⟨calls, 0, uploading, by simp⟩

theorem RequestCalls.last {calls : List Call} (request : RequestCalls calls) :
    RequestCalls (calls ++ [.last]) := by
  obtain ⟨upload, lasts, uploading, rfl⟩ := request
  refine ⟨upload, lasts + 1, uploading, ?_⟩
  rw [List.replicate_succ', List.append_assoc]

section AllYes

variable {made : List (Call × Answer)} {call : Call} {answer : Answer}

theorem AllYes.nil : AllYes [] := by simp [AllYes]

theorem AllYes.concat (all : AllYes made) (yes : answer = .yes) :
    AllYes (made ++ [(call, answer)]) := by
  intro other member
  rcases List.mem_append.mp member with before | last
  · exact all other before
  · rw [List.mem_singleton.mp last]
    exact yes

theorem AllYes.dropLast (all : AllYes made) : AllYes made.dropLast :=
  fun other member => all other (List.dropLast_subset made member)

end AllYes

namespace MhdConnection

/-- Before the first call, during the upload, and at the last call. The connection makes another
call only as long as it has no reply. -/
structure InOrder (c : MhdConnection) (made : List (Call × Answer)) : Prop where
  head : 6 ≤ c.state.rank → made = [] ∧ c.response = none
  body : 2 ≤ c.state.rank → c.state.rank < 6 → UploadCalls (made.map Prod.fst)
  last : c.state.rank = 1 → RequestCalls (made.map Prod.fst)
  unanswered : 1 ≤ c.state.rank → c.response = none → AllYes made
  all : Orderly made

variable {ε σ : Type} {handler : AccessHandler ε σ} {c next : MhdConnection} {context after : σ}
  {made later : List (Call × Answer)} {again : Bool}

theorem InOrder.ended (zero : c.state.rank = 0) (all : Orderly made) : InOrder c made :=
  ⟨fun _ => by omega, fun _ _ => by omega, fun _ => by omega, fun _ => by omega, all⟩

theorem InOrder.uploading (lower : c.state.rank < 6) (uploading : UploadCalls (made.map Prod.fst))
    (yes : AllYes made.dropLast)
    (unanswered : 1 ≤ c.state.rank → c.response = none → AllYes made) : InOrder c made :=
  ⟨fun _ => by omega, fun _ _ => uploading, fun _ => uploading.request, unanswered,
    Or.inr uploading.request, yes⟩

/-! Steps without a call. -/

/-- The connection is given up, or goes to one of these states with its reply as it was. -/
def Moves (c : MhdConnection) (states : List MhdState) (next : MhdConnection) : Prop :=
  next.state.rank = 0 ∨ (next.state ∈ c.state :: states ∧ next.response = c.response)

theorem InOrder.moves {states : List MhdState} (holds : InOrder c made)
    (inside : 2 ≤ c.state.rank) (side : ∀ state ∈ states, 6 ≤ state.rank ↔ 6 ≤ c.state.rank)
    (moves : Moves c states next) : InOrder next made := by
  rcases moves with zero | ⟨member, response⟩
  · exact .ended zero holds.all
  · have same : 6 ≤ next.state.rank ↔ 6 ≤ c.state.rank := by
      rcases List.mem_cons.mp member with equal | other
      · rw [equal]
      · exact side _ other
    have unanswered : next.response = none → AllYes made :=
      fun none => holds.unanswered (by omega) (response.symm.trans none)
    by_cases head : 6 ≤ next.state.rank
    · obtain ⟨none, unqueued⟩ := holds.head (same.mp head)
      exact ⟨fun _ => ⟨none, response.trans unqueued⟩, fun _ _ => by omega, fun _ => by omega,
        fun _ => unanswered, holds.all⟩
    · have lower : c.state.rank < 6 := Nat.lt_of_not_le (mt same.mpr head)
      exact .uploading (by omega) (holds.body inside lower) holds.all.yes fun _ => unanswered

theorem waitLine_moves (c first : MhdConnection) (states : List MhdState)
    (state : first.state = c.state) (response : first.response = c.response) :
    Moves c states first.waitLine.2 := by
  rw [waitLine]
  split
  · exact Or.inl rfl
  · exact Or.inr ⟨by simp [state], response⟩

theorem initStep_moves (c : MhdConnection) : Moves c [.urlReceived] c.initStep.2 := by
  rw [initStep]
  split
  · exact waitLine_moves c c _ rfl rfl
  · dsimp only
    split
    · exact waitLine_moves c _ _ rfl rfl
    · split
      · exact Or.inl rfl
      · exact Or.inr ⟨by simp, rfl⟩

theorem firstLineStep_moves (c : MhdConnection) (empty other : MhdState) :
    Moves c [empty, other] (c.firstLineStep empty other).2 := by
  rw [firstLineStep]
  split
  · exact waitLine_moves c c _ rfl rfl
  · dsimp only
    split
    · exact Or.inr ⟨by simp, rfl⟩
    · split
      · exact Or.inl rfl
      · exact Or.inr ⟨by simp, rfl⟩

theorem processBrokenLine_cases {line : List UInt8} {kind : MhdValueKind}
    (done : c.processBrokenLine line kind = (again, next)) :
    again = false ∧ next.state.rank = 0 ∨
      again = true ∧ next.state = c.state ∧ next.response = c.response := by
  rw [processBrokenLine] at done
  split at done
  · cases done
    exact Or.inr ⟨rfl, rfl, rfl⟩
  · dsimp only at done
    split at done
    · cases done
      exact Or.inr ⟨rfl, rfl, rfl⟩
    · split at done
      · cases done
        exact Or.inl ⟨rfl, rfl⟩
      · cases done
        exact Or.inr ⟨rfl, rfl, rfl⟩

theorem laterLineStep_moves (c : MhdConnection) (kind : MhdValueKind) (empty : MhdState) :
    Moves c [empty] (c.laterLineStep kind empty).2 := by
  rw [laterLineStep]
  split
  · exact waitLine_moves c c _ rfl rfl
  · rename_i line rest found
    split
    · rename_i broken
      rcases processBrokenLine_cases broken with ⟨_, zero⟩ | ⟨impossible, _⟩
      · exact Or.inl zero
      · cases impossible
    · rename_i broken
      rcases processBrokenLine_cases broken with ⟨impossible, _⟩ | ⟨_, state, response⟩
      · cases impossible
      · dsimp only
        split
        · exact Or.inr ⟨by simp, response⟩
        · exact Or.inr ⟨by simp [state], response⟩

theorem headersReceivedStep_moves (c : MhdConnection) :
    Moves c [.headersProcessed] c.headersReceivedStep.2 := by
  have response : c.parseConnectionHeaders.response = c.response ∨
      c.parseConnectionHeaders.state = .closed := by
    rw [parseConnectionHeaders]
    split
    · exact Or.inl rfl
    · split
      · exact Or.inl rfl
      · split
        · exact Or.inl rfl
        · exact Or.inr rfl
  simp only [headersReceivedStep]
  split
  · rename_i closed
    left
    rw [closed]
    rfl
  · rename_i going
    exact Or.inr ⟨by simp, response.resolve_right going⟩

/-! The upload. -/

theorem deliver_recorded {toBeProcessed : Nat} {instantRetry : Bool}
    (sent : c.state = .continueSent)
    (done : deliver (recorded handler) toBeProcessed instantRetry (c, context, made) =
      .ok (again, next, after, later)) :
    ∃ answer, later = made ++ [(.data (c.readBuffer.take toBeProcessed), answer)] ∧
      (next.state ≠ .closed → answer = .yes) ∧
      (again = true → instantRetry = true ∧ next.readBuffer = c.readBuffer.drop toBeProcessed) := by
  obtain ⟨⟨answer, size, first, calls⟩, called, done⟩ := bind_eq_ok.mp done
  have calledBack : calls = made ++ [(.data (c.readBuffer.take toBeProcessed), answer)] := by
    simp only [recorded] at called
    cases answered : handler c.url c.method (.data (c.readBuffer.take toBeProcessed)) context with
    | error fault =>
        rw [answered] at called
        cases called
    | ok inner =>
        rw [answered] at called
        cases called
        rfl
  have buffer := takeAnswer_readBuffer c answer
  split at done
  · rename_i closed
    cases done
    exact ⟨answer, calledBack, fun going => absurd closed going, by simp⟩
  · rename_i going
    have yes : answer = .yes := by
      rcases takeAnswer_state sent answer with ⟨_, yes⟩ | ⟨closed, _⟩
      · exact yes
      · exact absurd closed going
    split at done
    · cases done
    · cases done
      refine ⟨answer, calledBack, fun _ => yes, fun more => ?_⟩
      simp only [Bool.and_eq_true, beq_iff_eq] at more
      refine ⟨more.1, ?_⟩
      simp only [bytesProcessed, buffer, more.2, Nat.sub_zero]

theorem take_nonempty {buffer : List UInt8} {n : Nat} (positive : 0 < n) (some : buffer ≠ []) :
    buffer.take n ≠ [] := by
  rw [ne_eq, List.take_eq_nil_iff]
  rintro (zero | empty)
  · omega
  · exact some empty

/-- Before a round of the upload there is something to deliver. -/
structure Delivering (c : MhdConnection) (made : List (Call × Answer)) : Prop where
  sent : c.state = .continueSent
  calls : UploadCalls (made.map Prod.fst)
  yes : AllYes made
  some : c.readBuffer ≠ []

/-- Behind it the connection is given up, or may make another call. -/
structure Delivered (c : MhdConnection) (made : List (Call × Answer)) : Prop where
  calls : UploadCalls (made.map Prod.fst)
  order : AllYes made.dropLast
  yes : c.state ≠ .closed → AllYes made

theorem Delivered.of_uploading (calls : UploadCalls (made.map Prod.fst)) (yes : AllYes made) :
    Delivered next made :=
  ⟨calls, yes.dropLast, fun _ => yes⟩

/-- A piece that is not empty. -/
theorem deliver_delivered {toBeProcessed : Nat} {instantRetry : Bool}
    (sent : c.state = .continueSent) (calls : UploadCalls (made.map Prod.fst)) (yes : AllYes made)
    (some : c.readBuffer.take toBeProcessed ≠ [])
    (done : deliver (recorded handler) toBeProcessed instantRetry (c, context, made) =
      .ok (again, next, after, later)) :
    Delivered next later ∧
      (again = true → instantRetry = true ∧ next.readBuffer = c.readBuffer.drop toBeProcessed) := by
  obtain ⟨answer, rfl, going, more⟩ := deliver_recorded sent done
  refine ⟨⟨?_, ?_, fun alive => yes.concat (going alive)⟩, more⟩
  · rw [List.map_append]
    exact calls.data some
  · rwa [List.dropLast_concat]

/-- A piece with no further round at once behind it. -/
theorem deliver_once {toBeProcessed : Nat} (sent : c.state = .continueSent)
    (calls : UploadCalls (made.map Prod.fst)) (yes : AllYes made)
    (some : c.readBuffer.take toBeProcessed ≠ [])
    (done : deliver (recorded handler) toBeProcessed false (c, context, made) =
      .ok (again, next, after, later)) :
    Delivered next later ∧ (again = true → next.readBuffer ≠ []) := by
  obtain ⟨delivered, more⟩ := deliver_delivered sent calls yes some done
  refine ⟨delivered, fun retry => ?_⟩
  cases (more retry).1

theorem readChunkSize_more (more : c.readChunkSize.1 = true) :
    c.readChunkSize.2.readBuffer ≠ [] := by
  rw [readChunkSize] at more ⊢
  split at more
  · cases more
  · cases more
  · rename_i size rest read
    dsimp only at more ⊢
    split at more
    · cases more
    · rename_i positive
      rw [if_neg positive]
      simpa using more

theorem chunkStep_recorded (sent : c.state = .continueSent)
    (calls : UploadCalls (made.map Prod.fst)) (yes : AllYes made)
    (some : c.currentChunkOffset < c.currentChunkSize → c.readBuffer ≠ [])
    (done : chunkStep (recorded handler) (c, context, made) = .ok (again, next, after, later)) :
    Delivered next later ∧ (again = true → next.readBuffer ≠ []) := by
  simp only [chunkStep] at done
  split at done
  · rename_i inside
    have nonempty := some inside
    have positive := List.length_pos_iff.mpr nonempty
    split at done
    · exact deliver_once sent calls yes (take_nonempty positive nonempty) done
    · rename_i enough
      obtain ⟨delivered, more⟩ :=
        deliver_delivered sent calls yes (take_nonempty (by omega) nonempty) done
      refine ⟨delivered, fun retry => ?_⟩
      obtain ⟨less, rest⟩ := more retry
      rw [rest]
      apply List.ne_nil_of_length_pos
      simp only [decide_eq_true_eq] at less
      rw [List.length_drop]
      omega
  · cases done
    exact ⟨.of_uploading calls yes, readChunkSize_more⟩

theorem bodyStep_recorded (delivering : Delivering c made)
    (done : bodyStep (recorded handler) (c, context, made) = .ok (again, next, after, later)) :
    Delivered next later ∧ (again = true → next.readBuffer ≠ []) := by
  obtain ⟨sent, calls, yes, some⟩ := delivering
  have positive := List.length_pos_iff.mpr some
  simp only [bodyStep] at done
  split at done
  · split at done
    · cases done
      exact ⟨.of_uploading calls yes, by simp⟩
    · rename_i middle skipped
      refine chunkStep_recorded ((skipChunkEnd_frame skipped).1.trans sent) calls yes
        (fun inside => ?_) done
      -- a line end is skipped only behind a chunk, and then there is none to go on with
      rw [skipChunkEnd] at skipped
      split at skipped
      · split at skipped
        · cases skipped
          simp at inside
        · cases skipped
      · cases skipped
        exact some
  · split at done
    · rename_i known
      exact deliver_once sent calls yes (take_nonempty (by omega) some) done
    · exact deliver_once sent calls yes (take_nonempty positive some) done

theorem processRequestBody_recorded (delivering : Delivering c made)
    (done : processRequestBody (recorded handler) (c, context, made) = .ok (next, after, later)) :
    Delivered next later := by
  rw [processRequestBody] at done
  split at done
  · cases done
    exact .of_uploading delivering.calls delivering.yes
  · let during (state : MhdConnection × σ × List (Call × Answer)) : Prop :=
      Delivering state.1 state.2.2
    let final (state : MhdConnection × σ × List (Call × Answer)) : Prop :=
      Delivered state.1 state.2.2
    refine @loop_rule _ _ _ _ _ (next, after, later) during final ?_ ?_
      (bodyStep_decreases (recorded handler)) delivering done
    · rintro ⟨first, before, calls⟩ ⟨second, behind, more⟩ holds stepped
      obtain ⟨delivered, some⟩ := bodyStep_recorded holds stepped
      have sent : second.state = .continueSent := by
        rcases (bodyStep_round stepped).state holds.sent with same | ⟨_, impossible⟩
        · exact same
        · cases impossible
      exact ⟨sent, delivered.calls, delivered.yes (by simp [sent]), some rfl⟩
    · rintro ⟨first, before, calls⟩ ⟨second, behind, more⟩ holds stepped
      exact (bodyStep_recorded holds stepped).1

/-! The steps with a call, and the whole run. -/

/-- A reply ends the calls, and another answer than `MHD_YES` the connection. -/
theorem takeAnswer_answered (c : MhdConnection) (answer : Answer) :
    (c.takeAnswer answer).state = .closed ∨ (c.takeAnswer answer).response ≠ none ∨
      answer = .yes := by
  cases answer with
  | yes => exact Or.inr (Or.inr rfl)
  | no => exact Or.inl rfl
  | reply json =>
      simp only [takeAnswer, queueResponse]
      split
      · exact Or.inl rfl
      · split <;> exact Or.inr (Or.inl (by simp))

theorem callConnectionHandler_recorded {call : Call} (unqueued : c.response = none)
    (done : callConnectionHandler (recorded handler) call (c, context, made) =
      .ok (next, after, later)) :
    ∃ answer, later = made ++ [(call, answer)] ∧ next = c.takeAnswer answer ∧
      (next.state = .closed ∨ next.response ≠ none ∨ answer = .yes) := by
  simp only [callConnectionHandler, unqueued, Option.isSome_none, Bool.false_eq_true, if_false]
    at done
  obtain ⟨result, called, done⟩ := bind_eq_ok.mp done
  cases answered : handler c.url c.method call context with
  | error fault =>
      simp only [recorded, answered] at called
      cases called
  | ok inner =>
      simp only [recorded, answered] at called
      cases called
      cases done
      exact ⟨inner.answer, rfl, rfl, takeAnswer_answered c inner.answer⟩

theorem firstCallDone_rank (c : MhdConnection) : c.firstCallDone.2.state.rank < 6 := by
  rw [firstCallDone]
  split
  · rename_i closed
    simp only [closed, MhdState.rank]
    omega
  · split
    · simp only [MhdState.rank]
      omega
    · dsimp only
      generalize (if c.response.isSome ∧ c.isUpload then _ else c : MhdConnection) = held
      split <;> simp only [MhdState.rank] <;> omega

theorem firstCallDone_going (alive : 1 ≤ c.firstCallDone.2.state.rank)
    (unqueued : c.firstCallDone.2.response = none) : c.state ≠ .closed ∧ c.response = none := by
  rw [firstCallDone] at alive unqueued
  split at alive
  · rename_i closed
    simp only [closed, MhdState.rank] at alive
    omega
  · rename_i going
    refine ⟨going, ?_⟩
    rw [if_neg going] at unqueued
    split at unqueued
    · exact unqueued
    · dsimp only at unqueued
      split at unqueued <;> exact unqueued

/-- The last call is made again, or the connection has done with the request. -/
theorem lastCallDone_cases (c : MhdConnection) :
    c.lastCallDone.2.state.rank = 0 ∨
      c.lastCallDone.2 = c ∧ c.state ≠ .closed ∧ c.response = none := by
  rw [lastCallDone]
  split
  · rename_i closed
    left
    rw [closed]
    rfl
  · rename_i going
    split
    · rename_i none
      exact Or.inr ⟨rfl, going, by simpa using none⟩
    · exact Or.inl rfl

theorem takeAnswer_rank (state : c.state = .footersReceived) (answer : Answer) :
    (c.takeAnswer answer).state.rank ≤ 1 := by
  cases answer with
  | yes =>
      simp only [takeAnswer, state]
      decide
  | no => simp [takeAnswer, closeError, MhdState.rank]
  | reply json =>
      simp only [takeAnswer, queueResponse, state]
      by_cases some : c.response.isSome
      · simp [some, closeError, MhdState.rank]
      · simp [some, state, MhdState.rank]

theorem bodyProcessed_going (alive : 1 ≤ c.bodyProcessed.2.state.rank) :
    c.state ≠ .closed ∧ c.bodyProcessed.2.response = c.response := by
  rw [bodyProcessed] at alive ⊢
  split at alive
  · rename_i closed
    simp only [closed, MhdState.rank] at alive
    omega
  · rename_i going
    refine ⟨going, ?_⟩
    rw [if_neg going]
    split <;> rfl

theorem bodyProcessed_rank (state : c.state = .continueSent ∨ c.state = .closed) :
    c.bodyProcessed.2.state.rank < 6 := by
  have low : c.state.rank < 6 := by
    rcases state with sent | closed
    · rw [sent]
      decide
    · rw [closed]
      decide
  rw [bodyProcessed]
  split
  · exact low
  · split
    · dsimp only
      split <;> simp only [MhdState.rank] <;> omega
    · exact low

/-- A round of `MHD_connection_handle_idle`. -/
theorem idleStep_recorded (holds : InOrder c made)
    (done : idleStep (recorded handler) (c, context, made) = .ok (again, next, after, later)) :
    InOrder next later := by
  cases state : c.state with
  | init =>
      simp only [idleStep, state] at done
      cases done
      exact holds.moves (by rw [state]; decide) (by rw [state]; decide) (initStep_moves c)
  | urlReceived =>
      simp only [idleStep, state] at done
      cases done
      exact holds.moves (by rw [state]; decide) (by rw [state]; decide) (firstLineStep_moves c _ _)
  | headerPartReceived =>
      simp only [idleStep, state] at done
      cases done
      exact holds.moves (by rw [state]; decide) (by rw [state]; decide) (laterLineStep_moves c _ _)
  | headersReceived =>
      simp only [idleStep, state] at done
      cases done
      exact holds.moves (by rw [state]; decide) (by rw [state]; decide) (headersReceivedStep_moves c)
  | headersProcessed =>
      simp only [idleStep, state] at done
      obtain ⟨⟨middle, between, calls⟩, called, done⟩ := bind_eq_ok.mp done
      obtain ⟨rfl, unqueued⟩ := holds.head (by rw [state]; decide)
      obtain ⟨answer, rfl, _, answered⟩ :=
        callConnectionHandler_recorded unqueued called
      cases done
      refine .uploading (firstCallDone_rank middle) ⟨[], by simp, rfl⟩ .nil fun alive none => ?_
      obtain ⟨going, unanswered⟩ := firstCallDone_going alive none
      rcases answered with closed | queued | yes
      · exact absurd closed going
      · exact absurd unanswered queued
      · exact AllYes.nil.concat yes
  | continueSending =>
      simp only [idleStep, state] at done
      cases done
      exact .uploading (by simp only [MhdState.rank]; omega)
        (holds.body (by rw [state]; decide) (by rw [state]; decide)) holds.all.yes
        fun _ none => holds.unanswered (by rw [state]; decide) none
  | continueSent =>
      simp only [idleStep, state] at done
      obtain ⟨⟨middle, between, calls⟩, processed, done⟩ := bind_eq_ok.mp done
      have uploading := holds.body (by rw [state]; decide) (by rw [state]; decide)
      have yes := holds.unanswered (by rw [state]; decide)
      cases done
      by_cases used : c.readBuffer = [] ∨ c.response ≠ none
      · -- nothing is processed: there is nothing, or the reply is there already
        have same : middle = c ∧ later = made := by
          split at processed
          · cases processed
            exact ⟨rfl, rfl⟩
          · rename_i some
            have queued := Option.isSome_iff_ne_none.mpr (used.resolve_left some)
            simp only [processRequestBody, queued, if_true] at processed
            cases processed
            exact ⟨rfl, rfl⟩
        obtain ⟨rfl, rfl⟩ := same
        refine .uploading (bodyProcessed_rank (Or.inl state)) uploading holds.all.yes
          fun alive none => yes ?_
        rwa [(bodyProcessed_going alive).2] at none
      · obtain ⟨some, unqueued⟩ := not_or.mp used
        rw [if_neg some] at processed
        have frame := processRequestBody_frame state processed
        have delivered := processRequestBody_recorded
          ⟨state, uploading, yes (not_not.mp unqueued), some⟩ processed
        exact .uploading (bodyProcessed_rank frame.1) delivered.calls delivered.order
          fun alive _ => delivered.yes (bodyProcessed_going alive).1
  | bodyReceived =>
      simp only [idleStep, state] at done
      cases done
      exact holds.moves (by rw [state]; decide) (by rw [state]; decide) (firstLineStep_moves c _ _)
  | footerPartReceived =>
      simp only [idleStep, state] at done
      cases done
      exact holds.moves (by rw [state]; decide) (by rw [state]; decide) (laterLineStep_moves c _ _)
  | footersReceived =>
      simp only [idleStep, state] at done
      obtain ⟨⟨middle, between, calls⟩, called, done⟩ := bind_eq_ok.mp done
      have request := holds.last (by rw [state]; rfl)
      cases done
      by_cases unqueued : c.response = none
      · have yes := holds.unanswered (by rw [state]; decide) unqueued
        obtain ⟨answer, rfl, rfl, answered⟩ :=
          callConnectionHandler_recorded unqueued called
        have requested : RequestCalls ((made ++ [(Call.last, answer)]).map Prod.fst) := by
          rw [List.map_append]
          exact request.last
        have all : Orderly (made ++ [(Call.last, answer)]) := by
          refine ⟨Or.inr requested, ?_⟩
          rwa [List.dropLast_concat]
        have low := takeAnswer_rank state answer
        rcases lastCallDone_cases (c.takeAnswer answer) with zero | ⟨same, going, none⟩
        · exact .ended zero all
        · have yesToo : answer = .yes :=
            (answered.resolve_left going).resolve_left (not_not.mpr none)
          change InOrder (c.takeAnswer answer).lastCallDone.2 _
          rw [same]
          exact ⟨fun _ => by omega, fun _ _ => by omega, fun _ => requested,
            fun _ _ => yes.concat yesToo, all⟩
      · -- the reply is there already, and the last call is left out
        have queued := Option.isSome_iff_ne_none.mpr unqueued
        simp only [callConnectionHandler, queued, if_true] at called
        cases called
        rcases lastCallDone_cases c with zero | ⟨_, _, none⟩
        · exact .ended zero holds.all
        · exact absurd none unqueued
  | headersSending =>
      simp only [idleStep, state] at done
      cases done
      exact holds
  | closed =>
      simp only [idleStep, state] at done
      cases done
      exact holds

theorem handleIdle_recorded (holds : InOrder c made)
    (done : handleIdle (recorded handler) (c, context, made) = .ok (next, after, later)) :
    InOrder next later := by
  let during (state : MhdConnection × σ × List (Call × Answer)) : Prop := InOrder state.1 state.2.2
  refine @loop_rule _ _ _ _ _ (next, after, later) during during ?_ ?_
    (idleStep_decreases (recorded handler)) holds done
  · rintro ⟨first, before, calls⟩ ⟨second, behind, more⟩ holds stepped
    exact idleStep_recorded holds stepped
  · rintro ⟨first, before, calls⟩ ⟨second, behind, more⟩ holds stepped
    exact idleStep_recorded holds stepped

theorem InOrder.handleRead {bytesRead : List UInt8} (holds : InOrder c made)
    (some : bytesRead ≠ []) : InOrder (c.handleRead bytesRead) made := by
  rw [MhdConnection.handleRead, if_neg some]
  split
  · exact holds
  · exact ⟨holds.head, holds.body, holds.last, holds.unanswered, holds.all⟩

theorem receive_recorded (reads : List (List UInt8)) :
    ∀ {c : MhdConnection} {context : σ} {made : List (Call × Answer)} {left : List (List UInt8)},
      InOrder c made →
      receive (recorded handler) reads (c, context, made) = .ok ((next, after, later), left) →
      InOrder next later := by
  induction reads with
  | nil =>
      intro c context made left holds done
      cases done
      exact holds
  | cons bytesRead rest ih =>
      intro c context made left holds done
      rw [receive] at done
      split at done
      · cases done
        exact holds
      split at done
      · obtain ⟨⟨middle, between, calls⟩, idle, done⟩ := bind_eq_ok.mp done
        exact ih (handleIdle_recorded holds idle) done
      · rename_i some
        split at done
        · obtain ⟨⟨middle, between, calls⟩, idle, done⟩ := bind_eq_ok.mp done
          exact ih (handleIdle_recorded (holds.handleRead some) idle) done
        · cases done
          exact holds

/-- A client that closes the connection gets no call made. -/
theorem hangUp_silent (handler : AccessHandler ε σ) (c : MhdConnection) (context : σ) :
    ∃ last, hangUp handler (c, context) = .ok (last, context) := by
  simp only [hangUp]
  split
  · rename_i wants
    have alive : c.state ≠ .closed := by
      intro closed
      simp [wantsRead, closed] at wants
    simp only [handleRead, if_neg alive, if_true]
    exact ⟨_, loop_stop rfl⟩
  · exact ⟨c, rfl⟩

/-! Recording changes nothing else in a run. -/

def forget (state : MhdConnection × σ × List (Call × Answer)) : MhdConnection × σ :=
  (state.1, state.2.1)

def forgetRound (round : Bool × MhdConnection × σ × List (Call × Answer)) :
    Bool × MhdConnection × σ :=
  (round.1, forget round.2)

theorem recorded_forget (handler : AccessHandler ε σ) (url method : Text) (call : Call)
    (context : σ) (made : List (Call × Answer)) :
    (orHalt (recorded handler url method call (context, made))).map
        (fun result => (⟨result.answer, result.uploadDataSize, result.context.1⟩ :
          HandlerReturn σ)) =
      orHalt (handler url method call context) := by
  cases answered : handler url method call context with
  | error fault => simp [recorded, answered, orHalt, bind, Except.bind, Except.map]
  | ok result => simp [recorded, answered, orHalt, bind, Except.bind, Except.map]

theorem callConnectionHandler_forget (handler : AccessHandler ε σ) (call : Call)
    (c : MhdConnection) (context : σ) (made : List (Call × Answer)) :
    (callConnectionHandler (recorded handler) call (c, context, made)).map forget =
      callConnectionHandler handler call (c, context) := by
  simp only [callConnectionHandler]
  by_cases queued : c.response.isSome
  · rw [if_pos queued, if_pos queued]
    rfl
  · rw [if_neg queued, if_neg queued, ← recorded_forget handler _ _ _ context made]
    exact bind_map forget _ fun result => rfl

theorem deliver_forget (handler : AccessHandler ε σ) (toBeProcessed : Nat) (instantRetry : Bool)
    (c : MhdConnection) (context : σ) (made : List (Call × Answer)) :
    (deliver (recorded handler) toBeProcessed instantRetry (c, context, made)).map forgetRound =
      deliver handler toBeProcessed instantRetry (c, context) := by
  simp only [deliver]
  rw [← recorded_forget handler _ _ _ context made]
  refine bind_map forgetRound _ fun result => ?_
  by_cases closed : (c.takeAnswer result.answer).state = .closed
  · rw [if_pos closed, if_pos closed]
    rfl
  · rw [if_neg closed, if_neg closed]
    by_cases more : toBeProcessed < result.uploadDataSize
    · rw [if_pos more, if_pos more]
      rfl
    · rw [if_neg more, if_neg more]
      rfl

theorem chunkStep_forget (handler : AccessHandler ε σ) (c : MhdConnection) (context : σ)
    (made : List (Call × Answer)) :
    (chunkStep (recorded handler) (c, context, made)).map forgetRound =
      chunkStep handler (c, context) := by
  simp only [chunkStep]
  by_cases inside : c.currentChunkOffset < c.currentChunkSize
  · rw [if_pos inside, if_pos inside]
    split <;> exact deliver_forget handler _ _ c context made
  · rw [if_neg inside, if_neg inside]
    rfl

theorem bodyStep_forget (handler : AccessHandler ε σ) (c : MhdConnection) (context : σ)
    (made : List (Call × Answer)) :
    (bodyStep (recorded handler) (c, context, made)).map forgetRound =
      bodyStep handler (c, context) := by
  simp only [bodyStep]
  by_cases chunked : c.haveChunkedUpload ∧ c.remainingUploadSize = mhdSizeUnknown
  · rw [if_pos chunked, if_pos chunked]
    cases c.skipChunkEnd with
    | none => rfl
    | some skipped => exact chunkStep_forget handler skipped context made
  · rw [if_neg chunked, if_neg chunked]
    split <;> exact deliver_forget handler _ _ c context made

theorem processRequestBody_forget (handler : AccessHandler ε σ) (c : MhdConnection) (context : σ)
    (made : List (Call × Answer)) :
    (processRequestBody (recorded handler) (c, context, made)).map forget =
      processRequestBody handler (c, context) := by
  simp only [processRequestBody]
  by_cases queued : c.response.isSome
  · rw [if_pos queued, if_pos queued]
    rfl
  · rw [if_neg queued, if_neg queued]
    exact loop_map bodySize forget
      (fun state => bodyStep_forget handler state.1 state.2.1 state.2.2) (fun _ => rfl)
      (c, context, made)

theorem idleStep_forget (handler : AccessHandler ε σ) (c : MhdConnection) (context : σ)
    (made : List (Call × Answer)) :
    (idleStep (recorded handler) (c, context, made)).map forgetRound =
      idleStep handler (c, context) := by
  have ends (move : MhdConnection → Bool × MhdConnection)
      {run : Except (Halt ε) (MhdConnection × σ × List (Call × Answer))} :
      (run >>= fun state => withContext state.2 (move state.1)).map forgetRound =
        run.map forget >>= fun state => withContext state.2 (move state.1) :=
    bind_map forgetRound forget fun _ => rfl
  cases state : c.state with
  | headersProcessed =>
      simp only [idleStep, state]
      rw [ends firstCallDone, callConnectionHandler_forget]
  | continueSent =>
      simp only [idleStep, state]
      rw [ends bodyProcessed]
      by_cases empty : c.readBuffer = []
      · rw [if_pos empty, if_pos empty]
        rfl
      · rw [if_neg empty, if_neg empty, processRequestBody_forget]
  | footersReceived =>
      simp only [idleStep, state]
      rw [ends lastCallDone, callConnectionHandler_forget]
  | init | urlReceived | headerPartReceived | headersReceived | continueSending | bodyReceived
  | footerPartReceived | headersSending | closed =>
      simp only [idleStep, state]
      rfl

theorem receive_forget (handler : AccessHandler ε σ) (reads : List (List UInt8)) :
    ∀ (c : MhdConnection) (context : σ) (made : List (Call × Answer)),
      (receive (recorded handler) reads (c, context, made)).map
          (fun result => (forget result.1, result.2)) =
        receive handler reads (c, context) := by
  induction reads with
  | nil =>
      intro c context made
      rfl
  | cons bytesRead rest ih =>
      intro c context made
      have idle (c : MhdConnection) :
          (handleIdle (recorded handler) (c, context, made)).map forget =
            handleIdle handler (c, context) :=
        loop_map idleSize forget
          (fun state => idleStep_forget handler state.1 state.2.1 state.2.2) (fun _ => rfl)
          (c, context, made)
      simp only [receive]
      by_cases ended : c.ended = true
      · rw [if_pos ended, if_pos ended]
        rfl
      rw [if_neg ended, if_neg ended]
      by_cases empty : bytesRead = []
      · rw [if_pos empty, if_pos empty, ← idle]
        exact bind_map _ forget fun next => ih next.1 next.2.1 next.2.2
      rw [if_neg empty, if_neg empty]
      by_cases wants : c.wantsRead
      · rw [if_pos wants, if_pos wants, ← idle]
        exact bind_map _ forget fun next => ih next.1 next.2.1 next.2.2
      · rw [if_neg wants, if_neg wants]
        rfl

/-- A handler that does not reply before its seventh call. -/
def replyLate : AccessHandler Unit Nat := fun _ _ _ context =>
  .ok {
    answer := if context < 6 then .yes else .reply (lit "ok")
    uploadDataSize := 0
    context := context + 1 }

/-- An upload in two reads, and the rounds of the daemon in which the last call is made again. -/
def waitingReads : List (List UInt8) :=
  [(lit "POST / HTTP/1.1\r\nContent-Length: 2\r\n\r\na").bytes, [], (lit "b").bytes, [], [], [], []]

end MhdConnection

end SmartPay
