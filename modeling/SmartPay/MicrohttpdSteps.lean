import SmartPay.MicrohttpdCore

/-!
The two loops of a connection end: a round of `process_request_body` that asks for
another one has used bytes of the buffer, and a round of `MHD_connection_handle_idle`
has used a line or has passed on to a later state.
-/

namespace SmartPay

open CLib

theorem getNextHeaderLine_shorter {buffer line rest : List UInt8}
    (found : getNextHeaderLine buffer = some (line, rest)) : rest.length < buffer.length := by
  induction buffer generalizing line rest with
  | nil => cases found
  | cons c buffer ih =>
      cases buffer with
      | nil =>
          simp only [getNextHeaderLine] at found
          split at found
          · cases found
            simp
          · cases found
      | cons d after =>
          simp only [getNextHeaderLine] at found
          split at found
          · cases found
            split <;> simp only [List.length_cons] <;> omega
          · split at found
            · cases found
              simp
            · obtain ⟨⟨later, tail⟩, foundLater, same⟩ := Option.map_eq_some_iff.mp found
              cases same
              have shorter := ih foundLater
              simp only [List.length_cons] at shorter ⊢
              omega

namespace MhdConnection

variable {ε σ : Type} {handler : AccessHandler ε σ} {c : MhdConnection} {context : σ}

theorem takeAnswer_readBuffer (c : MhdConnection) (answer : Answer) :
    (c.takeAnswer answer).readBuffer = c.readBuffer := by
  cases answer with
  | yes => rfl
  | no => rfl
  | reply json =>
      simp only [takeAnswer, queueResponse]
      split
      · rfl
      · split <;> rfl

/-- Outside the first call and the last one, the library takes no reply. -/
theorem takeAnswer_state (sent : c.state = .continueSent) (answer : Answer) :
    c.takeAnswer answer = c ∧ answer = .yes ∨
      (c.takeAnswer answer).state = .closed ∧ answer ≠ .yes := by
  cases answer with
  | yes => exact Or.inl ⟨rfl, rfl⟩
  | no => exact Or.inr ⟨rfl, by simp⟩
  | reply json =>
      right
      have refused : c.queueResponse 200 json = none := by
        rw [queueResponse, if_pos]
        simp [sent]
      simp only [takeAnswer, refused, Option.getD_none]
      exact ⟨rfl, by simp⟩

/-- A round leaves the connection in its state or closes it, and takes bytes from the buffer if
another one follows. -/
structure Round (c : MhdConnection) (again : Bool) (next : MhdConnection) : Prop where
  state : c.state = .continueSent →
    next.state = .continueSent ∨ next.state = .closed ∧ again = false
  shorter : next.readBuffer.length ≤ c.readBuffer.length
  uses : again = true → next.readBuffer.length < c.readBuffer.length

theorem Round.behind {first second next : MhdConnection} {again : Bool}
    (state : second.state = first.state)
    (le : second.readBuffer.length ≤ first.readBuffer.length) (round : Round second again next) :
    Round first again next :=
  ⟨fun sent => round.state (state.trans sent), le_trans round.shorter le,
    fun more => lt_of_lt_of_le (round.uses more) le⟩

theorem deliver_round {toBeProcessed : Nat} {instantRetry again : Bool} {next : MhdConnection}
    {after : σ} (some : instantRetry = true → 0 < toBeProcessed ∧ 0 < c.readBuffer.length)
    (done : deliver handler toBeProcessed instantRetry (c, context) = .ok (again, next, after)) :
    Round c again next := by
  obtain ⟨result, _, done⟩ := bind_eq_ok.mp done
  have buffer := takeAnswer_readBuffer c result.answer
  split at done
  · rename_i closed
    cases done
    exact ⟨fun _ => Or.inr ⟨closed, rfl⟩, by rw [buffer], by simp⟩
  · rename_i open'
    split at done
    · cases done
    · cases done
      refine ⟨fun sent => ?_, by simp [bytesProcessed, buffer], ?_⟩
      · rcases takeAnswer_state sent result.answer with ⟨kept, _⟩ | ⟨closed, _⟩
        · exact Or.inl ((congrArg MhdConnection.state kept).trans sent)
        · exact absurd closed open'
      · intro more
        simp only [Bool.and_eq_true, beq_iff_eq] at more
        obtain ⟨positive, nonempty⟩ := some more.1
        simp only [bytesProcessed, buffer, List.length_drop]
        omega

theorem skipEol_length (buffer : List UInt8) : (skipEol buffer).length ≤ buffer.length := by
  rw [skipEol]
  split <;> simp

theorem skipChunkEnd_frame {next : MhdConnection} (done : c.skipChunkEnd = some next) :
    next.state = c.state ∧ next.readBuffer.length ≤ c.readBuffer.length := by
  rw [skipChunkEnd] at done
  split at done
  · split at done
    · cases done
      exact ⟨rfl, le_trans (skipEol_length _) (skipEol_length _)⟩
    · cases done
  · cases done
    exact ⟨rfl, le_refl _⟩

theorem sizeLine_shorter {buffer rest : List UInt8} {size : Option Nat}
    (read : sizeLine buffer = .read size rest) :
    rest.length ≤ buffer.length ∧ (rest ≠ [] → rest.length < buffer.length) := by
  rw [sizeLine] at read
  split at read
  · cases read
  · split at read
    · cases read
    · cases read
      have shorter := skipEol_length (buffer.drop (sizeLineEnd buffer + 1))
      rw [List.length_drop] at shorter
      refine ⟨by omega, fun some => ?_⟩
      have positive := List.length_pos_iff.mpr some
      omega

theorem readChunkSize_round (c : MhdConnection) :
    Round c c.readChunkSize.1 c.readChunkSize.2 := by
  rw [readChunkSize]
  split
  · exact ⟨Or.inl, le_refl _, by simp⟩
  · exact ⟨fun _ => Or.inr ⟨rfl, rfl⟩, le_refl _, by simp⟩
  · rename_i size rest read
    obtain ⟨shorter, uses⟩ := sizeLine_shorter read
    dsimp only
    split
    · exact ⟨Or.inl, shorter, by simp⟩
    · exact ⟨Or.inl, shorter, fun more => uses (by simpa using more)⟩

theorem chunkStep_round {again : Bool} {next : MhdConnection} {after : σ}
    (done : chunkStep handler (c, context) = .ok (again, next, after)) : Round c again next := by
  simp only [chunkStep] at done
  split at done
  · rename_i inside
    split at done
    · exact deliver_round (by simp) done
    · exact deliver_round (fun more => by simp at more; omega) done
  · cases done
    exact readChunkSize_round c

theorem bodyStep_round {again : Bool} {next : MhdConnection} {after : σ}
    (done : bodyStep handler (c, context) = .ok (again, next, after)) : Round c again next := by
  simp only [bodyStep] at done
  split at done
  · split at done
    · cases done
      exact ⟨fun _ => Or.inr ⟨rfl, rfl⟩, le_refl _, by simp⟩
    · rename_i middle skipped
      obtain ⟨state, shorter⟩ := skipChunkEnd_frame skipped
      exact (chunkStep_round done).behind state shorter
  · split at done <;> exact deliver_round (by simp) done

theorem bodyStep_decreases (handler : AccessHandler ε σ) :
    Decreases (bodyStep handler) bodySize := by
  intro state next stepped
  exact (bodyStep_round stepped).uses rfl

theorem processRequestBody_frame {next : MhdConnection} {after : σ}
    (sent : c.state = .continueSent)
    (done : processRequestBody handler (c, context) = .ok (next, after)) :
    (next.state = .continueSent ∨ next.state = .closed) ∧
      next.readBuffer.length ≤ c.readBuffer.length := by
  rw [processRequestBody] at done
  split at done
  · cases done
    exact ⟨Or.inl sent, le_refl _⟩
  · let during (state : MhdConnection × σ) : Prop :=
      state.1.state = .continueSent ∧ state.1.readBuffer.length ≤ c.readBuffer.length
    let final (state : MhdConnection × σ) : Prop :=
      (state.1.state = .continueSent ∨ state.1.state = .closed) ∧
        state.1.readBuffer.length ≤ c.readBuffer.length
    refine @loop_rule _ _ _ _ _ (next, after) during final ?_ ?_ (bodyStep_decreases handler)
      ⟨sent, le_refl _⟩ done
    · intro state middle ⟨sent, shorter⟩ stepped
      have round := bodyStep_round stepped
      refine ⟨?_, le_trans round.shorter shorter⟩
      rcases round.state sent with same | ⟨_, impossible⟩
      · exact same
      · cases impossible
    · intro state middle ⟨sent, shorter⟩ stepped
      have round := bodyStep_round stepped
      refine ⟨?_, le_trans round.shorter shorter⟩
      rcases round.state sent with same | ⟨closed, _⟩
      · exact Or.inl same
      · exact Or.inr closed

/-! `MHD_connection_handle_idle`. -/

/-- A step that asks for another one has come nearer to the end of the request. -/
def Advances (c : MhdConnection) (result : Bool × MhdConnection) : Prop :=
  result.1 = true →
    result.2.readBuffer.length + result.2.state.rank < c.readBuffer.length + c.state.rank

theorem advances_wait {c first : MhdConnection} (positive : 0 < c.state.rank)
    (shorter : first.readBuffer.length ≤ c.readBuffer.length) : Advances c first.waitLine := by
  rw [waitLine]
  split
  · intro _
    have zero : MhdState.closed.rank = 0 := rfl
    dsimp only [closeError]
    omega
  · intro more
    cases more

theorem initStep_advances (state : c.state = .init) : Advances c c.initStep := by
  have rank : c.state.rank = 10 := by rw [state]; rfl
  rw [initStep]
  split
  · exact advances_wait (by omega) (le_refl _)
  · rename_i line rest found
    have shorter := getNextHeaderLine_shorter found
    dsimp only
    split
    · exact advances_wait (by omega) shorter.le
    · split
      · intro _
        simp only [state, closeError, MhdState.rank]
        omega
      · intro _
        simp only [state, MhdState.rank]
        omega

theorem firstLineStep_advances {empty other : MhdState} (positive : 0 < c.state.rank)
    (emptyLess : empty.rank ≤ c.state.rank) (otherLess : other.rank ≤ c.state.rank) :
    Advances c (c.firstLineStep empty other) := by
  rw [firstLineStep]
  split
  · exact advances_wait positive (le_refl _)
  · rename_i line rest found
    have shorter := getNextHeaderLine_shorter found
    dsimp only
    split
    · intro _
      dsimp only
      omega
    · split
      · intro more
        cases more
      · intro _
        dsimp only
        omega

theorem processBrokenLine_frame (c : MhdConnection) (line : List UInt8) (kind : MhdValueKind) :
    (c.processBrokenLine line kind).2.readBuffer = c.readBuffer ∧
      ((c.processBrokenLine line kind).2.state = c.state ∨
        (c.processBrokenLine line kind).2.state = .headersSending) := by
  rw [processBrokenLine]
  split
  · exact ⟨rfl, Or.inl rfl⟩
  · dsimp only
    split
    · exact ⟨rfl, Or.inl rfl⟩
    · split
      · exact ⟨rfl, Or.inr rfl⟩
      · exact ⟨rfl, Or.inl rfl⟩

theorem laterLineStep_advances {kind : MhdValueKind} {empty : MhdState}
    (positive : 0 < c.state.rank) (emptyLess : empty.rank ≤ c.state.rank) :
    Advances c (c.laterLineStep kind empty) := by
  rw [laterLineStep]
  split
  · exact advances_wait positive (le_refl _)
  · rename_i line rest found
    have shorter := getNextHeaderLine_shorter found
    obtain ⟨buffer, state⟩ :=
      processBrokenLine_frame { c with readBuffer := rest } line kind
    have less : (processBrokenLine { c with readBuffer := rest } line kind).2.state.rank ≤
        c.state.rank := by
      rcases state with same | sending
      · rw [same]
      · rw [sending]
        simp only [MhdState.rank]
        omega
    split
    · rename_i next broken
      rw [broken] at buffer less
      intro _
      simp only at buffer less ⊢
      rw [buffer]
      omega
    · rename_i next broken
      rw [broken] at buffer less
      intro _
      simp only at buffer less ⊢
      split
      · simp only [buffer]
        omega
      · rw [buffer]
        omega

theorem headersReceivedStep_advances (state : c.state = .headersReceived) :
    Advances c c.headersReceivedStep := by
  have buffer : c.parseConnectionHeaders.readBuffer = c.readBuffer := by
    rw [parseConnectionHeaders]
    split
    · rfl
    · split
      · rfl
      · split <;> rfl
  intro _
  simp only [headersReceivedStep]
  split
  · rename_i closed
    simp only [state, buffer, closed, MhdState.rank]
    omega
  · simp only [state, buffer, MhdState.rank]
    omega

theorem firstCallDone_advances {before : MhdConnection}
    (buffer : c.readBuffer = before.readBuffer) (state : before.state = .headersProcessed) :
    Advances before c.firstCallDone := by
  rw [firstCallDone]
  split
  · rename_i closed
    intro _
    simp only [state, buffer, closed, MhdState.rank]
    omega
  · split
    · intro _
      simp only [state, buffer, MhdState.rank]
      omega
    · intro _
      dsimp only
      split <;> split <;> simp only [state, buffer, MhdState.rank] <;> omega

theorem bodyProcessed_advances {before : MhdConnection}
    (buffer : c.readBuffer.length ≤ before.readBuffer.length)
    (state : before.state = .continueSent) : Advances before c.bodyProcessed := by
  rw [bodyProcessed]
  split
  · rename_i closed
    intro _
    simp only [state, closed, MhdState.rank]
    omega
  · split
    · intro _
      dsimp only
      split <;> simp only [state, MhdState.rank] <;> omega
    · intro more
      cases more

theorem lastCallDone_advances {before : MhdConnection}
    (buffer : c.readBuffer = before.readBuffer) (state : before.state = .footersReceived) :
    Advances before c.lastCallDone := by
  rw [lastCallDone]
  split
  · rename_i closed
    intro _
    simp only [state, buffer, closed, MhdState.rank]
    omega
  · split <;> intro more <;> cases more

theorem callConnectionHandler_readBuffer {call : Call} {next : MhdConnection} {after : σ}
    (done : callConnectionHandler handler call (c, context) = .ok (next, after)) :
    next.readBuffer = c.readBuffer := by
  rw [callConnectionHandler] at done
  split at done
  · cases done
    rfl
  · obtain ⟨result, _, done⟩ := bind_eq_ok.mp done
    cases done
    exact takeAnswer_readBuffer c result.answer

/-- The loop of `MHD_connection_handle_idle` ends. -/
theorem idleStep_decreases (handler : AccessHandler ε σ) :
    Decreases (idleStep handler) idleSize := by
  intro ⟨c, context⟩ ⟨next, after⟩ stepped
  have only {before : σ} {result : Bool × MhdConnection} (advances : Advances c result)
      (same : withContext (ε := ε) before result = .ok (true, next, after)) :
      next.readBuffer.length + next.state.rank < c.readBuffer.length + c.state.rank := by
    obtain ⟨again, result⟩ := result
    cases same
    exact advances rfl
  simp only [idleStep] at stepped
  simp only [idleSize]
  split at stepped
  · exact only (initStep_advances ‹_›) stepped
  · rename_i state
    exact only (firstLineStep_advances (by rw [state]; decide) (by rw [state]; decide)
      (by rw [state]; decide)) stepped
  · rename_i state
    exact only (laterLineStep_advances (by rw [state]; decide) (by rw [state]; decide)) stepped
  · exact only (headersReceivedStep_advances ‹_›) stepped
  · obtain ⟨⟨first, between⟩, called, stepped⟩ := bind_eq_ok.mp stepped
    exact only (firstCallDone_advances (callConnectionHandler_readBuffer called) ‹_›) stepped
  · rename_i state
    refine only ?_ stepped
    intro _
    simp only [state, MhdState.rank]
    omega
  · rename_i state
    obtain ⟨⟨first, between⟩, processed, stepped⟩ := bind_eq_ok.mp stepped
    refine only (bodyProcessed_advances ?_ state) stepped
    split at processed
    · cases processed
      exact le_refl _
    · exact (processRequestBody_frame state processed).2
  · rename_i state
    exact only (firstLineStep_advances (by rw [state]; decide) (by rw [state]; decide)
      (by rw [state]; decide)) stepped
  · rename_i state
    exact only (laterLineStep_advances (by rw [state]; decide) (by rw [state]; decide)) stepped
  · obtain ⟨⟨first, between⟩, called, stepped⟩ := bind_eq_ok.mp stepped
    exact only (lastCallDone_advances (callConnectionHandler_readBuffer called) ‹_›) stepped
  · cases stepped
  · cases stepped

end MhdConnection

end SmartPay
