import SmartPay.LeftoverChecks

/-!
Client input against the arrays it is copied into. The endpoint goes into 10
bytes, and the body of a POST into three arrays of 1024 bytes, all unchecked; a
body is spared the copies only when its request is rejected for its endpoint.
-/

namespace SmartPay

open CLib

theorem getTerminalId_fits_iff (endPoint : Buf maxEndpointSize) (url : Text) :
    getTerminalId endPoint url ≠ .error .overflow ↔ EndpointFits url := by
  cases scanned : scanWord terminalsResource url with
  | none =>
      refine iff_of_true ?_ fun word found => ?_
      · rw [getTerminalId_unwritten scanned]
        split
        · exact atoi_no_overflow _
        · simp
      · rw [scanned] at found
        cases found
  | some word =>
      constructor
      · intro fits other found
        rw [scanned] at found
        cases found
        by_contra tooLong
        have failed := sscanf_overflow scanned (Nat.le_of_not_lt tooLong) endPoint
        exact fits (by simp only [getTerminalId, failed, bind, Except.bind])
      · intro fits
        rw [getTerminalId_written scanned (fits word scanned)]
        exact atoi_no_overflow _

section Exchange

variable {locals : Nat → HandlerLocals} {url : Text}

theorem exchange_long_endpoint (resource : strstr url terminalsResource = true)
    (tooLong : ¬EndpointFits url) (pieces : List (List UInt8)) (server : Server) :
    exchange locals url (lit "POST") pieces server = .error .overflow := by
  simp only [EndpointFits, not_forall, Nat.not_lt] at tooLong
  obtain ⟨word, scanned, long⟩ := tooLong
  have failed := sscanf_overflow scanned long (locals 0).endPoint
  simp only [exchange, callsFor, exchangeFrom, answerToConnection_post resource, answerPost, failed,
    bind, Except.bind]

theorem exchange_fits_iff (resource : strstr url terminalsResource = true) {server : Server}
    (reachable : ReachableServer server) (fits : EndpointFits url) {body : Text}
    (nonempty : body.bytes ≠ []) :
    exchange locals url (lit "POST") [body.bytes] server ≠ .error .overflow ↔
      body.length < dataSize ∨ ∃ i ≤ 2, FindsEndpoint (locals i) url := by
  obtain ⟨texts, idle⟩ := reachable.idle
  have pieces : ∀ piece ∈ [body.bytes], piece ≠ [] := by simpa using nonempty
  have last : [body.bytes].getLast? = some body.bytes := rfl
  simp only [← blocks_iff_finds fits]
  rcases first_block fits 2 with passes | ⟨k, inside, blocks, before⟩
  · have decided := exchange_pieces resource pieces last passes idle
    have never : ¬∃ i ≤ 2, Blocks (locals i) url := by
      rintro ⟨i, low, blocks⟩
      exact (passes_iff_not_blocks fits (locals i)).mp (passes i low) blocks
    rw [or_iff_left never]
    rw [Text.ofBytes_bytes] at decided
    split at decided
    · rename_i room
      obtain ⟨mgr, done, _⟩ := decided
      rw [done]
      exact iff_of_true (by simp) room.1
    · rename_i full
      rw [decided, postFault]
      split
      · rename_i short
        exact iff_of_true (by simp) short
      · rename_i long
        exact iff_of_false (by simp) long
  · obtain ⟨after, outcome, done⟩ := exchange_blocked resource pieces inside blocks before server
    rw [done]
    exact iff_of_true (by simp) (Or.inr ⟨k, inside, blocks⟩)

end Exchange

/-- The copy of an endpoint stays in its array exactly when the endpoint has less than 10 bytes,
and the copies of a POST's body stay in theirs exactly when it has less than 1024 or one of the
calls finds an endpoint. -/
theorem input_fits_iff {server : Server} (reachable : ReachableServer server) {url : Text}
    (resource : strstr url terminalsResource = true) (locals : Nat → HandlerLocals) {body : Text}
    (nonempty : body.bytes ≠ []) :
    (getTerminalId (locals 0).endPoint url ≠ .error .overflow ↔ EndpointFits url) ∧
    (exchange locals url (lit "POST") [body.bytes] server ≠ .error .overflow ↔
      EndpointFits url ∧ (body.length < dataSize ∨ ∃ i ≤ 2, FindsEndpoint (locals i) url)) := by
  refine ⟨getTerminalId_fits_iff _ _, ?_⟩
  by_cases fits : EndpointFits url
  · rw [exchange_fits_iff resource reachable fits nonempty, and_iff_right fits]
  · rw [exchange_long_endpoint resource fits]
    exact iff_of_false (by simp) (fun both => fits both.1)

theorem endpointFits_resource : EndpointFits terminalsResource := by
  intro word scanned
  rw [scanWord_resource] at scanned
  cases scanned

theorem reachableServer_blank :
    ReachableServer { mgr := mgrInit EquipmentMgr.blank, postWithDataFlag := false } :=
  ReachableServer.start rfl

theorem input_fits_short :
    getTerminalId HandlerLocals.blank.endPoint terminalsResource ≠ .error .overflow ∧
      exchange (fun _ => HandlerLocals.blank) terminalsResource (lit "POST") [(lit "x").bytes]
        { mgr := mgrInit EquipmentMgr.blank, postWithDataFlag := false } ≠ .error .overflow := by
  obtain ⟨id, body⟩ := input_fits_iff reachableServer_blank strstr_resource
    (fun _ => HandlerLocals.blank) (show (lit "x").bytes ≠ [] by decide)
  exact ⟨id.mpr endpointFits_resource, body.mpr ⟨endpointFits_resource, Or.inl (by decide)⟩⟩

/-- As many bytes as the arrays have, without room for the terminator. -/
def longBody : Text := ⟨List.replicate dataSize 120, by simp [List.mem_replicate]⟩

theorem long_input_overflows :
    strstr (lit "/api/terminals/1234567890") terminalsResource = true ∧
      getTerminalId HandlerLocals.blank.endPoint (lit "/api/terminals/1234567890") =
        .error .overflow ∧
      strstr terminalsResource terminalsResource = true ∧ longBody.bytes ≠ [] ∧
      exchange (fun _ => HandlerLocals.blank) terminalsResource (lit "POST") [longBody.bytes]
        { mgr := mgrInit EquipmentMgr.blank, postWithDataFlag := false } = .error .overflow := by
  have length : longBody.length = dataSize := List.length_replicate
  have some : longBody.bytes ≠ [] := by
    intro empty
    rw [Text.length, empty] at length
    cases length
  refine ⟨by decide, by decide, strstr_resource, some, ?_⟩
  by_contra fitting
  rcases (exchange_fits_iff strstr_resource reachableServer_blank endpointFits_resource some).mp
    fitting with short | ⟨i, _, written | held⟩
  · rw [length] at short
    exact Nat.lt_irrefl _ short
  · exact (not_hasEndpoint_iff terminalsResource).mpr scanWord_resource written
  · exact held rfl

end SmartPay
