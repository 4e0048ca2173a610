import SmartPay.ExchangeChecks

/-!
What the leftover bytes of the endpoint array decide: which terminals a GET
returns, whether a POST is admitted, and what a POST rejected half-way leaves.
-/

namespace SmartPay

open CLib

/-! GET. -/

def localsWithEndpoint (endPoint : Text) : HandlerLocals :=
  { HandlerLocals.blank with endPoint := Buf.ofText _ endPoint }

/-- Two GETs of one URL agree whatever their arrays held exactly when the URL starts with the
resource and goes on with an endpoint that is not blank. -/
theorem get_reply_determined_iff {server : Server} (reachable : ReachableServer server) {url : Text}
    (resource : strstr url terminalsResource = true) (fits : EndpointFits url)
    (conCls : ConCls) :
    (∀ first second : HandlerLocals,
      (∃ leftover, first.jResponse.cstr = .ok leftover) →
      (∃ leftover, second.jResponse.cstr = .ok leftover) →
      getTerminalId first.endPoint url = getTerminalId second.endPoint url ∧
      (answerToConnection first url (lit "GET") .first conCls server).map CallResult.answer =
        (answerToConnection second url (lit "GET") .first conCls server).map CallResult.answer) ↔
      HasEndpoint url := by
  obtain ⟨texts, idle⟩ := reachable.idle
  constructor
  · intro determined
    by_contra unwritten
    have nothing := (not_hasEndpoint_iff url).mp unwritten
    have same := (determined (localsWithEndpoint (lit "")) (localsWithEndpoint (lit "1"))
      ⟨lit "", by decide⟩ ⟨lit "", by decide⟩).1
    rw [getTerminalId_unwritten nothing, getTerminalId_unwritten nothing] at same
    exact absurd same (by decide)
  · intro written first second firstTerminated secondTerminated
    obtain ⟨word, scanned⟩ := Option.isSome_iff_exists.mp ((hasEndpoint_iff url).mp written)
    have sameId : getTerminalId first.endPoint url = getTerminalId second.endPoint url := by
      rw [getTerminalId_written scanned (fits word scanned),
        getTerminalId_written scanned (fits word scanned)]
    rw [answerToConnection_get resource, answerToConnection_get resource]
    exact ⟨sameId, answerGet_same idle sameId firstTerminated secondTerminated .first conCls⟩

theorem get_reply_determined_numeral :
    getTerminalId (localsWithEndpoint (lit "")).endPoint (lit "/api/terminals/7") =
        getTerminalId (localsWithEndpoint (lit "1")).endPoint (lit "/api/terminals/7") ∧
    (answerToConnection (localsWithEndpoint (lit "")) (lit "/api/terminals/7") (lit "GET") .first
        .null { mgr := mgrInit EquipmentMgr.blank, postWithDataFlag := false }).map
          CallResult.answer =
      (answerToConnection (localsWithEndpoint (lit "1")) (lit "/api/terminals/7") (lit "GET") .first
        .null { mgr := mgrInit EquipmentMgr.blank, postWithDataFlag := false }).map
          CallResult.answer := by
  have scanned : scanWord terminalsResource (lit "/api/terminals/7") = some (lit "7") := by decide
  have fits : EndpointFits (lit "/api/terminals/7") := by
    intro word found
    rw [scanned] at found
    cases found
    decide
  have written : HasEndpoint (lit "/api/terminals/7") := by
    rw [hasEndpoint_iff, scanned]
    rfl
  exact (get_reply_determined_iff (ReachableServer.start rfl) (by decide) fits .null).mpr written
    (localsWithEndpoint (lit "")) (localsWithEndpoint (lit "1")) ⟨lit "", by decide⟩
    ⟨lit "", by decide⟩

theorem reachableServer_single {piece : List UInt8} (nonempty : piece ≠ [])
    (fits : (Text.ofBytes piece).length < dataSize) :
    ∃ server, ReachableServer server ∧ Idle server.mgr [Text.ofBytes piece] := by
  have last : [piece].getLast? = some piece := rfl
  obtain ⟨after, reply, done, idle⟩ := exchange_blank (by simpa using nonempty) last fits
  exact ⟨_, (ReachableServer.start rfl).exchangeFrom done, idle⟩

/-- A GET of the resource on a server with one terminal: an array that holds zeros asks for the
list, an array that holds a `1` asks for that terminal. -/
theorem get_reply_leftover_endpoint :
    ∃ server, ReachableServer server ∧
      (answerToConnection (localsWithEndpoint (lit "")) terminalsResource (lit "GET") .first .null
        server).map CallResult.answer = .ok (.reply (listReply [(1, lit "x")])) ∧
      (answerToConnection (localsWithEndpoint (lit "1")) terminalsResource (lit "GET") .first .null
        server).map CallResult.answer = .ok (.reply (singleReply (1, lit "x"))) ∧
      listReply [(1, lit "x")] ≠ singleReply (1, lit "x") := by
  have nonempty : [120] ≠ ([] : List UInt8) := by simp
  obtain ⟨server, reachable, idle⟩ := reachableServer_single nonempty (by decide)
  have anything : getTerminalId (localsWithEndpoint (lit "")).endPoint terminalsResource = .ok all := by
    decide
  have leftover : getTerminalId (localsWithEndpoint (lit "1")).endPoint terminalsResource = .ok 1 := by
    decide
  have terminated (text : Text) : (localsWithEndpoint text).jResponse.cstr = .ok (lit "") :=
    (by decide : HandlerLocals.blank.jResponse.cstr = .ok (lit ""))
  have listed := answerGet_decided idle anything (terminated _) .first .null
  have single := answerGet_decided idle leftover (terminated _) .first .null
  rw [if_pos (by decide)] at listed single
  obtain ⟨_, listDone, _⟩ := listed
  obtain ⟨_, singleDone, _⟩ := single
  refine ⟨server, reachable, ?_, ?_, by decide⟩
  · rw [answerToConnection_get strstr_resource, listDone]
    rfl
  · rw [answerToConnection_get strstr_resource, singleDone]
    rfl

/-! POST. -/

/-- The exchange ends with the error reply. In the middle of an upload libmicrohttpd takes no reply
and closes the connection instead, which is not such an end. -/
def Rejected (outcome : Outcome) : Prop := outcome = .replied jsonError

/-- Store, id counter, request queue and `postWithDataFlag` are the same. -/
structure Unchanged (before after : Server) : Prop where
  store : StoreSame before.mgr after.mgr
  queue : QueueSame before.mgr after.mgr
  flag : after.postWithDataFlag = before.postWithDataFlag

theorem unchanged_afterUpload_iff {server : Server} (flag : server.postWithDataFlag = false)
    (pieces : List (List UInt8)) : Unchanged server (afterUpload pieces server) ↔ pieces = [] := by
  constructor
  · intro unchanged
    by_contra some
    have set := unchanged.flag
    rw [afterUpload, if_neg some, flag] at set
    cases set
  · rintro rfl
    exact ⟨⟨rfl, rfl, rfl, rfl, rfl⟩, ⟨rfl, rfl, rfl, rfl⟩, rfl⟩

theorem wrapResponse_ne_jsonError (content : Text) : wrapResponse content ≠ jsonError := by
  intro same
  have starts := wrapResponse_starts content
  rw [same] at starts
  exact absurd starts (by decide)

theorem noData_not_rejected : ¬Rejected (.replied jsonPostWithNoData) :=
  fun same => absurd (Outcome.replied.inj same) (by decide)

theorem postReply_not_rejected (id : Int) : ¬Rejected (.replied (postReply id)) :=
  fun same => wrapResponse_ne_jsonError _ (Outcome.replied.inj same)

section Admission

variable {locals : Nat → HandlerLocals} {url : Text}

theorem first_block (fits : EndpointFits url) (bound : Nat) :
    (∀ i ≤ bound, Passes (locals i) url) ∨
      ∃ k ≤ bound, Blocks (locals k) url ∧ ∀ i < k, Passes (locals i) url := by
  by_cases found : ∃ k ≤ bound, Blocks (locals k) url
  · classical
    obtain ⟨inside, blocks⟩ := Nat.find_spec found
    refine Or.inr ⟨Nat.find found, inside, blocks, fun i before => ?_⟩
    rw [passes_iff_not_blocks fits]
    exact fun blocksHere => Nat.find_min found before ⟨by omega, blocksHere⟩
  · refine Or.inl fun i inside => ?_
    rw [passes_iff_not_blocks fits]
    exact fun blocksHere => found ⟨i, inside, blocksHere⟩

/-- The last call finds an endpoint, and the error is the reply to the upload. -/
theorem exchange_last_blocks (resource : strstr url terminalsResource = true)
    {pieces : List (List UInt8)} (nonempty : ∀ piece ∈ pieces, piece ≠ [])
    (blocks : Blocks (locals (pieces.length + 1)) url)
    (passes : ∀ i ≤ pieces.length, Passes (locals i) url) (server : Server) :
    exchange locals url (lit "POST") pieces server =
      .ok (afterUpload pieces server, .replied jsonError) := by
  rw [exchange_passes resource nonempty passes]
  rw [Nat.add_comm] at blocks
  exact exchangeFrom_last_blocks resource blocks _ _

/-- A call in the middle of the upload finds an endpoint, and the connection is closed. -/
theorem exchange_upload_blocks (resource : strstr url terminalsResource = true)
    {pieces : List (List UInt8)} (nonempty : ∀ piece ∈ pieces, piece ≠ []) {k : Nat}
    (positive : 0 < k) (inside : k ≤ pieces.length) (blocks : Blocks (locals k) url)
    (passes : ∀ i < k, Passes (locals i) url) (server : Server) :
    exchange locals url (lit "POST") pieces server =
      .ok (afterUpload (pieces.take (k - 1)) server, .closed) := by
  have length : (pieces.take (k - 1)).length = k - 1 := by
    rw [List.length_take]
    omega
  have split : pieces = pieces.take (k - 1) ++ pieces[k - 1] :: pieces.drop k := by
    have next : pieces.drop (k - 1) = pieces[k - 1] :: pieces.drop k := by
      rw [List.drop_eq_getElem_cons (by omega), Nat.sub_add_cancel positive]
    rw [← next, List.take_append_drop]
  have position : 1 + (pieces.take (k - 1)).length = k := by omega
  rw [exchange_first_passes resource (passes 0 positive)]
  nth_rewrite 1 [split]
  refine upload_blocks resource (fun piece member => nonempty piece (List.mem_of_mem_take member))
    (fun i bound => passes (1 + i) (by omega)) ?_ none server [.last]
  rwa [position]

/-- Whichever call finds an endpoint, the exchange ends there. -/
theorem exchange_blocked (resource : strstr url terminalsResource = true)
    {pieces : List (List UInt8)} (nonempty : ∀ piece ∈ pieces, piece ≠ []) {k : Nat}
    (inside : k ≤ pieces.length + 1) (blocks : Blocks (locals k) url)
    (passes : ∀ i < k, Passes (locals i) url) (server : Server) :
    ∃ after outcome, exchange locals url (lit "POST") pieces server = .ok (after, outcome) := by
  rcases Nat.eq_zero_or_pos k with rfl | positive
  · exact ⟨_, _, exchange_first_blocks resource blocks pieces server⟩
  rcases Nat.lt_or_ge pieces.length k with last | upload
  · obtain rfl : k = pieces.length + 1 := by omega
    exact ⟨_, _, exchange_last_blocks resource nonempty blocks
      (fun i bound => passes i (by omega)) server⟩
  · exact ⟨_, _, exchange_upload_blocks resource nonempty positive upload blocks passes server⟩

theorem exchange_admitted (resource : strstr url terminalsResource = true)
    {pieces : List (List UInt8)} (nonempty : ∀ piece ∈ pieces, piece ≠ [])
    (passes : ∀ i ≤ pieces.length + 1, Passes (locals i) url) {server after : Server}
    (flag : server.postWithDataFlag = false) {texts : List Text} (idle : Idle server.mgr texts)
    {outcome : Outcome}
    (done : exchange locals url (lit "POST") pieces server = .ok (after, outcome)) :
    ¬Rejected outcome := by
  cases last : pieces.getLast? with
  | none =>
      rw [List.getLast?_eq_none_iff.mp last] at passes done
      rw [exchange_passes resource (by simp) fun i bound => passes i (by omega)] at done
      have replied := exchangeFrom_last_noData resource (passes 1 (by simp)) none flag
      cases done.symm.trans replied
      exact noData_not_rejected
  | some piece =>
      have decided := exchange_pieces resource nonempty last passes idle
      split at decided
      · obtain ⟨mgr, stored, _⟩ := decided
        cases done.symm.trans stored
        exact postReply_not_rejected _
      · cases done.symm.trans decided

/-- The exchange is rejected exactly when the URL is not the resource, and then changes nothing. -/
def Admits (locals : Nat → HandlerLocals) (url : Text) (pieces : List (List UInt8))
    (server : Server) : Prop :=
  ((∃ after outcome, exchange locals url (lit "POST") pieces server = .ok (after, outcome) ∧
      Rejected outcome) ↔ url ≠ terminalsResource) ∧
    ∀ after outcome, exchange locals url (lit "POST") pieces server = .ok (after, outcome) →
      Rejected outcome → Unchanged server after

theorem admits_iff {pieces : List (List UInt8)} {server after : Server} {outcome : Outcome}
    (done : exchange locals url (lit "POST") pieces server = .ok (after, outcome)) :
    Admits locals url pieces server ↔
      (Rejected outcome ↔ url ≠ terminalsResource) ∧
        (Rejected outcome → Unchanged server after) := by
  have only : (∃ after outcome, exchange locals url (lit "POST") pieces server =
      .ok (after, outcome) ∧ Rejected outcome) ↔ Rejected outcome := by
    constructor
    · rintro ⟨other, ending, same, rejected⟩
      cases done.symm.trans same
      exact rejected
    · exact fun rejected => ⟨after, outcome, done, rejected⟩
  rw [Admits, only]
  refine and_congr_right fun _ => ⟨fun all => all after outcome done, fun kept => ?_⟩
  intro other ending same
  cases done.symm.trans same
  exact kept

/-- Admission is exact and atomic: on the resource itself, when the first call finds no endpoint and
the last call finds none either or is not reached; on any other URL, when the first call finds one,
or the second one where the body is empty. -/
theorem post_admission_iff {server : Server} (reachable : ReachableServer server)
    (flag : server.postWithDataFlag = false) (resource : strstr url terminalsResource = true)
    (fits : EndpointFits url) {pieces : List (List UInt8)}
    (nonempty : ∀ piece ∈ pieces, piece ≠ []) :
    Admits locals url pieces server ↔
      if url = terminalsResource then
        ¬FindsEndpoint (locals 0) url ∧
          ((∃ i, 1 ≤ i ∧ i ≤ pieces.length ∧ FindsEndpoint (locals i) url) ∨
            ¬FindsEndpoint (locals (pieces.length + 1)) url)
      else FindsEndpoint (locals 0) url ∨ pieces = [] ∧ FindsEndpoint (locals 1) url := by
  obtain ⟨texts, idle⟩ := reachable.idle
  simp only [← blocks_iff_finds fits]
  have opened {i : Nat} (passes : Passes (locals i) url) : ¬Blocks (locals i) url :=
    (passes_iff_not_blocks fits _).mp passes
  rcases first_block fits (pieces.length + 1) with passes | ⟨k, inside, blocks, passes⟩
  · -- no call finds an endpoint
    have admitted (after : Server) (outcome : Outcome)
        (done : exchange locals url (lit "POST") pieces server = .ok (after, outcome)) :
        ¬Rejected outcome := exchange_admitted resource nonempty passes flag idle done
    have first := opened (passes 0 (by omega))
    split
    · rename_i exact
      refine iff_of_true ⟨iff_of_false ?_ (by simp [exact]), ?_⟩ ⟨first, Or.inr ?_⟩
      · rintro ⟨after, outcome, done, rejected⟩
        exact admitted after outcome done rejected
      · exact fun after outcome done rejected => absurd rejected (admitted after outcome done)
      · exact opened (passes _ (Nat.le_refl _))
    · rename_i other
      refine iff_of_false ?_ (by simp [first, opened (passes 1 (by omega))])
      rintro ⟨exact, _⟩
      obtain ⟨after, outcome, done, rejected⟩ := exact.mpr other
      exact admitted after outcome done rejected
  rcases Nat.eq_zero_or_pos k with rfl | positive
  · -- the first call finds one
    rw [admits_iff (exchange_first_blocks resource blocks pieces server)]
    have rejected : Rejected (.replied jsonError) := rfl
    have kept : Unchanged server server := ⟨⟨rfl, rfl, rfl, rfl, rfl⟩, ⟨rfl, rfl, rfl, rfl⟩, rfl⟩
    split
    · rename_i exact
      exact iff_of_false (fun both => both.1.mp rejected exact) fun none => none.1 blocks
    · rename_i other
      exact iff_of_true ⟨iff_of_true rejected other, fun _ => kept⟩ (Or.inl blocks)
  have first := opened (passes 0 positive)
  rcases Nat.lt_or_ge pieces.length k with last | upload
  · -- the last call is the first one that finds one
    obtain rfl : k = pieces.length + 1 := by omega
    rw [admits_iff (exchange_last_blocks resource nonempty blocks
      (fun i bound => passes i (by omega)) server)]
    have rejected : Rejected (.replied jsonError) := rfl
    split
    · rename_i exact
      refine iff_of_false (fun both => both.1.mp rejected exact) ?_
      rintro ⟨_, ⟨i, _, bound, found⟩ | unfound⟩
      · exact opened (passes i (by omega)) found
      · exact unfound blocks
    · rename_i other
      rw [and_iff_right (iff_of_true rejected other), ← unchanged_afterUpload_iff flag]
      constructor
      · intro kept
        have empty := (unchanged_afterUpload_iff flag pieces).mp (kept rejected)
        refine Or.inr ⟨kept rejected, ?_⟩
        rw [empty] at blocks
        exact blocks
      · rintro (found | ⟨kept, _⟩)
        · exact absurd found first
        · exact fun _ => kept
  · -- a call with a piece is the first one that finds one
    rw [admits_iff (exchange_upload_blocks resource nonempty positive upload blocks passes server)]
    have unrejected : ¬Rejected .closed := fun same => by cases same
    split
    · rename_i exact
      refine iff_of_true ⟨iff_of_false unrejected (by simp [exact]), fun rejected => ?_⟩ ?_
      · exact absurd rejected unrejected
      · exact ⟨first, Or.inl ⟨k, positive, upload, blocks⟩⟩
    · rename_i other
      refine iff_of_false (fun both => unrejected (both.1.mpr other)) ?_
      rintro (found | ⟨rfl, _⟩)
      · exact first found
      · exact Nat.not_lt_zero 0 (Nat.lt_of_lt_of_le positive upload)

theorem post_admission_zeros :
    Admits (fun _ => HandlerLocals.blank) terminalsResource [[120]]
      { mgr := mgrInit EquipmentMgr.blank, postWithDataFlag := false } := by
  have none : ¬FindsEndpoint HandlerLocals.blank terminalsResource := by
    rintro (written | leftover)
    · exact (not_hasEndpoint_iff _).mpr scanWord_resource written
    · exact leftover rfl
  refine (post_admission_iff (ReachableServer.start rfl) rfl strstr_resource ?_ (by simp)).mpr ?_
  · intro word scanned
    rw [scanWord_resource] at scanned
    cases scanned
  · rw [if_pos rfl]
    exact ⟨none, Or.inr none⟩

/-- A POST of one piece to the resource whose last call finds a leftover `x`: it is rejected, and
the flag stays set. -/
theorem post_rejected_after_upload :
    ∃ locals : Nat → HandlerLocals, ∃ server after, server.postWithDataFlag = false ∧
      exchange locals terminalsResource (lit "POST") [[120]] server =
        .ok (after, .replied jsonError) ∧
      after.postWithDataFlag = true ∧ ¬Admits locals terminalsResource [[120]] server := by
  have blocks : Blocks (localsWithEndpoint (lit "x")) terminalsResource :=
    (blocks_iff scanWord_resource _).mpr (by decide)
  have done : exchange
      (fun i => if i = 2 then localsWithEndpoint (lit "x") else HandlerLocals.blank)
      terminalsResource (lit "POST") [[120]]
      { mgr := mgrInit EquipmentMgr.blank, postWithDataFlag := false } =
        .ok ({ mgr := mgrInit EquipmentMgr.blank, postWithDataFlag := true },
          .replied jsonError) := by
    refine exchange_last_blocks strstr_resource (by simp) blocks (fun i bound => ?_) _
    have inside : i ≤ 1 := bound
    rw [if_neg (by omega)]
    exact passes_blank
  refine ⟨_, _, _, rfl, done, rfl, fun admits => ?_⟩
  exact ((admits_iff done).mp admits).1.mp rfl rfl

end Admission

end SmartPay
