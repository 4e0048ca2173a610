import SmartPay.ServerChecks

/-!
What the URL decides. `sscanf` writes the endpoint only when there is one, so
the verdict on a URL without an endpoint, and the terminal id read from it,
come from what the array happened to hold.
-/

namespace SmartPay

open CLib

/-- The endpoint, when there is one, fits the array with its terminator. -/
def EndpointFits (url : Text) : Prop :=
  ∀ word, scanWord terminalsResource url = some word → word.length < maxEndpointSize

def Blocks (locals : HandlerLocals) (url : Text) : Prop :=
  ∃ endPoint, sscanf url terminalsResource locals.endPoint = .ok endPoint ∧
    endPoint.bytes.headD 0 ≠ 0

def Passes (locals : HandlerLocals) (url : Text) : Prop :=
  ∃ endPoint, sscanf url terminalsResource locals.endPoint = .ok endPoint ∧
    endPoint.bytes.headD 0 = 0

/-- The URL starts with the resource and goes on with something that is not blank. -/
def HasEndpoint (url : Text) : Prop :=
  terminalsResource.bytes <+: url.bytes ∧
    ∃ c ∈ url.bytes.drop terminalsResource.length, isSpace c = false

theorem hasEndpoint_iff (url : Text) :
    HasEndpoint url ↔ (scanWord terminalsResource url).isSome = true := by
  simp only [HasEndpoint, scanWord, List.isPrefixOf_iff_prefix]
  by_cases starts : terminalsResource.bytes <+: url.bytes
  · have word := nextWord_eq_nil_iff (url.bytes.drop terminalsResource.length)
    simp only [starts, true_and, if_true]
    split
    · rename_i nothing
      simpa using word.mp nothing
    · rename_i something
      simpa using mt word.mpr something
  · simp [starts]

theorem not_hasEndpoint_iff (url : Text) :
    ¬HasEndpoint url ↔ scanWord terminalsResource url = none := by
  rw [hasEndpoint_iff]
  simp

theorem sscanf_written {url word : Text} (scanned : scanWord terminalsResource url = some word)
    (fits : word.length < maxEndpointSize) (endPoint : Buf maxEndpointSize) :
    ∃ filled rest, sscanf url terminalsResource endPoint = .ok filled ∧
      filled.bytes = word.bytes ++ 0 :: rest ∧ filled.bytes.headD 0 ≠ 0 := by
  obtain ⟨filled, done, ⟨rest, split⟩⟩ := sscanf_some scanned fits endPoint
  obtain ⟨first, later, bytes⟩ := List.exists_cons_of_ne_nil (scanWord_some scanned).1
  have nonzero : first ≠ 0 := by
    rintro rfl
    exact word.nulFree (by simp [bytes])
  refine ⟨filled, rest, done, by simp [← split], ?_⟩
  simpa [← split, bytes] using nonzero

theorem blocks_of_written {url word : Text} (scanned : scanWord terminalsResource url = some word)
    (fits : word.length < maxEndpointSize) (locals : HandlerLocals) : Blocks locals url := by
  obtain ⟨filled, _, done, _, nonzero⟩ := sscanf_written scanned fits locals.endPoint
  exact ⟨filled, done, nonzero⟩

theorem blocks_iff {url : Text} (unwritten : scanWord terminalsResource url = none)
    (locals : HandlerLocals) : Blocks locals url ↔ locals.endPoint.bytes.headD 0 ≠ 0 := by
  simp only [Blocks, sscanf_none unwritten, Except.ok.injEq, exists_eq_left']

theorem passes_iff {url : Text} (unwritten : scanWord terminalsResource url = none)
    (locals : HandlerLocals) : Passes locals url ↔ locals.endPoint.bytes.headD 0 = 0 := by
  simp only [Passes, sscanf_none unwritten, Except.ok.injEq, exists_eq_left']

theorem scanWord_resource : scanWord terminalsResource terminalsResource = none := by decide

theorem strstr_resource : strstr terminalsResource terminalsResource = true := by decide

theorem passes_blank : Passes HandlerLocals.blank terminalsResource := by
  rw [passes_iff scanWord_resource]
  decide

/-! Reading the id. -/

theorem getTerminalId_written {url word : Text}
    (scanned : scanWord terminalsResource url = some word) (fits : word.length < maxEndpointSize)
    (endPoint : Buf maxEndpointSize) :
    getTerminalId endPoint url = atoi (word.bytes ++ [0]) := by
  obtain ⟨filled, rest, done, whole, head⟩ := sscanf_written scanned fits endPoint
  simp only [getTerminalId, done, bind, Except.bind, if_pos head]
  rw [whole, atoi_terminated]

theorem getTerminalId_unwritten {url : Text} (unwritten : scanWord terminalsResource url = none)
    (endPoint : Buf maxEndpointSize) :
    getTerminalId endPoint url =
      if endPoint.bytes.headD 0 ≠ 0 then atoi endPoint.bytes else .ok all := by
  simp only [getTerminalId, sscanf_none unwritten, bind, Except.bind]

theorem answerToConnection_get {url : Text} (resource : strstr url terminalsResource = true)
    (locals : HandlerLocals) (call : Call) (conCls : ConCls) (server : Server) :
    answerToConnection locals url (lit "GET") call conCls server =
      answerGet locals url call conCls server := by
  simp only [answerToConnection, resource, Bool.true_eq_false, if_false, if_true]

theorem answerGet_same {server : Server} {texts : List Text} {url : Text}
    {first second : HandlerLocals} (idle : Idle server.mgr texts)
    (sameId : getTerminalId first.endPoint url = getTerminalId second.endPoint url)
    (firstTerminated : ∃ leftover, first.jResponse.cstr = .ok leftover)
    (secondTerminated : ∃ leftover, second.jResponse.cstr = .ok leftover)
    (call : Call) (conCls : ConCls) :
    (answerGet first url call conCls server).map CallResult.answer =
      (answerGet second url call conCls server).map CallResult.answer := by
  obtain ⟨firstLeft, firstRead⟩ := firstTerminated
  obtain ⟨secondLeft, secondRead⟩ := secondTerminated
  cases scanned : getTerminalId second.endPoint url with
  | error fault =>
      rw [scanned] at sameId
      simp only [answerGet, sameId, scanned, bind, Except.bind]
  | ok termId =>
      rw [scanned] at sameId
      have firstDone := answerGet_decided idle sameId firstRead call conCls
      have secondDone := answerGet_decided idle scanned secondRead call conCls
      split at firstDone
      · rename_i fits
        rw [if_pos fits] at secondDone
        obtain ⟨_, firstOk, _⟩ := firstDone
        obtain ⟨_, secondOk, _⟩ := secondDone
        rw [firstOk, secondOk]
        rfl
      · rename_i tooLong
        rw [if_neg tooLong] at secondDone
        rw [firstDone, secondDone]

/-! Both verdicts. -/

/-- One call takes the URL to have an endpoint: it has one, or the array held one before. -/
def FindsEndpoint (locals : HandlerLocals) (url : Text) : Prop :=
  HasEndpoint url ∨ locals.endPoint.bytes.headD 0 ≠ 0

theorem blocks_iff_finds {url : Text} (fits : EndpointFits url) (locals : HandlerLocals) :
    Blocks locals url ↔ FindsEndpoint locals url := by
  by_cases written : HasEndpoint url
  · obtain ⟨word, scanned⟩ := Option.isSome_iff_exists.mp ((hasEndpoint_iff url).mp written)
    exact iff_of_true (blocks_of_written scanned (fits word scanned) locals) (Or.inl written)
  · rw [blocks_iff ((not_hasEndpoint_iff url).mp written), FindsEndpoint, or_iff_right written]

theorem passes_iff_not_blocks {url : Text} (fits : EndpointFits url) (locals : HandlerLocals) :
    Passes locals url ↔ ¬Blocks locals url := by
  constructor
  · rintro ⟨first, firstDone, zero⟩ ⟨second, secondDone, nonzero⟩
    rw [firstDone] at secondDone
    cases secondDone
    exact nonzero zero
  · intro passes
    cases scanned : scanWord terminalsResource url with
    | none => rwa [passes_iff scanned, ← not_not (a := _ = _), ← ne_eq, ← blocks_iff scanned]
    | some word => exact absurd (blocks_of_written scanned (fits word scanned) locals) passes

end SmartPay
