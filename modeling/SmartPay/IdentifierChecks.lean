import SmartPay.EndpointChecks
import SmartPay.ReplyBounds
import SmartPay.ReplyDecoding

/-!
Which terminals a GET names. The endpoint goes through `sscanf` and `atoi`, so a
terminal has many spellings, and the id that stands for all terminals has some too.
-/

namespace SmartPay

open CLib

/-- What follows the resource in the URL. -/
def endpoint (url : Text) : List UInt8 := url.bytes.drop terminalsResource.length

/-- The reply to a GET: the id is read from the URL and the database is read for it. -/
def replyToGet (locals : HandlerLocals) (url : Text) (mgr : EquipmentMgr) (json : Buf dataSize) :
    Except Fault Text := do
  let termId ← getTerminalId locals.endPoint url
  let (status, json, errMsg) ←
    readFromDb mgr locals.mgr.tempTransHolder termId json locals.mgr.errMsg
  match status with
  | .fail => errMsg.cstr
  | .success => json.cstr

/-- The endpoint is a spelling of a terminal's id. -/
def NamesTerminal (k : Nat) (url : Text) : Prop :=
  Spells [] k (endpoint url) ∨ Spells [43] k (endpoint url)

def NamesAll (url : Text) : Prop := Spells [45] 1 (endpoint url)

/-! The id. -/

section Identifier

variable {url : Text} (written : HasEndpoint url) (fits : EndpointFits url)
include written fits

theorem getTerminalId_endpoint (endPoint : Buf maxEndpointSize) :
    getTerminalId endPoint url = atoi (endpoint url ++ [0]) := by
  obtain ⟨word, scanned⟩ := Option.isSome_iff_exists.mp ((hasEndpoint_iff url).mp written)
  rw [getTerminalId_written scanned (fits word scanned), (scanWord_some scanned).2.2,
    atoi_nextWord]
  rfl

theorem getTerminalId_defined (endPoint : Buf maxEndpointSize) :
    ∃ termId, getTerminalId endPoint url = .ok termId := by
  obtain ⟨word, scanned⟩ := Option.isSome_iff_exists.mp ((hasEndpoint_iff url).mp written)
  have short : word.bytes.length ≤ 9 := Nat.le_of_lt_succ (fits word scanned)
  rw [getTerminalId_written scanned (fits word scanned)]
  exact atoi_short short

theorem getTerminalId_terminal_iff (endPoint : Buf maxEndpointSize) {k : Nat} (positive : 0 < k)
    (small : (k : Int) ≤ intMax) :
    getTerminalId endPoint url = .ok (k : Int) ↔ NamesTerminal k url := by
  rw [getTerminalId_endpoint written fits, NamesTerminal, atoi_plain_iff positive small]

theorem getTerminalId_all_iff (endPoint : Buf maxEndpointSize) :
    getTerminalId endPoint url = .ok all ↔ NamesAll url := by
  rw [getTerminalId_endpoint written fits, NamesAll,
    ← atoi_minus_iff (n := 1) (by omega) (by decide)]
  rfl

end Identifier

/-! The reply. -/

theorem replyToGet_decided {mgr : EquipmentMgr} {texts : List Text} (store : Stores mgr texts)
    {locals : HandlerLocals} {url : Text} {termId : Int}
    (scanned : getTerminalId locals.endPoint url = .ok termId) (json : Buf dataSize) :
    replyToGet locals url mgr json =
      if (getReply texts termId).length < dataSize then .ok (getReply texts termId)
      else .error .overflow := by
  have read := readFromDb_decided store termId locals.mgr.tempTransHolder json locals.mgr.errMsg
  by_cases short : (getReply texts termId).length < dataSize
  · rw [if_pos short] at read ⊢
    obtain ⟨⟨status, filled, message⟩, done, result⟩ := read
    simp only [replyToGet, scanned, done, bind, Except.bind]
    cases status with
    | fail => exact result.2.1
    | success => exact result
  · rw [if_neg short] at read ⊢
    simp only [replyToGet, scanned, read, bind, Except.bind]

/-- A GET call sends this reply. -/
theorem answerGet_sends {server : Server} {texts : List Text} {locals : HandlerLocals} {url : Text}
    (idle : Idle server.mgr texts) (terminated : ∃ leftover, locals.jResponse.cstr = .ok leftover)
    (call : Call) (conCls : ConCls) (json : Buf dataSize) :
    (answerGet locals url call conCls server).map CallResult.answer =
      (replyToGet locals url server.mgr json).map (sendResponse call) := by
  obtain ⟨leftover, read⟩ := terminated
  cases scanned : getTerminalId locals.endPoint url with
  | error fault => simp only [answerGet, replyToGet, scanned, bind, Except.bind, Except.map]
  | ok termId =>
      have decided := answerGet_decided idle scanned read call conCls
      rw [replyToGet_decided idle.store scanned json]
      split at decided
      · rename_i short
        obtain ⟨mgr, done, _⟩ := decided
        rw [done, if_pos short]
        rfl
      · rename_i tooLong
        rw [decided, if_neg tooLong]
        rfl

theorem getReply_cases (texts : List Text) (termId : Int) :
    getReply texts termId = notFoundReply ∨
      (termId = all ∧ texts ≠ [] ∧ getReply texts termId = listReply (numbered texts)) ∨
      ∃ entry ∈ numbered texts, entry.1 = termId ∧ getReply texts termId = singleReply entry := by
  by_cases whole : termId = all
  · by_cases empty : texts = []
    · exact Or.inl (by simp [getReply, whole, empty])
    · exact Or.inr (Or.inl ⟨whole, empty, by simp [getReply, whole, empty]⟩)
  · cases found : (numbered texts).find? fun entry => entry.1 == termId with
    | none => exact Or.inl (by simp [getReply, whole, found])
    | some entry =>
        have sameId := List.find?_some found
        exact Or.inr (Or.inr ⟨entry, List.mem_of_find?_eq_some found, by simpa using sameId,
          by simp [getReply, whole, found]⟩)

/-- The reply tells no more than one terminal of the store. -/
def AtMostOne (texts : List Text) (reply : Text) : Prop :=
  reply = notFoundReply ∨ ∃ entry ∈ numbered texts, reply = singleReply entry

theorem listReply_not_atMostOne (texts : List Text) :
    ¬AtMostOne texts (listReply (numbered texts)) := by
  rintro (same | ⟨entry, _, same⟩)
  · exact listReply_ne_notFound _ same
  · exact listReply_ne_singleReply _ _ same

/-- A GET with an endpoint reads an id other than `ALL`, and answers with at most one terminal,
exactly when the endpoint does not spell `ALL`. -/
theorem asks_one_iff {mgr : EquipmentMgr} {texts : List Text} (reachable : ReachableStore mgr texts)
    {url : Text} (written : HasEndpoint url) (fits : EndpointFits url) (locals : HandlerLocals)
    (json : Buf dataSize) :
    (∃ termId, getTerminalId locals.endPoint url = .ok termId ∧ termId ≠ all ∧
      ∀ reply, replyToGet locals url mgr json = .ok reply → AtMostOne texts reply) ↔
      ¬NamesAll url := by
  rw [← getTerminalId_all_iff written fits locals.endPoint]
  constructor
  · rintro ⟨termId, scanned, single, _⟩ whole
    rw [scanned] at whole
    exact single (Except.ok.inj whole)
  · intro single
    obtain ⟨termId, scanned⟩ := getTerminalId_defined written fits locals.endPoint
    have other : termId ≠ all := by
      rintro rfl
      exact single scanned
    refine ⟨termId, scanned, other, fun reply replied => ?_⟩
    rw [replyToGet_decided reachable.stores scanned json] at replied
    split at replied
    · cases replied
      rcases getReply_cases texts termId with missing | ⟨whole, _, _⟩ | ⟨entry, member, _, found⟩
      · exact Or.inl missing
      · exact absurd whole other
      · exact Or.inr ⟨entry, member, found⟩
    · cases replied

theorem endpoint_of_scanned {url word : Text} (scanned : scanWord terminalsResource url = some word)
    (short : word.length < maxEndpointSize) : HasEndpoint url ∧ EndpointFits url := by
  refine ⟨(hasEndpoint_iff url).mpr (by rw [scanned]; rfl), fun other found => ?_⟩
  rw [scanned] at found
  cases found
  exact short

theorem asks_one_numeral :
    ∃ mgr, ReachableStore mgr [lit "x"] ∧ ∃ termId,
      getTerminalId HandlerLocals.blank.endPoint (lit "/api/terminals/1") = .ok termId ∧
      termId ≠ all ∧
      ∀ reply, replyToGet HandlerLocals.blank (lit "/api/terminals/1") mgr
        (Buf.ofText dataSize (lit "")) = .ok reply → AtMostOne [lit "x"] reply := by
  obtain ⟨mgr, reachable⟩ := reachableStore_texts [lit "x"] (by decide) (by decide)
  have scanned : scanWord terminalsResource (lit "/api/terminals/1") = some (lit "1") := by decide
  obtain ⟨written, fits⟩ := endpoint_of_scanned scanned (by decide)
  refine ⟨mgr, reachable, (asks_one_iff reachable written fits HandlerLocals.blank _).mpr ?_⟩
  rw [← getTerminalId_all_iff written fits HandlerLocals.blank.endPoint]
  decide

theorem minus_one_tells_all :
    HasEndpoint (lit "/api/terminals/-1") ∧ EndpointFits (lit "/api/terminals/-1") ∧
      getTerminalId HandlerLocals.blank.endPoint (lit "/api/terminals/-1") = .ok all ∧
      ∃ mgr, ReachableStore mgr [lit "x", lit "y"] ∧
        replyToGet HandlerLocals.blank (lit "/api/terminals/-1") mgr
          (Buf.ofText dataSize (lit "")) = .ok (listReply [(1, lit "x"), (2, lit "y")]) ∧
        ¬AtMostOne [lit "x", lit "y"] (listReply [(1, lit "x"), (2, lit "y")]) := by
  obtain ⟨mgr, reachable⟩ :=
    reachableStore_texts [lit "x", lit "y"] (by decide) (by decide)
  have scanned : scanWord terminalsResource (lit "/api/terminals/-1") = some (lit "-1") := by decide
  obtain ⟨written, fits⟩ := endpoint_of_scanned scanned (by decide)
  have whole : getTerminalId HandlerLocals.blank.endPoint (lit "/api/terminals/-1") = .ok all := by
    decide
  have reply : getReply [lit "x", lit "y"] all = listReply [(1, lit "x"), (2, lit "y")] := by decide
  refine ⟨written, fits, whole, mgr, reachable, ?_, listReply_not_atMostOne [lit "x", lit "y"]⟩
  rw [replyToGet_decided reachable.stores whole, reply, if_pos (by decide)]

/-! Terminals by id. -/

theorem getReply_single_iff {texts : List Text} {entry : Int × Text}
    (member : entry ∈ numbered texts) (termId : Int) :
    getReply texts termId = singleReply entry ↔ termId = entry.1 := by
  constructor
  · intro replied
    rcases getReply_cases texts termId with missing | ⟨_, _, whole⟩ | ⟨other, inside, id, found⟩
    · rw [missing] at replied
      exact absurd replied (singleReply_ne_notFound _).symm
    · rw [whole] at replied
      exact absurd replied (listReply_ne_singleReply _ _)
    · rw [found] at replied
      have low := (mem_numberedFrom inside).1
      have otherLow := (mem_numberedFrom member).1
      rw [← id, singleReply_inj (by omega) (by omega) replied]
  · rintro rfl
    exact getReply_single member

theorem scans_entry_iff {texts : List Text} (bounded : (texts.length : Int) ≤ intMax) {url : Text}
    (written : HasEndpoint url) (fits : EndpointFits url) (held : Buf maxEndpointSize)
    {entry : Int × Text} (member : entry ∈ numbered texts) :
    ∃ k : Nat, entry.1 = k ∧ 1 ≤ k ∧ k ≤ texts.length ∧
      (getTerminalId held url = .ok entry.1 ↔ NamesTerminal k url) := by
  have bounds := mem_numberedFrom member
  obtain ⟨k, same⟩ := Int.eq_ofNat_of_zero_le (show 0 ≤ entry.1 by omega)
  rw [same] at bounds ⊢
  exact ⟨k, rfl, by omega, by omega,
    getTerminalId_terminal_iff written fits held (by omega) (by omega)⟩

/-- A GET with an endpoint is answered with a terminal whose reply fits exactly when the endpoint
spells its id, and otherwise with an error or with all terminals. -/
theorem get_by_id_iff {mgr : EquipmentMgr} {texts : List Text}
    (reachable : ReachableStore mgr texts) {url : Text} (written : HasEndpoint url)
    (fits : EndpointFits url) (locals : HandlerLocals) (json : Buf dataSize) :
    (∀ (k : Nat) (text : Text), ((k : Int), text) ∈ numbered texts →
      (singleReply (k, text)).length < dataSize →
        (replyToGet locals url mgr json = .ok (singleReply (k, text)) ↔ NamesTerminal k url)) ∧
    ((∀ k : Nat, 1 ≤ k → k ≤ texts.length → ¬NamesTerminal k url) →
      (∀ reply, replyToGet locals url mgr json = .ok reply →
        reply = notFoundReply ∨ reply = listReply (numbered texts)) ∧
      ((listReply (numbered texts)).length < dataSize →
        ∃ reply, replyToGet locals url mgr json = .ok reply)) := by
  obtain ⟨termId, scanned⟩ := getTerminalId_defined written fits locals.endPoint
  have store := reachable.stores
  have named {entry : Int × Text} (member : entry ∈ numbered texts) :=
    scans_entry_iff store.bounded written fits locals.endPoint member
  rw [replyToGet_decided store scanned json]
  constructor
  · intro k text member short
    obtain ⟨other, same, _, _, reads⟩ := named member
    obtain rfl : k = other := Int.ofNat_inj.mp same
    rw [← reads, scanned, Except.ok.injEq, ← getReply_single_iff member]
    constructor
    · intro replied
      split at replied
      · exact Except.ok.inj replied
      · cases replied
    · intro reply
      rw [reply, if_pos short]
  · intro nothing
    have reply : getReply texts termId = notFoundReply ∨
        getReply texts termId = listReply (numbered texts) := by
      rcases getReply_cases texts termId with missing | ⟨_, _, whole⟩ | ⟨entry, inside, id, _⟩
      · exact Or.inl missing
      · exact Or.inr whole
      · obtain ⟨k, _, first, last, reads⟩ := named inside
        rw [id] at reads
        exact absurd (reads.mp scanned) (nothing k first last)
    constructor
    · intro text replied
      split at replied
      · cases replied
        exact reply
      · cases replied
    · intro short
      have fitting : (getReply texts termId).length < dataSize := by
        rcases reply with missing | whole
        · rw [missing]
          exact Nat.lt_trans notFoundReply_length (by decide)
        · rwa [whole]
      exact ⟨_, if_pos fitting⟩

theorem get_by_id_numeral :
    ∃ mgr, ReachableStore mgr [lit "x"] ∧
      (replyToGet HandlerLocals.blank (lit "/api/terminals/1") mgr (Buf.ofText dataSize (lit "")) =
        .ok (singleReply ((1 : Nat), lit "x")) ↔ NamesTerminal 1 (lit "/api/terminals/1")) := by
  obtain ⟨mgr, reachable⟩ := reachableStore_texts [lit "x"] (by decide) (by decide)
  have scanned : scanWord terminalsResource (lit "/api/terminals/1") = some (lit "1") := by decide
  obtain ⟨written, fits⟩ := endpoint_of_scanned scanned (by decide)
  exact ⟨mgr, reachable, (get_by_id_iff reachable written fits HandlerLocals.blank _).1 1 (lit "x")
    (by decide) (by decide)⟩

theorem decorated_numeral_answered :
    HasEndpoint (lit "/api/terminals/+01x") ∧ EndpointFits (lit "/api/terminals/+01x") ∧
      endpoint (lit "/api/terminals/+01x") ≠ decimalBytes 1 ∧
      ∃ mgr, ReachableStore mgr [lit "x"] ∧
        replyToGet HandlerLocals.blank (lit "/api/terminals/+01x") mgr
          (Buf.ofText dataSize (lit "")) = .ok (singleReply (1, lit "x")) := by
  obtain ⟨mgr, reachable⟩ := reachableStore_texts [lit "x"] (by decide) (by decide)
  have scanned : scanWord terminalsResource (lit "/api/terminals/+01x") = some (lit "+01x") := by
    decide
  obtain ⟨written, fits⟩ := endpoint_of_scanned scanned (by decide)
  have one : getTerminalId HandlerLocals.blank.endPoint (lit "/api/terminals/+01x") = .ok 1 := by
    decide
  have reply : getReply [lit "x"] 1 = singleReply (1, lit "x") := by decide
  refine ⟨written, fits, by decide, mgr, reachable, ?_⟩
  rw [replyToGet_decided reachable.stores one, reply, if_pos (by decide)]

end SmartPay
