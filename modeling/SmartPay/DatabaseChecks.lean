import SmartPay.StoreRefinement

/-!
The reply encoder and the database calls against the reference service. Each
call is decided: it produces the reply text when that text fits its buffer, and
overflows when it does not.
-/

namespace SmartPay

open CLib

/-! The encoder. -/

def appendedFragments : List (Int × Text) → Text
  | [] => lit ""
  | entry :: rest => fragment entry ++ lit ", " ++ appendedFragments rest

theorem appendedFragments_cons (entry : Int × Text) (rest : List (Int × Text)) :
    appendedFragments (entry :: rest) = joinFragments (entry :: rest) ++ lit ", " := by
  induction rest generalizing entry with
  | nil =>
      ext1
      simp only [appendedFragments, joinFragments, Text.bytes_append, List.append_assoc]
      rfl
  | cons next rest ih =>
      rw [appendedFragments, ih, joinFragments]
      simp only [Text.append_assoc]

theorem separator_length : (lit ", ").length = 2 := by decide

def listHead : Text := lit "\x7b \"Response\": \x7b   "

theorem listHead_length : listHead.length = 18 := by decide

theorem frame_length : (format basicResponseWraper [.s (lit " ")]).length = 21 := by decide

theorem listHead_starts : listHead.bytes <+: (format basicResponseWraper [.s (lit " ")]).bytes := by
  decide

theorem listReply_length {entries : List (Int × Text)} (nonempty : entries ≠ []) :
    (listReply entries).length = 20 + (appendedFragments entries).length := by
  obtain ⟨entry, rest, rfl⟩ := List.exists_cons_of_ne_nil nonempty
  have last : (lit " \x7d \x7d").length = 4 := by decide
  have first : (lit "\x7b \"Response\": \x7b   ").length = 18 := by decide
  simp only [listReply, appendedFragments_cons, Text.length_append, separator_length, last, first]
  omega

theorem appendTerminalsFrom_ok {size : Nat} {terminals : Heap Terminals} {fuel : Nat}
    {start : Option Nat} {nodes : List Nat} {entries : List (Int × Text)} {respJson : Buf size}
    {text : Text} (chain : Chain terminals Terminals.next start nodes)
    (holds : List.Forall₂ (Holds terminals) nodes entries) (enough : nodes.length ≤ fuel)
    (starts : text.bytes <+: respJson.bytes)
    (fits : text.length + (appendedFragments entries).length < size) :
    ∃ filled, appendTerminalsFrom terminals fuel start respJson text.length =
        .ok (filled, (text ++ appendedFragments entries).length) ∧
      (text ++ appendedFragments entries).bytes <+: filled.bytes := by
  induction holds generalizing start fuel respJson text with
  | nil =>
      cases (show start = none from chain)
      refine ⟨respJson, ?_, by simpa [appendedFragments] using starts⟩
      cases fuel <;> simp [appendTerminalsFrom, appendedFragments]
  | @cons p entry rest others first later ih =>
      obtain ⟨rfl, live, tail⟩ := chain
      simp only [appendedFragments, Text.length_append] at fits
      cases fuel with
      | zero => simp at enough
      | succ fuel =>
          obtain ⟨printed, printedOk, printedStarts⟩ :=
            respJson.print_ok (fragment entry) starts rfl
              (by rw [Text.length_bytes]; omega)
          have partStarts : (text ++ fragment entry).bytes <+: printed.bytes := by
            rw [← List.append_assoc] at printedStarts
            exact (List.prefix_append _ _).trans printedStarts
          obtain ⟨separated, separatedOk, separatedStarts⟩ :=
            printed.print_ok (lit ", ") partStarts rfl
              (by rw [Text.length_bytes, Text.length_append]; omega)
          have wholeStarts : (text ++ fragment entry ++ lit ", ").bytes <+: separated.bytes := by
            rw [← List.append_assoc] at separatedStarts
            exact (List.prefix_append _ _).trans separatedStarts
          obtain ⟨filled, done, filledStarts⟩ := ih tail (by simpa using enough) wholeStarts
            (by simp only [Text.length_append]; omega)
          rw [Text.length_bytes] at printedOk
          rw [Text.length_bytes, Text.length_append] at separatedOk
          refine ⟨filled, ?_, ?_⟩
          · simp only [appendTerminalsFrom, Heap.load_ok live, bind, Except.bind, first.2.1,
              first.2.2, format_fragment, printedOk, separatedOk]
            simpa only [Text.length_append, appendedFragments, Nat.add_assoc] using done
          · simpa only [appendedFragments, Text.append_assoc] using filledStarts

theorem appendTerminalsFrom_overflow {size : Nat} {terminals : Heap Terminals} {fuel : Nat}
    {start : Option Nat} {nodes : List Nat} {entries : List (Int × Text)} {respJson : Buf size}
    {text : Text} (chain : Chain terminals Terminals.next start nodes)
    (holds : List.Forall₂ (Holds terminals) nodes entries) (enough : nodes.length ≤ fuel)
    (starts : text.bytes <+: respJson.bytes) (room : text.length < size)
    (tooLong : size ≤ text.length + (appendedFragments entries).length) :
    appendTerminalsFrom terminals fuel start respJson text.length = .error .overflow := by
  induction holds generalizing start fuel respJson text with
  | nil =>
      have empty : (appendedFragments []).length = 0 := by decide
      omega
  | @cons p entry rest others first later ih =>
      obtain ⟨rfl, live, tail⟩ := chain
      simp only [appendedFragments, Text.length_append, separator_length] at tooLong
      cases fuel with
      | zero => simp at enough
      | succ fuel =>
          simp only [appendTerminalsFrom, Heap.load_ok live, bind, Except.bind, first.2.1,
            first.2.2, format_fragment]
          by_cases fragmentFits : text.length + (fragment entry).length < size
          · obtain ⟨printed, printedOk, printedStarts⟩ :=
              respJson.print_ok (fragment entry) starts rfl fragmentFits
            have partStarts : (text ++ fragment entry).bytes <+: printed.bytes := by
              rw [← List.append_assoc] at printedStarts
              exact (List.prefix_append _ _).trans printedStarts
            rw [Text.length_bytes] at printedOk
            simp only [printedOk]
            by_cases separatorFits : text.length + (fragment entry).length + 2 < size
            · obtain ⟨separated, separatedOk, separatedStarts⟩ :=
                printed.print_ok (lit ", ") partStarts rfl
                  (by rw [Text.length_bytes, Text.length_append, separator_length]; omega)
              have wholeStarts : (text ++ fragment entry ++ lit ", ").bytes <+: separated.bytes := by
                rw [← List.append_assoc] at separatedStarts
                exact (List.prefix_append _ _).trans separatedStarts
              rw [Text.length_bytes, Text.length_append] at separatedOk
              simp only [separatedOk]
              simpa only [Text.length_append] using
                ih tail (by simpa using enough) wholeStarts
                  (by simp only [Text.length_append, separator_length]; omega)
                  (by simp only [Text.length_append, separator_length]; omega)
            · simp only [printed.print_overflow (text.length + (fragment entry).length) (lit ", ")
                (by rw [separator_length]; omega)]
          · simp only [respJson.print_overflow text.length (fragment entry)
              (by omega)]

section Encoder

variable {size : Nat} {mgr : EquipmentMgr} {nodes : List Nat} {entries : List (Int × Text)}

theorem createJsonFromList_all (list : StoreList mgr nodes entries) (nonempty : entries ≠ [])
    (tempTransHolder : Buf dataSize) (terms : Nat) (respJson : Buf size) :
    if (listReply entries).length < size then
      ∃ filled, createJsonFromList mgr tempTransHolder terms all respJson = .ok filled ∧
        filled.cstr = .ok (listReply entries)
    else createJsonFromList mgr tempTransHolder terms all respJson = .error .overflow := by
  have total := listReply_length nonempty
  have chain := list.linked.chain
  obtain ⟨entry, rest, rfl⟩ := List.exists_cons_of_ne_nil nonempty
  have start : (format basicResponseWraper [.s (lit " ")]).length - 3 = listHead.length := by
    rw [frame_length, listHead_length]
  have joined := appendedFragments_cons entry rest
  have joinedLength := congrArg Text.length joined
  simp only [Text.length_append, separator_length] at joinedLength
  simp only [createJsonFromList, ne_eq, not_true_eq_false, if_false, start]
  by_cases frameFits : 21 < size
  · obtain ⟨framed, framedOk, framedStarts⟩ :=
      respJson.print_ok (format basicResponseWraper [.s (lit " ")]) List.nil_prefix
        (show [].length = 0 from rfl) (by rw [frame_length]; omega)
    have headStarts : listHead.bytes <+: framed.bytes :=
      (listHead_starts.trans (List.prefix_append _ _)).trans (by simpa using framedStarts)
    simp only [framedOk, bind, Except.bind]
    by_cases loopFits : 18 + (appendedFragments (entry :: rest)).length < size
    · obtain ⟨filled, filledOk, filledStarts⟩ :=
        appendTerminalsFrom_ok chain list.holds chain.length_le headStarts
          (by rw [listHead_length]; exact loopFits)
      have back : (listHead ++ appendedFragments (entry :: rest)).length - 2 =
          (listHead ++ joinFragments (entry :: rest)).length := by
        simp only [Text.length_append]
        omega
      have joinedStarts :
          (listHead ++ joinFragments (entry :: rest)).bytes <+: filled.bytes := by
        rw [joined, ← Text.append_assoc] at filledStarts
        exact (List.prefix_append _ _).trans filledStarts
      simp only [filledOk, back]
      have last : (lit " \x7d \x7d").length = 4 := by decide
      split
      · rename_i fits
        obtain ⟨closed, closedOk, closedStarts⟩ :=
          filled.print_ok (lit " \x7d \x7d") joinedStarts rfl (by
            simp only [Text.length_bytes, Text.length_append, last, listHead_length]
            omega)
        rw [Text.length_bytes] at closedOk
        refine ⟨closed, closedOk, Buf.cstr_of_starts ?_⟩
        rw [← List.append_assoc] at closedStarts
        exact closedStarts
      · exact filled.print_overflow _ _ (by
          simp only [Text.length_append, last, listHead_length]
          omega)
    · rw [if_neg (by omega)]
      simp only [appendTerminalsFrom_overflow chain list.holds chain.length_le headStarts
        (by rw [listHead_length]; omega) (by rw [listHead_length]; omega)]
  · rw [if_neg (by omega)]
    simp only [respJson.print_overflow 0 (format basicResponseWraper [.s (lit " ")])
      (by rw [frame_length]; omega), bind,
      Except.bind]

/-- `createJsonFromList` for one terminal, decided for a reply array of any size. -/
theorem createJsonFromList_one {p : Nat} {entry : Int × Text} {termId : Int}
    (holds : Holds mgr.terminals p entry) (single : termId ≠ all)
    (tempTransHolder : Buf dataSize) (respJson : Buf size) :
    if (fragment entry).length < dataSize ∧ (singleReply entry).length < size then
      ∃ filled, createJsonFromList mgr tempTransHolder p termId respJson = .ok filled ∧
        filled.cstr = .ok (singleReply entry)
    else createJsonFromList mgr tempTransHolder p termId respJson = .error .overflow := by
  simp only [createJsonFromList, ne_eq, single, not_false_eq_true, if_true, Heap.load_ok holds.1,
    bind, Except.bind, holds.2.1, holds.2.2, format_fragment]
  by_cases held : (fragment entry).length < dataSize
  · obtain ⟨holder, heldOk, heldText⟩ := tempTransHolder.print_zero_ok held
    simp only [heldOk, heldText, format_wrapResponse, held, true_and]
    split
    · rename_i fits
      exact respJson.print_zero_ok fits
    · rename_i tooLong
      exact respJson.print_overflow _ _ (by rw [← singleReply]; omega)
  · simp only [held, false_and, if_false,
      tempTransHolder.print_overflow 0 (fragment entry) (by omega)]

theorem createJsonFromList_single {p : Nat} {entry : Int × Text} {termId : Int}
    (holds : Holds mgr.terminals p entry) (single : termId ≠ all) (atMost : size ≤ dataSize)
    (tempTransHolder : Buf dataSize) (respJson : Buf size) :
    if (singleReply entry).length < size then
      ∃ filled, createJsonFromList mgr tempTransHolder p termId respJson = .ok filled ∧
        filled.cstr = .ok (singleReply entry)
    else createJsonFromList mgr tempTransHolder p termId respJson = .error .overflow := by
  have total : (singleReply entry).length = 20 + (fragment entry).length :=
    wrapResponse_length _
  have decided := createJsonFromList_one holds single tempTransHolder respJson
  split
  · rename_i fits
    rwa [if_pos ⟨by omega, fits⟩] at decided
  · rename_i tooLong
    rwa [if_neg (fun both => tooLong both.2)] at decided

end Encoder

/-! Reading. -/

theorem notFoundReply_length : notFoundReply.length < errorMsgSize := by decide

/-- A read ends with a success and its reply in `json`, or with a failure and the error text. -/
def ReadDone (reply : Text) (respJson : Buf dataSize) :
    Status × Buf dataSize × Buf errorMsgSize → Prop
  | (.success, json, _) => json.cstr = .ok reply
  | (.fail, json, errMsg) => json = respJson ∧ errMsg.cstr = .ok reply ∧ reply = notFoundReply

theorem readFromDb_notFound {mgr : EquipmentMgr} {termId : Int}
    (missing : (if termId = all then .ok (getAllTerminals mgr) else getTerminalById mgr termId) =
      (.ok none : Except Fault (Option Nat)))
    (tempTransHolder respJson : Buf dataSize) (errMsg : Buf errorMsgSize) :
    ∃ result, readFromDb mgr tempTransHolder termId respJson errMsg = .ok result ∧
      ReadDone notFoundReply respJson result := by
  obtain ⟨message, printed, text⟩ := errMsg.print_zero_ok notFoundReply_length
  refine ⟨(.fail, respJson, message), ?_, rfl, text, rfl⟩
  rw [readFromDb, missing]
  simp only [bind, Except.bind, format_notFound, printed]

/-- A read is decided: it ends with the reply of the service, or the reply overflows its buffer. -/
theorem readFromDb_decided {mgr : EquipmentMgr} {texts : List Text} (store : Stores mgr texts)
    (termId : Int) (tempTransHolder respJson : Buf dataSize) (errMsg : Buf errorMsgSize) :
    if (getReply texts termId).length < dataSize then
      ∃ result, readFromDb mgr tempTransHolder termId respJson errMsg = .ok result ∧
        ReadDone (getReply texts termId) respJson result
    else readFromDb mgr tempTransHolder termId respJson errMsg = .error .overflow := by
  obtain ⟨nodes, list⟩ := store.list
  have short : notFoundReply.length < dataSize := Nat.lt_trans notFoundReply_length (by decide)
  by_cases whole : termId = all
  · subst termId
    by_cases empty : texts = []
    · have noEntries : numbered texts = [] := (numbered_eq_nil_iff texts).mpr empty
      have noNodes : nodes = [] := by
        have holds := list.holds
        rw [noEntries] at holds
        exact List.forall₂_nil_right_iff.mp holds
      have noHead : mgr.termList = none := list.linked.head_none_iff.mpr noNodes
      have reply : getReply texts all = notFoundReply := by simp [getReply, empty]
      rw [reply, if_pos short]
      exact readFromDb_notFound (by simp [getAllTerminals, noHead]) _ _ _
    · have someEntries : numbered texts ≠ [] := mt (numbered_eq_nil_iff texts).mp empty
      have reply : getReply texts all = listReply (numbered texts) := by simp [getReply, empty]
      have someNodes : mgr.termList ≠ none := by
        intro noHead
        have holds := list.holds
        rw [list.linked.head_none_iff.mp noHead] at holds
        exact someEntries (List.forall₂_nil_left_iff.mp holds)
      obtain ⟨head, headEq⟩ := Option.ne_none_iff_exists'.mp someNodes
      have created := createJsonFromList_all list someEntries tempTransHolder head respJson
      rw [reply]
      split at created
      · rename_i fits
        obtain ⟨filled, done, text⟩ := created
        rw [if_pos fits]
        refine ⟨(.success, filled, errMsg), ?_, text⟩
        simp only [readFromDb, if_true, getAllTerminals, headEq, bind, Except.bind, done]
      · rename_i tooLong
        rw [if_neg tooLong]
        simp only [readFromDb, if_true, getAllTerminals, headEq, bind, Except.bind, created]
  · have found := getTerminalById_find list termId
    cases entryEq : (numbered texts).find? fun entry => entry.1 == termId with
    | none =>
        rw [entryEq] at found
        have reply : getReply texts termId = notFoundReply := by simp [getReply, whole, entryEq]
        rw [reply, if_pos short]
        exact readFromDb_notFound (by rw [if_neg whole]; exact found) _ _ _
    | some entry =>
        rw [entryEq] at found
        obtain ⟨p, _, lookup, holds⟩ := found
        have reply : getReply texts termId = singleReply entry := by
          simp [getReply, whole, entryEq]
        have created :=
          createJsonFromList_single holds whole (Nat.le_refl _) tempTransHolder respJson
        rw [reply]
        split at created
        · rename_i fits
          obtain ⟨filled, done, text⟩ := created
          rw [if_pos fits]
          refine ⟨(.success, filled, errMsg), ?_, text⟩
          simp only [readFromDb, if_neg whole, lookup, bind, Except.bind, done]
        · rename_i tooLong
          rw [if_neg tooLong]
          simp only [readFromDb, if_neg whole, lookup, bind, Except.bind, created]

section Found

variable {mgr : EquipmentMgr} {texts : List Text} {termId : Int}

theorem readFromDb_found (store : Stores mgr texts) (found : getReply texts termId ≠ notFoundReply)
    {tempTransHolder respJson json : Buf dataSize} {errMsg message : Buf errorMsgSize}
    {status : Status}
    (done : readFromDb mgr tempTransHolder termId respJson errMsg = .ok (status, json, message)) :
    status = .success ∧ json.cstr = .ok (getReply texts termId) := by
  have decided := readFromDb_decided store termId tempTransHolder respJson errMsg
  rw [done] at decided
  split at decided
  · obtain ⟨result, same, text⟩ := decided
    cases same
    cases status with
    | success => exact ⟨rfl, text⟩
    | fail => exact absurd text.2.2 found
  · cases decided

theorem readFromDb_found_ok (store : Stores mgr texts)
    (found : getReply texts termId ≠ notFoundReply)
    (short : (getReply texts termId).length < dataSize) (tempTransHolder respJson : Buf dataSize)
    (errMsg : Buf errorMsgSize) :
    ∃ json message,
      readFromDb mgr tempTransHolder termId respJson errMsg = .ok (.success, json, message) ∧
      json.cstr = .ok (getReply texts termId) := by
  have decided := readFromDb_decided store termId tempTransHolder respJson errMsg
  rw [if_pos short] at decided
  obtain ⟨⟨status, json, message⟩, done, _⟩ := decided
  obtain ⟨rfl, text⟩ := readFromDb_found store found done
  exact ⟨json, message, done, text⟩

end Found

/-! Writing. -/

theorem writeToDb_ok {mgr : EquipmentMgr} {texts : List Text} {text : Text}
    (store : Stores mgr texts) (room : (texts.length : Int) < intMax)
    (tempDataHolder : Buf dataSize) {json : Buf dataSize} (read : json.cstr = .ok text) :
    ∃ written reply, writeToDb mgr tempDataHolder json = .ok (written, reply) ∧
      Stores written (texts ++ [text]) ∧ reply.cstr = .ok (postReply (texts.length + 1)) ∧
      QueueSame mgr written := by
  obtain ⟨nodes, list⟩ := store.list
  have notFull : mgr.globalTermCtr ≠ intMax := by
    rw [store.counter]
    omega
  obtain ⟨node, created, id, content⟩ := createTerminalFromJson_ok notFull (Buf.cstr_length read)
  rw [store.counter] at id
  let entry : Int × Text := ((texts.length : Int) + 1, text)
  have holds : Holds (mgr.terminals.malloc.1.set mgr.terminals.brk node) mgr.terminals.brk entry :=
    ⟨(mgr.terminals.live_malloc _).mpr (Or.inr rfl), by simpa using id, by simpa using content⟩
  have fresh : mgr.terminals.brk ∉ nodes := fun member =>
    (list.linked.chain.live _ member).ne_brk rfl
  obtain ⟨added, addedOk, addedList, same, counter, kept⟩ :=
    addNodeToList_ok (list.setFresh node (mgr.globalTermCtr + 1)) holds fresh
  have last := kept.holds holds
  have bound : (postReply (texts.length + 1)).length < dataSize := by
    have short := postReply_length (texts.length + 1) (by omega) (by omega)
    have size : dataSize = 1024 := rfl
    omega
  have inner : (lit "\"terminalID\": " ++ decimal ((texts.length : Int) + 1)).length < dataSize := by
    rw [postReply, wrapResponse_length] at bound
    omega
  obtain ⟨held, heldOk, heldText⟩ := tempDataHolder.print_zero_ok inner
  obtain ⟨reply, replyOk, replyText⟩ := json.print_zero_ok bound
  refine ⟨added, reply, ?_, ⟨⟨nodes ++ [mgr.terminals.brk], ?_⟩, ?_, ?_⟩, replyText, ?_⟩
  · simp only [writeToDb, bind, Except.bind, read, created, addedOk, Heap.load_ok last.1, last.2.1,
      format_postId, heldOk, heldText, format_wrapResponse, entry]
    rw [postReply] at replyOk
    simp only [replyOk]
  · rw [numbered_snoc]
    exact addedList
  · rw [counter, store.counter]
    simp
  · simp only [List.length_append, List.length_cons, List.length_nil]
    omega
  · exact ⟨same.requests, same.list, same.tail, same.flag⟩

theorem writeToDb_full {mgr : EquipmentMgr} {texts : List Text} {text : Text}
    (store : Stores mgr texts) (full : (texts.length : Int) = intMax)
    (tempDataHolder : Buf dataSize) {json : Buf dataSize} (read : json.cstr = .ok text) :
    writeToDb mgr tempDataHolder json = .error .intOverflow := by
  simp only [writeToDb, createTerminalFromJson, bind, Except.bind, read,
    createNode_full (lit "") (store.counter.trans full)]

/-- The states of the store that posts lead to, with the texts posted so far. -/
inductive ReachableStore : EquipmentMgr → List Text → Prop
  | init (mgr : EquipmentMgr) : ReachableStore (mgrInit mgr) []
  | write {mgr written : EquipmentMgr} {texts : List Text} {text : Text}
      {tempDataHolder json reply : Buf dataSize} : ReachableStore mgr texts →
      json.cstr = .ok text → writeToDb mgr tempDataHolder json = .ok (written, reply) →
      ReachableStore written (texts ++ [text])
  | other {mgr next : EquipmentMgr} {texts : List Text} : ReachableStore mgr texts →
      StoreSame mgr next → ReachableStore next texts

theorem ReachableStore.stores {mgr : EquipmentMgr} {texts : List Text}
    (reachable : ReachableStore mgr texts) : Stores mgr texts := by
  induction reachable with
  | init mgr => exact Stores.mgrInit mgr
  | @write mgr written texts text tempDataHolder json reply _ read done ih =>
      rcases Int.lt_or_eq_of_le ih.bounded with room | full
      · obtain ⟨other, filled, same, stored, _⟩ := writeToDb_ok ih room tempDataHolder read
        rw [done] at same
        simp only [Except.ok.injEq, Prod.mk.injEq] at same
        rw [same.1]
        exact stored
      · rw [writeToDb_full ih full tempDataHolder read] at done
        cases done
  | other _ same ih => exact ih.congr same

theorem reachableStore_texts (texts : List Text) (fits : ∀ text ∈ texts, text.length < dataSize)
    (few : (texts.length : Int) ≤ intMax) : ∃ mgr, ReachableStore mgr texts := by
  induction texts using List.reverseRecOn with
  | nil => exact ⟨_, ReachableStore.init EquipmentMgr.blank⟩
  | append_singleton texts text ih =>
      simp only [List.length_append, List.length_singleton] at few
      obtain ⟨mgr, reachable⟩ := ih (fun other member => fits other (by simp [member])) (by omega)
      have read : (Buf.ofText dataSize text).cstr = .ok text :=
        Buf.ofText_cstr (fits text (by simp))
      obtain ⟨written, reply, done, _⟩ := writeToDb_ok reachable.stores (by omega)
        MgrLocals.blank.tempDataHolder read
      exact ⟨written, reachable.write read done⟩

theorem reachableStore_single {text : Text} (fits : text.length < dataSize) :
    ∃ mgr, ReachableStore mgr [text] :=
  reachableStore_texts [text] (by simpa using fits) (by simp [intMax])

end SmartPay
