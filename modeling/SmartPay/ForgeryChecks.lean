import SmartPay.ReplyDecoding

/-!
Whether a list reply tells its store. A text may hold what the encoder prints
between two terminals, so the reply is one of several stores; a store without
such texts is told from every store that is not smaller.
-/

namespace SmartPay

open CLib

/-! The reply between its texts. -/

/-- What follows the mark in the text between two terminals. -/
def boundaryTail (id : Nat) : List UInt8 :=
  (lit ", \"terminalID\": ").bytes ++ (decimalBytes id ++ (lit ", \"transactions\": [").bytes)

/-- What the encoder prints between the texts of two terminals, without the blanks around it. -/
def boundary (id : Nat) : List UInt8 := 93 :: boundaryTail id

/-- The reply from the text of the terminal with this id on. -/
def listBody : Nat → List Text → List UInt8
  | _, [] => []
  | _, [text] => (text.bytes ++ [32]) ++ 93 :: (lit " \x7d \x7d").bytes
  | id, text :: next :: rest =>
      (text.bytes ++ [32]) ++ (boundary (id + 1) ++ 32 :: listBody (id + 1) (next :: rest))

theorem mark_not_mem_tail (id : Nat) : 93 ∉ boundaryTail id := by
  have first : 93 ∉ (lit ", \"terminalID\": ").bytes := by decide
  have last : 93 ∉ (lit ", \"transactions\": [").bytes := by decide
  have middle : 93 ∉ decimalBytes id := fun member => by
    simpa [isDigit] using isDigit_of_mem_decimalBytes member
  simp only [boundaryTail, List.mem_append, not_or]
  exact ⟨first, middle, last⟩

theorem boundary_last (id : Nat) : (boundary id).getLast? ≠ some 32 := by
  have last : (lit ", \"transactions\": [").bytes.getLast? = some 91 := by decide
  rw [boundary, boundaryTail, ← List.append_assoc, ← List.cons_append, List.getLast?_append, last]
  simp

theorem joinFragments_bytes (id : Nat) (text : Text) (rest : List Text) :
    (joinFragments (numberedFrom id (text :: rest))).bytes ++ (lit " \x7d \x7d").bytes =
      (lit "\"terminalID\": ").bytes ++ (decimalBytes id ++ ((lit ", \"transactions\": [ ").bytes ++
        listBody id (text :: rest))) := by
  induction rest generalizing id text with
  | nil =>
      simp only [numberedFrom, joinFragments, fragment, Text.bytes_append, decimal_ofNat, listBody,
        List.append_assoc]
      rfl
  | cons next rest ih =>
      have closing : (lit " ]").bytes = [32, 93] := by decide
      have opening : (lit ", \"terminalID\": ").bytes =
          (lit ", ").bytes ++ (lit "\"terminalID\": ").bytes := by decide
      have list : (lit ", \"transactions\": [ ").bytes =
          (lit ", \"transactions\": [").bytes ++ [32] := by decide
      have following := ih (id + 1) next
      change (fragment (id, text) ++ lit ", " ++
        joinFragments (numberedFrom (id + 1) (next :: rest))).bytes ++ _ = _
      rw [Text.bytes_append, List.append_assoc, following]
      simp only [fragment, Text.bytes_append, decimal_ofNat, listBody, boundary, boundaryTail,
        closing, opening, list, List.append_assoc, List.cons_append, List.nil_append]
      rfl

theorem listReply_bytes (text : Text) (rest : List Text) :
    (listReply (numbered (text :: rest))).bytes =
      (lit "\x7b \"Response\": \x7b   ").bytes ++ ((lit "\"terminalID\": ").bytes ++
        (decimalBytes 1 ++
          ((lit ", \"transactions\": [ ").bytes ++ listBody 1 (text :: rest)))) := by
  rw [listReply, Text.bytes_append, Text.bytes_append, List.append_assoc, numbered,
    joinFragments_bytes]

theorem listReply_body {text other : Text} {rest others : List Text}
    (same : listReply (numbered (text :: rest)) = listReply (numbered (other :: others))) :
    listBody 1 (text :: rest) = listBody 1 (other :: others) := by
  have bytes := congrArg Text.bytes same
  rw [listReply_bytes, listReply_bytes] at bytes
  simpa only [List.append_cancel_left_eq] using bytes

/-! Where a boundary can stand. -/

theorem boundary_unique {id other : Nat} {after : List UInt8}
    (starts : boundary id <+: boundary other ++ 32 :: after) : id = other := by
  have comma : (lit ", \"transactions\": [").bytes.head? = some 44 := by decide
  have ends (rest : List UInt8) :
      ∀ c ∈ ((lit ", \"transactions\": [").bytes ++ rest).head?, isDigit c = false := by
    intro c head
    rw [List.head?_append, comma] at head
    obtain rfl : 44 = c := by simpa using head
    rfl
  obtain ⟨rest, split⟩ := starts
  simp only [boundary, boundaryTail, List.cons_append, List.append_assoc, List.cons.injEq,
    List.append_cancel_left_eq, true_and] at split
  exact (decimalBytes_unique (ends _) (ends _) split).1

theorem boundary_longer (id : Nat) : 5 < (boundary id).length := by
  have first : (lit ", \"terminalID\": ").bytes.length = 16 := by decide
  simp only [boundary, boundaryTail, List.length_cons, List.length_append, first]
  omega

theorem boundary_in_text {id : Nat} {text : Text} {after : List UInt8}
    (found : boundary id <:+: (text.bytes ++ [32]) ++ 93 :: after) :
    boundary id <:+: text.bytes ∨ boundary id <:+: 93 :: after :=
  (marked_inside (mark_not_mem_tail id) found).imp_left
    (infix_of_concat (List.cons_ne_nil _ _) (boundary_last id))

theorem boundary_behind {id other : Nat} {after : List UInt8}
    (found : boundary id <:+: boundaryTail other ++ 32 :: after) : boundary id <:+: after := by
  rcases List.infix_cons_iff.mp (marked_skip (mark_not_mem_tail other) found) with
    blank | later
  · exact absurd (List.cons_prefix_cons.mp blank).1 (by decide)
  · exact later

/-- A boundary in the reply stands in one of the texts, or between the terminals it belongs to. -/
theorem boundary_in_listBody {id first : Nat} {texts : List Text}
    (found : boundary id <:+: listBody first texts) :
    (∃ text ∈ texts, boundary id <:+: text.bytes) ∨ first < id ∧ id < first + texts.length := by
  induction texts generalizing first with
  | nil =>
      have length := found.length_le
      simp [listBody, boundary] at length
  | cons text rest ih =>
      cases rest with
      | nil =>
          rcases boundary_in_text found with inside | behind
          · exact Or.inl ⟨text, by simp, inside⟩
          · have length := behind.length_le
            have longer := boundary_longer id
            have closing : (lit " \x7d \x7d").bytes.length = 4 := by decide
            rw [List.length_cons, closing] at length
            omega
      | cons next rest =>
          rcases boundary_in_text found with inside | behind
          · exact Or.inl ⟨text, by simp, inside⟩
          · rcases List.infix_cons_iff.mp behind with here | later
            · obtain rfl := boundary_unique here
              right
              simp only [List.length_cons]
              omega
            · rcases ih (boundary_behind later) with ⟨other, member, inside⟩ | ⟨low, high⟩
              · exact Or.inl ⟨other, List.mem_cons_of_mem _ member, inside⟩
              · right
                simp only [List.length_cons] at high ⊢
                omega

/-! Which store a reply tells. -/

/-- No text holds what the encoder prints between two terminals. -/
def Unforged (texts : List Text) : Prop :=
  ∀ text ∈ texts, ∀ id, 2 ≤ id → ¬boundary id <:+: text.bytes

theorem listBody_ne_nil (first : Nat) (text : Text) (rest : List Text) :
    listBody first (text :: rest) ≠ [] := by
  cases rest <;> simp [listBody]

section Bodies

variable {first : Nat} {text other next following : Text} {rest later : List Text}

theorem Unforged.tail (unforged : Unforged (text :: rest)) : Unforged rest :=
  fun stored member => unforged stored (List.mem_cons_of_mem text member)

/-- A boundary that no text forges tells that there is a second terminal. -/
theorem listBody_ne_longer (positive : 1 ≤ first) (unforged : Unforged [text]) :
    listBody first [text] ≠ listBody first (other :: following :: later) := by
  intro same
  have found : boundary (first + 1) <:+: listBody first [text] := by
    rw [same]
    exact (List.infix_append' _ _ _)
  rcases boundary_in_listBody found with ⟨stored, member, inside⟩ | ⟨_, high⟩
  · exact unforged stored member (first + 1) (by omega) inside
  · simp at high

/-- A boundary that no text forges tells where the first text ends. -/
theorem listBody_split (positive : 1 ≤ first) (unforged : Unforged (text :: next :: rest))
    (same : listBody first (text :: next :: rest) = listBody first (other :: following :: later)) :
    text = other ∧
      listBody (first + 1) (next :: rest) = listBody (first + 1) (following :: later) := by
  have notBefore : ¬boundary (first + 1) <:+: text.bytes ++ [32] := by
    intro found
    have inside := infix_of_concat (List.cons_ne_nil _ _) (boundary_last _) found
    exact unforged text (List.mem_cons_self ..) (first + 1) (by omega) inside
  have notBehind : ¬boundary (first + 1) <:+:
      boundaryTail (first + 1) ++ 32 :: listBody (first + 1) (next :: rest) := by
    intro found
    rcases boundary_in_listBody (boundary_behind found) with ⟨stored, member, inside⟩ | ⟨low, _⟩
    · exact unforged.tail stored member (first + 1) (by omega) inside
    · omega
  obtain ⟨texts, bodies⟩ := marked_place (mark_not_mem_tail (first + 1)) notBefore notBehind
    (List.prefix_append _ _) same
  exact ⟨Text.ext (List.append_cancel_right texts),
    (List.cons.inj (List.append_cancel_left bodies)).2⟩

end Bodies

theorem listBody_inj {first : Nat} {texts others : List Text} (positive : 1 ≤ first)
    (unforged : Unforged texts) (fewer : texts.length ≤ others.length)
    (same : listBody first texts = listBody first others) : texts = others := by
  induction texts generalizing first others with
  | nil =>
      cases others with
      | nil => rfl
      | cons other later => exact absurd same.symm (listBody_ne_nil first other later)
  | cons text rest ih =>
      cases rest with
      | nil =>
          cases others with
          | nil => simp at fewer
          | cons other later =>
              cases later with
              | nil =>
                  have bytes := List.append_cancel_right (List.append_cancel_right same)
                  rw [Text.ext bytes]
              | cons following later => exact absurd same (listBody_ne_longer positive unforged)
      | cons next rest =>
          cases others with
          | nil => simp at fewer
          | cons other later =>
              cases later with
              | nil => simp at fewer
              | cons following later =>
                  obtain ⟨rfl, bodies⟩ := listBody_split positive unforged same
                  rw [ih (by omega) unforged.tail (by simpa using fewer) bodies]

theorem listReply_inj {texts others : List Text} (some : texts ≠ []) (unforged : Unforged texts)
    (fewer : texts.length ≤ others.length)
    (same : listReply (numbered texts) = listReply (numbered others)) : texts = others := by
  obtain ⟨text, rest, rfl⟩ := List.exists_cons_of_ne_nil some
  cases others with
  | nil => simp at fewer
  | cons other later =>
      exact listBody_inj (Nat.le_refl 1) unforged fewer (listReply_body same)

/-- Two stores with the same list reply are the same when the one with no more terminals than the
other has no text that forges a boundary. -/
theorem list_reply_tells_store {mgr other : EquipmentMgr} {texts others : List Text}
    (reachable : ReachableStore mgr texts) (otherReachable : ReachableStore other others)
    (some : texts ≠ []) (fewer : texts.length ≤ others.length) (unforged : Unforged texts)
    {tempTransHolder respJson json otherHolder otherJson reply : Buf dataSize}
    {errMsg message otherMsg otherMessage : Buf errorMsgSize} {status otherStatus : Status}
    (read : readFromDb mgr tempTransHolder all respJson errMsg = .ok (status, json, message))
    (otherRead : readFromDb other otherHolder all otherJson otherMsg =
      .ok (otherStatus, reply, otherMessage))
    (same : json.cstr = reply.cstr) : numbered texts = numbered others := by
  have otherSome : others ≠ [] := by
    rintro rfl
    exact some (List.length_eq_zero_iff.mp (Nat.le_zero.mp fewer))
  rw [(readFromDb_all reachable.stores some read).2,
    (readFromDb_all otherReachable.stores otherSome otherRead).2] at same
  rw [listReply_inj some unforged fewer (Except.ok.inj same)]

def postTexts (mgr : EquipmentMgr) : List Text → Except Fault EquipmentMgr
  | [] => .ok mgr
  | text :: rest => do
      let (written, _) ← writeToDb mgr MgrLocals.blank.tempDataHolder (Buf.ofText dataSize text)
      postTexts written rest

theorem postTexts_reachable {mgr final : EquipmentMgr} {before texts : List Text}
    (reachable : ReachableStore mgr before) (short : ∀ text ∈ texts, text.length < dataSize)
    (done : postTexts mgr texts = .ok final) : ReachableStore final (before ++ texts) := by
  induction texts generalizing mgr before with
  | nil =>
      cases done
      rwa [List.append_nil]
  | cons text rest ih =>
      obtain ⟨⟨written, reply⟩, wrote, done⟩ := bind_eq_ok.mp done
      have read : (Buf.ofText dataSize text).cstr = .ok text :=
        Buf.ofText_cstr (short text (by simp))
      rw [List.append_cons]
      exact ih (reachable.write read wrote) (fun other member => short other (by simp [member]))
        done

/-- One store built where the heap is fresh, the other behind a terminal that a store of before has
left, and the two replies read into arrays with different bytes. -/
theorem list_reply_tells_store_two :
    ∃ mgr other, ReachableStore mgr [lit "x", lit "y"] ∧
      ReachableStore other [lit "x", lit "y"] ∧ mgr.termList ≠ other.termList ∧
      ∃ json message reply otherMessage,
        readFromDb mgr MgrLocals.blank.tempTransHolder all (Buf.ofText dataSize (lit ""))
          MgrLocals.blank.errMsg = .ok (.success, json, message) ∧
        readFromDb other MgrLocals.blank.tempTransHolder all (Buf.ofText dataSize (lit "left over"))
          MgrLocals.blank.errMsg = .ok (.success, reply, otherMessage) ∧
        json.cstr = reply.cstr ∧ numbered [lit "x", lit "y"] = numbered [lit "x", lit "y"] := by
  have short : ∀ text ∈ [lit "x", lit "y"], text.length < dataSize := by decide
  obtain ⟨mgr, done, first⟩ := map_eq_ok
    (show (postTexts (mgrInit EquipmentMgr.blank) [lit "x", lit "y"]).map
      EquipmentMgr.termList = .ok (some 0) by decide +kernel)
  obtain ⟨other, again, second⟩ := map_eq_ok
    (show (postTexts (mgrInit { EquipmentMgr.blank with
        terminals := EquipmentMgr.blank.terminals.malloc.1 }) [lit "x", lit "y"]).map
      EquipmentMgr.termList = .ok (some 1) by decide +kernel)
  have reachable := postTexts_reachable (.init _) short done
  have otherReachable := postTexts_reachable (.init _) short again
  obtain ⟨reply, found⟩ := getReply_all (show [lit "x", lit "y"] ≠ [] by simp)
  have fits : (getReply [lit "x", lit "y"] all).length < dataSize := by decide
  obtain ⟨json, message, read, text⟩ := readFromDb_found_ok reachable.stores found fits
    MgrLocals.blank.tempTransHolder (Buf.ofText dataSize (lit "")) MgrLocals.blank.errMsg
  obtain ⟨otherJson, otherMessage, otherRead, otherText⟩ :=
    readFromDb_found_ok otherReachable.stores found fits MgrLocals.blank.tempTransHolder
      (Buf.ofText dataSize (lit "left over")) MgrLocals.blank.errMsg
  have unforged : Unforged [lit "x", lit "y"] := by
    intro text member id _ found
    have length := found.length_le
    have longer := boundary_longer id
    have short : ∀ text ∈ [lit "x", lit "y"], text.bytes.length = 1 := by decide
    rw [short text member] at length
    omega
  have same : json.cstr = otherJson.cstr := text.trans otherText.symm
  refine ⟨mgr, other, reachable, otherReachable, ?_, json, message, otherJson, otherMessage, read,
    otherRead, same, list_reply_tells_store reachable otherReachable (by simp) (Nat.le_refl _)
      unforged read otherRead same⟩
  rw [first, second]
  decide

/-! Forging. -/

/-- One text that prints like the texts of two terminals. -/
def forgedText (id : Nat) (first second : Text) : Text :=
  first ++ lit " ], \"terminalID\": " ++ decimalNat id ++ lit ", \"transactions\": [ " ++ second

theorem joinFragments_append (before : List (Int × Text)) {entries : List (Int × Text)}
    (nonempty : entries ≠ []) :
    joinFragments (before ++ entries) = appendedFragments before ++ joinFragments entries := by
  induction before with
  | nil => rfl
  | cons entry rest ih =>
      obtain ⟨next, later, split⟩ := List.exists_cons_of_ne_nil
        (List.append_ne_nil_of_right_ne_nil rest nonempty)
      rw [split] at ih
      rw [List.cons_append, split, joinFragments, ih, appendedFragments]
      simp only [Text.append_assoc]

theorem fragment_forged (k : Nat) (first second : Text) :
    fragment (k, forgedText (k + 1) first second) =
      fragment (k, first) ++ lit ", " ++ fragment ((k + 1 : Nat), second) := by
  have opening : (lit " ], \"terminalID\": ").bytes =
      (lit " ]").bytes ++ ((lit ", ").bytes ++ (lit "\"terminalID\": ").bytes) := by decide
  ext1
  simp only [fragment, forgedText, Text.bytes_append, decimal_ofNat, opening, List.append_assoc]

/-- Every store with two terminals has the list reply of a store with one terminal less. -/
theorem listReply_forged (before : List Text) (first second : Text) :
    listReply (numbered (before ++ [first, second])) =
      listReply (numbered (before ++ [forgedText (before.length + 2) first second])) := by
  have split (texts : List Text) (some : numberedFrom (1 + before.length) texts ≠ []) :
      joinFragments (numbered (before ++ texts)) =
        appendedFragments (numbered before) ++
          joinFragments (numberedFrom (1 + before.length) texts) := by
    rw [numbered, numberedFrom_append, joinFragments_append _ some]
    rfl
  have position : before.length + 2 = 1 + before.length + 1 := by omega
  rw [listReply, listReply, split _ (by simp [numberedFrom]), split _ (by simp [numberedFrom]),
    position]
  simp only [numberedFrom, joinFragments, fragment_forged]

theorem forged_terminal :
    ∃ mgr other, ReachableStore mgr [lit "x", lit "y"] ∧
      ReachableStore other [forgedText 2 (lit "x") (lit "y")] ∧ ∃ json reply message otherMessage,
      readFromDb mgr MgrLocals.blank.tempTransHolder all (Buf.ofText dataSize (lit ""))
        MgrLocals.blank.errMsg = .ok (.success, json, message) ∧
      readFromDb other MgrLocals.blank.tempTransHolder all (Buf.ofText dataSize (lit ""))
        MgrLocals.blank.errMsg = .ok (.success, reply, otherMessage) ∧
      json.cstr = reply.cstr ∧
      numbered [lit "x", lit "y"] ≠ numbered [forgedText 2 (lit "x") (lit "y")] := by
  obtain ⟨mgr, reachable, json, message, read, text⟩ :=
    reachable_read_all [lit "x", lit "y"] (by simp) (by decide) (by decide) (by decide)
  obtain ⟨other, otherReachable, reply, otherMessage, otherRead, otherText⟩ :=
    reachable_read_all [forgedText 2 (lit "x") (lit "y")] (by simp) (by decide) (by decide)
      (by decide)
  refine ⟨mgr, other, reachable, otherReachable, json, reply, message, otherMessage, read,
    otherRead, ?_, by decide⟩
  rw [text, otherText]
  exact congrArg Except.ok (listReply_forged [] (lit "x") (lit "y"))

end SmartPay
