import SmartPay.CNumeral
import SmartPay.EncoderChecks

/-!
What a reply tells its reader. The texts in a reply are neither escaped nor
checked, but the id in front of them ends at the first byte that is no digit, so
the id and the text of a single terminal can always be read back.
-/

namespace SmartPay

open CLib

/-! The reply texts. -/

/-- What a reply with one id holds from the id on. -/
def afterId : Option Text → List UInt8
  | none => (lit " \x7d \x7d").bytes
  | some text => (lit ", \"transactions\": [ ").bytes ++ text.bytes ++ (lit " ] \x7d \x7d").bytes

def beforeId : List UInt8 := (lit "\x7b \"Response\": \x7b \"terminalID\": ").bytes

theorem postReply_bytes (n : Nat) :
    (postReply n).bytes = beforeId ++ (decimalBytes n ++ afterId none) := by
  simp only [postReply, wrapResponse, Text.bytes_append, decimal_ofNat, List.append_assoc]
  rfl

theorem singleReply_bytes (n : Nat) (text : Text) :
    (singleReply (n, text)).bytes = beforeId ++ (decimalBytes n ++ afterId (some text)) := by
  have front : beforeId =
      (lit "\x7b \"Response\": \x7b ").bytes ++ (lit "\"terminalID\": ").bytes := by
    decide
  have back : (lit " ] \x7d \x7d").bytes = (lit " ]").bytes ++ (lit " \x7d \x7d").bytes := by decide
  simp only [singleReply, wrapResponse, fragment, Text.bytes_append, decimal_ofNat, afterId, front,
    back, List.append_assoc]
  rfl

theorem afterId_head (content : Option Text) :
    (afterId content).head? = some (if content.isSome then 44 else 32) := by
  cases content with
  | none => decide
  | some text =>
      have comma : (lit ", \"transactions\": [ ").bytes.head? = some 44 := by decide
      rw [afterId, List.append_assoc, List.head?_append, comma]
      rfl

theorem afterId_ends (content : Option Text) :
    ∀ c ∈ (afterId content).head?, isDigit c = false := by
  intro c head
  rw [afterId_head, Option.mem_some_iff] at head
  subst c
  split
  · rfl
  · rfl

theorem afterId_inj {first second : Option Text} (same : afterId first = afterId second) :
    first = second := by
  have different (text : Text) : afterId none ≠ afterId (some text) := by
    intro equal
    have heads := congrArg List.head? equal
    rw [afterId_head, afterId_head] at heads
    simp at heads
  cases first with
  | none =>
      cases second with
      | none => rfl
      | some text => exact absurd same (different text)
  | some text =>
      cases second with
      | none => exact absurd same.symm (different text)
      | some other =>
          have bytes := List.append_cancel_left (List.append_cancel_right same)
          rw [Text.ext bytes]

theorem idReply_unique {n k : Nat} {first second : Option Text}
    (same : beforeId ++ (decimalBytes n ++ afterId first) =
      beforeId ++ (decimalBytes k ++ afterId second)) : n = k ∧ first = second := by
  obtain ⟨ids, rest⟩ := decimalBytes_unique (afterId_ends first) (afterId_ends second)
    (List.append_cancel_left same)
  exact ⟨ids, afterId_inj rest⟩

theorem postReply_inj {first second : Int} (firstLow : 0 ≤ first) (secondLow : 0 ≤ second)
    (same : postReply first = postReply second) : first = second := by
  obtain ⟨n, rfl⟩ := Int.eq_ofNat_of_zero_le firstLow
  obtain ⟨k, rfl⟩ := Int.eq_ofNat_of_zero_le secondLow
  have bytes := congrArg Text.bytes same
  rw [postReply_bytes, postReply_bytes] at bytes
  exact congrArg Nat.cast (idReply_unique bytes).1

theorem singleReply_inj {first second : Int × Text} (firstLow : 0 ≤ first.1)
    (secondLow : 0 ≤ second.1) (same : singleReply first = singleReply second) :
    first = second := by
  obtain ⟨id, text⟩ := first
  obtain ⟨other, content⟩ := second
  obtain ⟨n, rfl⟩ : ∃ n : Nat, id = n := Int.eq_ofNat_of_zero_le firstLow
  obtain ⟨k, rfl⟩ : ∃ k : Nat, other = k := Int.eq_ofNat_of_zero_le secondLow
  have bytes := congrArg Text.bytes same
  rw [singleReply_bytes, singleReply_bytes] at bytes
  obtain ⟨ids, contents⟩ := idReply_unique bytes
  rw [ids, Option.some.inj contents]

theorem postReply_ne_singleReply {id : Int} {entry : Int × Text} (low : 0 ≤ id)
    (entryLow : 0 ≤ entry.1) : postReply id ≠ singleReply entry := by
  obtain ⟨other, content⟩ := entry
  obtain ⟨n, rfl⟩ := Int.eq_ofNat_of_zero_le low
  obtain ⟨k, rfl⟩ : ∃ k : Nat, other = k := Int.eq_ofNat_of_zero_le entryLow
  intro same
  have bytes := congrArg Text.bytes same
  rw [postReply_bytes, singleReply_bytes] at bytes
  cases (idReply_unique bytes).2

/-! The kinds of reply. -/

/-- What a reply is written for. -/
inductive ReplyKind
  | post (id : Int)
  | single (entry : Int × Text)
  | list (entries : List (Int × Text))
  | notFound

inductive ReplyShape
  | oneId
  | list
  | error
  deriving DecidableEq

/-- The bytes that tell the shapes apart. -/
def ReplyShape.mark : ReplyShape → List UInt8
  | oneId => (lit "\x7b \"Response\": \x7b \"").bytes
  | list => (lit "\x7b \"Response\": \x7b  ").bytes
  | error => (lit "\x7b \"error\": \x7b No s").bytes

theorem ReplyShape.mark_inj {first second : ReplyShape} (same : first.mark = second.mark) :
    first = second := by
  revert same
  cases first <;> cases second <;> decide

namespace ReplyKind

def text : ReplyKind → Text
  | post id => postReply id
  | single entry => singleReply entry
  | list entries => listReply entries
  | notFound => notFoundReply

def shape : ReplyKind → ReplyShape
  | post _ => .oneId
  | single _ => .oneId
  | list _ => .list
  | notFound => .error

/-- The ids that a reply can be written for. -/
def Proper : ReplyKind → Prop
  | post id => 1 ≤ id ∧ id ≤ intMax
  | single entry => 1 ≤ entry.1 ∧ entry.1 ≤ intMax
  | list entries => entries ≠ []
  | notFound => True

/-- What two replies have in common when their bytes are the same. -/
def Agree : ReplyKind → ReplyKind → Prop
  | post id, post other => id = other
  | single entry, single other => entry = other
  | list _, list _ => True
  | notFound, notFound => True
  | _, _ => False

theorem text_mark (kind : ReplyKind) : kind.text.bytes.take 17 = kind.shape.mark := by
  cases kind <;> rfl

theorem shape_of_text {first second : ReplyKind} (same : first.text = second.text) :
    first.shape = second.shape := by
  apply ReplyShape.mark_inj
  rw [← text_mark, ← text_mark, same]

theorem text_ne (first second : ReplyKind) (different : first.shape ≠ second.shape) :
    first.text ≠ second.text := fun same => different (shape_of_text same)

theorem agree_of_text {first second : ReplyKind} (firstProper : first.Proper)
    (secondProper : second.Proper) (same : first.text = second.text) : Agree first second := by
  have shapes := shape_of_text same
  have low {id : Int} (proper : 1 ≤ id ∧ id ≤ intMax) : 0 ≤ id := Int.le_of_lt proper.1
  cases first with
  | post id =>
      cases second with
      | post other => exact postReply_inj (low firstProper) (low secondProper) same
      | single entry =>
          exact absurd same (postReply_ne_singleReply (low firstProper) (low secondProper))
      | list entries => cases shapes
      | notFound => cases shapes
  | single entry =>
      cases second with
      | post id =>
          exact absurd same.symm (postReply_ne_singleReply (low secondProper) (low firstProper))
      | single other => exact singleReply_inj (low firstProper) (low secondProper) same
      | list entries => cases shapes
      | notFound => cases shapes
  | list entries =>
      cases second with
      | list others => trivial
      | post id => cases shapes
      | single entry => cases shapes
      | notFound => cases shapes
  | notFound =>
      cases second with
      | notFound => trivial
      | post id => cases shapes
      | single entry => cases shapes
      | list entries => cases shapes

end ReplyKind

/-! What the code writes. -/

theorem createTerminalFromJson_counts {mgr created : EquipmentMgr} {json : Text} {p : Nat}
    (done : createTerminalFromJson mgr json = .ok (created, p)) :
    created.globalTermCtr = mgr.globalTermCtr + 1 ∧ mgr.globalTermCtr ≠ intMax ∧
      (created.terminals.content p).id = mgr.globalTermCtr + 1 := by
  obtain ⟨⟨middle, newNode⟩, first, done⟩ := bind_eq_ok.mp done
  obtain ⟨node, loaded, done⟩ := bind_eq_ok.mp done
  obtain ⟨transactions, _, done⟩ := bind_eq_ok.mp done
  obtain ⟨terminals, stored, done⟩ := bind_eq_ok.mp done
  cases done
  obtain ⟨_, rfl⟩ := Heap.load_eq_ok loaded
  obtain ⟨_, rfl⟩ := Heap.store_eq_ok stored
  simp only [createNode] at first
  split at first
  · cases first
  · rename_i room
    obtain ⟨fresh, _, first⟩ := bind_eq_ok.mp first
    obtain ⟨empty, _, first⟩ := bind_eq_ok.mp first
    obtain ⟨made, madeOk, first⟩ := bind_eq_ok.mp first
    cases first
    obtain ⟨_, rfl⟩ := Heap.store_eq_ok madeOk
    refine ⟨rfl, room, ?_⟩
    simp only [Heap.set_content_same]

/-- Whatever the store holds, a write that ends has replied with the id it gave out. -/
theorem writeToDb_reply {mgr written : EquipmentMgr} {tempDataHolder json reply : Buf dataSize}
    (done : writeToDb mgr tempDataHolder json = .ok (written, reply)) :
    reply.cstr = .ok (postReply written.globalTermCtr) ∧
      written.globalTermCtr = mgr.globalTermCtr + 1 ∧ mgr.globalTermCtr ≠ intMax := by
  obtain ⟨text, _, done⟩ := bind_eq_ok.mp done
  obtain ⟨⟨created, newNode⟩, first, done⟩ := bind_eq_ok.mp done
  obtain ⟨⟨added, id⟩, second, done⟩ := bind_eq_ok.mp done
  obtain ⟨node, loaded, done⟩ := bind_eq_ok.mp done
  obtain ⟨holder, held, done⟩ := bind_eq_ok.mp done
  obtain ⟨content, read, done⟩ := bind_eq_ok.mp done
  obtain ⟨printed, replied, done⟩ := bind_eq_ok.mp done
  cases done
  obtain ⟨counter, room, newId⟩ := createTerminalFromJson_counts first
  obtain ⟨sameCounter, kept⟩ := addNodeToList_keeps second
  obtain ⟨_, rfl⟩ := Heap.load_eq_ok loaded
  have nodeId : (written.terminals.content newNode).id = written.globalTermCtr := by
    rw [FieldOnly.keeps kept Terminals.id (fun _ _ => rfl) newNode, newId, sameCounter, counter]
  refine ⟨?_, sameCounter.trans counter, room⟩
  have heldText := Buf.print_zero_cstr held
  rw [read, format_postId, nodeId] at heldText
  simp only [Except.ok.injEq] at heldText
  have replyText := Buf.print_zero_cstr replied
  rwa [heldText, format_wrapResponse] at replyText

theorem readFromDb_fail {size : Nat} {mgr : EquipmentMgr} {tempTransHolder : Buf dataSize}
    {termId : Int} {respJson json : Buf size} {errMsg message : Buf errorMsgSize}
    (done : readFromDb mgr tempTransHolder termId respJson errMsg = .ok (.fail, json, message)) :
    message.cstr = .ok notFoundReply := by
  obtain ⟨terms, _, done⟩ := bind_eq_ok.mp done
  cases terms with
  | none =>
      obtain ⟨printed, written, done⟩ := bind_eq_ok.mp done
      cases done
      rw [format_notFound] at written
      exact Buf.print_zero_cstr written
  | some terms =>
      obtain ⟨filled, _, done⟩ := bind_eq_ok.mp done
      cases done

/-- The code leaves the text in the reply array for this kind of reply. -/
inductive Writes : ReplyKind → Text → Prop
  | post {mgr written : EquipmentMgr} {tempDataHolder json reply : Buf dataSize} {text : Text} :
      0 ≤ mgr.globalTermCtr → mgr.globalTermCtr ≤ intMax →
      writeToDb mgr tempDataHolder json = .ok (written, reply) → reply.cstr = .ok text →
      Writes (.post written.globalTermCtr) text
  | single {size : Nat} {mgr : EquipmentMgr} {p : Nat} {entry : Int × Text}
      {tempTransHolder : Buf dataSize} {respJson filled : Buf size} {text : Text} :
      1 ≤ entry.1 → entry.1 ≤ intMax → Holds mgr.terminals p entry →
      createJsonFromList mgr tempTransHolder p entry.1 respJson = .ok filled →
      filled.cstr = .ok text → Writes (.single entry) text
  | list {size : Nat} {mgr : EquipmentMgr} {nodes : List Nat} {entries : List (Int × Text)}
      {tempTransHolder : Buf dataSize} {terms : Nat} {respJson filled : Buf size} {text : Text} :
      StoreList mgr nodes entries → entries ≠ [] →
      createJsonFromList mgr tempTransHolder terms all respJson = .ok filled →
      filled.cstr = .ok text → Writes (.list entries) text
  | notFound {size : Nat} {mgr : EquipmentMgr} {tempTransHolder : Buf dataSize} {termId : Int}
      {respJson json : Buf size} {errMsg message : Buf errorMsgSize} {text : Text} :
      readFromDb mgr tempTransHolder termId respJson errMsg = .ok (.fail, json, message) →
      message.cstr = .ok text → Writes .notFound text

theorem Writes.text {kind : ReplyKind} {text : Text} (wrote : Writes kind text) :
    kind.Proper ∧ text = kind.text := by
  cases wrote with
  | post low high done read =>
      obtain ⟨reply, counter, room⟩ := writeToDb_reply done
      rw [read] at reply
      simp only [Except.ok.injEq] at reply
      refine ⟨⟨?_, ?_⟩, reply⟩
      · omega
      · omega
  | @single size mgr p entry tempTransHolder respJson filled text low high holds done read =>
      refine ⟨⟨low, high⟩, ?_⟩
      have named : entry.1 ≠ all := by
        simp only [all]
        omega
      have decided := createJsonFromList_one holds named tempTransHolder respJson
      rw [done] at decided
      split at decided
      · obtain ⟨other, same, reply⟩ := decided
        cases same
        rw [read] at reply
        exact Except.ok.inj reply
      · cases decided
  | list list nonempty done read =>
      refine ⟨nonempty, ?_⟩
      have reply := (createJsonFromList_all_fits list nonempty done).2
      rw [read] at reply
      exact Except.ok.inj reply
  | notFound done read =>
      refine ⟨trivial, ?_⟩
      have message := readFromDb_fail done
      rw [read] at message
      exact Except.ok.inj message

/-- Replies with the same bytes are of one kind, and a reply with one id tells it and its text. -/
theorem replies_decode {first second : ReplyKind} {text : Text} (wrote : Writes first text)
    (again : Writes second text) : first.Agree second := by
  obtain ⟨firstProper, firstText⟩ := wrote.text
  obtain ⟨secondProper, secondText⟩ := again.text
  exact ReplyKind.agree_of_text firstProper secondProper (firstText.symm.trans secondText)

theorem reachable_writes_single {mgr : EquipmentMgr} {texts : List Text} {text : Text}
    (reachable : ReachableStore mgr (text :: texts)) (respJson : Buf dataSize)
    (fits : (fragment (1, text)).length < dataSize ∧ (singleReply (1, text)).length < dataSize) :
    Writes (.single (1, text)) (singleReply (1, text)) := by
  obtain ⟨nodes, list⟩ := reachable.stores.list
  have first : (numbered (text :: texts)).find? (fun entry => entry.1 == 1) = some (1, text) := by
    simp [numbered, numberedFrom]
  have found := getTerminalById_find list 1
  rw [first] at found
  obtain ⟨p, _, _, holds⟩ := found
  have created := createJsonFromList_one holds (show (1 : Int) ≠ all by decide)
    MgrLocals.blank.tempTransHolder respJson
  rw [if_pos fits] at created
  obtain ⟨filled, done, read⟩ := created
  exact .single (Int.le_refl 1) (show (1 : Int) ≤ intMax by decide) holds done read

/-- A text that reads on as the reply for two terminals, printed from two different stores into
arrays with different bytes. -/
theorem replies_decode_first :
    ∃ forged, forged = lit "x ], \"terminalID\": 2, \"transactions\": [ y" ∧
      Writes (.single (1, forged)) (singleReply (1, forged)) ∧
      (ReplyKind.single (1, forged)).Agree (.single (1, forged)) ∧
      ∀ entries, ¬Writes (.list entries) (singleReply (1, forged)) := by
  refine ⟨_, rfl, ?_⟩
  obtain ⟨mgr, alone⟩ := reachableStore_texts
    [lit "x ], \"terminalID\": 2, \"transactions\": [ y"] (by decide) (by decide)
  obtain ⟨other, among⟩ := reachableStore_texts
    [lit "x ], \"terminalID\": 2, \"transactions\": [ y", lit "z"] (by decide) (by decide)
  have wrote := reachable_writes_single alone (Buf.ofText dataSize (lit "")) (by decide)
  have again := reachable_writes_single among (Buf.ofText dataSize (lit "left over")) (by decide)
  exact ⟨wrote, replies_decode wrote again, fun entries listed => replies_decode wrote listed⟩

/-! What a read tells. -/

theorem listReply_ne_notFound (entries : List (Int × Text)) : listReply entries ≠ notFoundReply :=
  ReplyKind.text_ne (.list entries) .notFound (by simp [ReplyKind.shape])

theorem singleReply_ne_notFound (entry : Int × Text) : singleReply entry ≠ notFoundReply :=
  ReplyKind.text_ne (.single entry) .notFound (by simp [ReplyKind.shape])

theorem listReply_ne_singleReply (entries : List (Int × Text)) (entry : Int × Text) :
    listReply entries ≠ singleReply entry :=
  ReplyKind.text_ne (.list entries) (.single entry) (by simp [ReplyKind.shape])

theorem getReply_all {texts : List Text} (some : texts ≠ []) :
    getReply texts all = listReply (numbered texts) ∧ getReply texts all ≠ notFoundReply := by
  have reply : getReply texts all = listReply (numbered texts) := by simp [getReply, some]
  rw [reply]
  exact ⟨rfl, listReply_ne_notFound _⟩

theorem readFromDb_all {mgr : EquipmentMgr} {texts : List Text} (store : Stores mgr texts)
    (some : texts ≠ []) {tempTransHolder respJson json : Buf dataSize}
    {errMsg message : Buf errorMsgSize} {status : Status}
    (done : readFromDb mgr tempTransHolder all respJson errMsg = .ok (status, json, message)) :
    status = .success ∧ json.cstr = .ok (listReply (numbered texts)) := by
  obtain ⟨reply, found⟩ := getReply_all some
  rw [← reply]
  exact readFromDb_found store found done

theorem reachable_read_all (texts : List Text) (some : texts ≠ [])
    (short : ∀ text ∈ texts, text.length < dataSize) (few : (texts.length : Int) ≤ intMax)
    (fits : (getReply texts all).length < dataSize) :
    ∃ mgr, ReachableStore mgr texts ∧ ∃ json message,
      readFromDb mgr MgrLocals.blank.tempTransHolder all (Buf.ofText dataSize (lit ""))
        MgrLocals.blank.errMsg = .ok (.success, json, message) ∧
      json.cstr = .ok (listReply (numbered texts)) := by
  obtain ⟨mgr, reachable⟩ := reachableStore_texts texts short few
  obtain ⟨reply, found⟩ := getReply_all some
  obtain ⟨json, message, read, text⟩ := readFromDb_found_ok reachable.stores found fits
    MgrLocals.blank.tempTransHolder (Buf.ofText dataSize (lit "")) MgrLocals.blank.errMsg
  exact ⟨mgr, reachable, json, message, read, by rw [text, reply]⟩

end SmartPay
