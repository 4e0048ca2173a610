import SmartPay.JsonUnique
import SmartPay.ReplyBounds
import SmartPay.ReplyDecoding

/-!
The replies as JSON. A store whose texts are lists of values is told in JSON
texts; but the list reply names the members of every terminal alike, so a reader
that keeps one member of a name is left with the last terminal.
-/

namespace SmartPay

open CLib

/-! The trees of the replies. -/

def responseName : List UInt16 := asciiUnits (lit "Response").bytes

def idName : List UInt16 := asciiUnits (lit "terminalID").bytes

def transactionsName : List UInt16 := asciiUnits (lit "transactions").bytes

def terminalMembers (id : Nat) (trees : List Json) : List (List UInt16 × Json) :=
  [(idName, .ofNat id), (transactionsName, .array trees)]

/-- The members of the terminals with ids from this one on. -/
def storeMembers : Nat → List (List Json) → List (List UInt16 × Json)
  | _, [] => []
  | id, trees :: rest => terminalMembers id trees ++ storeMembers (id + 1) rest

def responseTree (entries : List (List UInt16 × Json)) : Json :=
  .object [(responseName, .object entries)]

def Tells {size : Nat} (json : Buf size) (tree : Json) : Prop :=
  ∃ reply, json.cstr = .ok reply ∧ JsonText tree reply.bytes

theorem Tells.unique {size : Nat} {json : Buf size} {tree other : Json} (first : Tells json tree)
    (second : Tells json other) : tree = other := by
  obtain ⟨reply, read, derived⟩ := first
  obtain ⟨again, readAgain, otherDerived⟩ := second
  rw [read] at readAgain
  cases readAgain
  exact derived.unique otherDerived

/-! The texts of the replies. -/

theorem blanks_nil : Blanks [] := fun _ member => by cases member

theorem blanks_one : Blanks [32] := by
  intro c member
  rw [List.mem_singleton] at member
  subst c
  rfl

theorem derives_named {before after name body : List UInt8} {tree : Json}
    (plain : name.all isPlain = true)
    (beforeBlank : Blanks before) (afterBlank : Blanks after) (value : Derives (.value tree) body) :
    Derives (.member (asciiUnits name, tree))
      (before ++ 34 :: (name ++ 34 :: 58 :: 32 :: (body ++ after))) :=
  Derives.member beforeBlank blanks_nil (StringBody.ascii plain)
    (Derives.element blanks_one afterBlank value)

theorem derives_idMember {before : List UInt8} (blank : Blanks before) (id : Nat) :
    Derives (.member (idName, .ofNat id))
      (before ++ ((lit "\"terminalID\": ").bytes ++ decimalBytes id)) := by
  have plain : (lit "terminalID").bytes.all isPlain = true := by decide
  have named := derives_named plain blank blanks_nil (derives_ofNat id)
  rw [List.append_nil] at named
  exact named

theorem derives_transactionsMember {text after : List UInt8} {trees : List Json}
    (lists : ListsTrees trees text) (blank : Blanks after) :
    Derives (.member (transactionsName, .array trees))
      ((lit " \"transactions\": [ ").bytes ++ (text ++ ((lit " ]").bytes ++ after))) := by
  have plain : (lit "transactions").bytes.all isPlain = true := by decide
  have named := derives_named plain blanks_one blank (lists.array blanks_one blanks_one)
  simp only [List.append_assoc, List.cons_append, List.nil_append] at named
  exact named

theorem transactions_bytes : (lit ", \"transactions\": [ ").bytes =
    44 :: (lit " \"transactions\": [ ").bytes := by decide

section Fragment

variable (id : Nat) {text : Text} {trees : List Json} {before : List UInt8}

theorem derives_fragment (lists : ListsTrees trees text.bytes) (beforeBlank : Blanks before)
    {after : List UInt8} (afterBlank : Blanks after) :
    Derives (.members (terminalMembers id trees))
      (before ++ ((fragment (id, text)).bytes ++ after)) := by
  have members := Derives.nextMember (derives_idMember beforeBlank id)
    (Derives.lastMember (derives_transactionsMember lists afterBlank))
  simp only [fragment, Text.bytes_append, decimal_ofNat, transactions_bytes, List.append_assoc,
    List.cons_append] at members ⊢
  exact members

theorem derives_fragment_more (lists : ListsTrees trees text.bytes) (blank : Blanks before)
    {entries : List (List UInt16 × Json)} {rest : List UInt8}
    (more : Derives (.members entries) rest) :
    Derives (.members (terminalMembers id trees ++ entries))
      (before ++ ((fragment (id, text)).bytes ++ 44 :: rest)) := by
  have members := Derives.nextMember (derives_idMember blank id)
    (Derives.nextMember (derives_transactionsMember lists blanks_nil) more)
  simp only [fragment, Text.bytes_append, decimal_ofNat, transactions_bytes, List.append_assoc,
    List.cons_append, List.append_nil] at members ⊢
  exact members

end Fragment

/-- The texts list these trees, one list of trees for each text. -/
def AllList (values : List (List Json)) (texts : List Text) : Prop :=
  List.Forall₂ (fun trees text => ListsTrees trees text.bytes) values texts

theorem AllList.entry {values : List (List Json)} {texts : List Text}
    (valued : AllList values texts) (id : Nat) {k : Nat} {trees : List Json}
    (listed : values[k]? = some trees) :
    ∃ text, (((id + k : Nat) : Int), text) ∈ numberedFrom id texts ∧
      ListsTrees trees text.bytes := by
  obtain ⟨inside, rfl⟩ := List.getElem?_eq_some_iff.mp listed
  have here : k < texts.length := valued.length_eq ▸ inside
  exact ⟨texts[k], numberedFrom_getElem id (List.getElem?_eq_getElem here),
    (List.forall₂_iff_get.mp valued).2 k inside here⟩

theorem derives_joined {values : List (List Json)} {texts : List Text}
    (valued : AllList values texts) (some : texts ≠ []) {before after : List UInt8}
    (beforeBlank : Blanks before) (afterBlank : Blanks after) (id : Nat) :
    Derives (.members (storeMembers id values))
      (before ++ ((joinFragments (numberedFrom id texts)).bytes ++ after)) := by
  induction valued generalizing before id with
  | nil => exact absurd rfl some
  | @cons trees text values texts lists valued ih =>
      cases valued with
      | nil =>
          simpa [storeMembers, numberedFrom, joinFragments] using
            derives_fragment id lists beforeBlank afterBlank
      | @cons nextTrees next laterTrees later nextLists laterValued =>
          have more := ih (List.cons_ne_nil _ _) blanks_one (id + 1)
          have separator : (lit ", ").bytes = [44, 32] := by decide
          have members := derives_fragment_more id lists beforeBlank more
          simp only [numberedFrom, joinFragments, Text.bytes_append, separator, List.append_assoc,
            List.cons_append, List.nil_append] at members ⊢
          exact members

theorem derives_response {entries : List (List UInt16 × Json)} {body : List UInt8}
    (members : Derives (.members entries) body) :
    JsonText (responseTree entries)
      ((lit "\x7b \"Response\": \x7b").bytes ++ (body ++ (lit "\x7d \x7d").bytes)) := by
  have plain : (lit "Response").bytes.all isPlain = true := by decide
  have named := derives_named plain blanks_one blanks_one (Derives.object members)
  have whole := Derives.element blanks_nil blanks_nil (Derives.object (Derives.lastMember named))
  simp only [List.append_assoc, List.cons_append, List.nil_append, List.append_nil] at whole
  exact whole

theorem wrapResponse_json {entries : List (List UInt16 × Json)} {content : Text}
    (members : Derives (.members entries) ([32] ++ (content.bytes ++ [32]))) :
    JsonText (responseTree entries) (wrapResponse content).bytes := by
  have front : (lit "\x7b \"Response\": \x7b ").bytes =
      (lit "\x7b \"Response\": \x7b").bytes ++ [32] := by decide
  have back : (lit " \x7d \x7d").bytes = 32 :: (lit "\x7d \x7d").bytes := by decide
  have whole := derives_response members
  simp only [wrapResponse, Text.bytes_append, front, back, List.append_assoc, List.cons_append,
    List.nil_append] at whole ⊢
  exact whole

theorem postReply_json (id : Nat) :
    JsonText (responseTree [(idName, .ofNat id)]) (postReply id).bytes := by
  apply wrapResponse_json
  have member := (derives_idMember blanks_one id).member_after blanks_one
  rw [Text.bytes_append, decimal_ofNat]
  simp only [List.append_assoc] at member ⊢
  exact Derives.lastMember member

theorem singleReply_json {id : Nat} {text : Text} {trees : List Json}
    (lists : ListsTrees trees text.bytes) :
    JsonText (responseTree (terminalMembers id trees)) (singleReply (id, text)).bytes :=
  wrapResponse_json (derives_fragment id lists blanks_one blanks_one)

theorem listReply_json {values : List (List Json)} {texts : List Text}
    (valued : AllList values texts) (some : texts ≠ []) :
    JsonText (responseTree (storeMembers 1 values)) (listReply (numbered texts)).bytes := by
  have blanks : Blanks [32, 32, 32] := blanks_one.append (blanks_one.append blanks_one)
  have front : (lit "\x7b \"Response\": \x7b   ").bytes =
      (lit "\x7b \"Response\": \x7b").bytes ++ [32, 32, 32] := by decide
  have back : (lit " \x7d \x7d").bytes = 32 :: (lit "\x7d \x7d").bytes := by decide
  have whole := derives_response (derives_joined valued some blanks blanks_one 1)
  simp only [listReply, numbered, Text.bytes_append, front, back, List.append_assoc,
    List.cons_append, List.nil_append] at whole ⊢
  exact whole

/-! Writing and reading. -/

theorem numbers_listed (numbers : List Nat) :
    AllList (numbers.map fun n => [.ofNat n]) (numbers.map decimalNat) := by
  refine List.forall₂_map_left_iff.mpr (List.forall₂_map_right_iff.mpr (List.forall₂_same.mpr ?_))
  intro n _
  have element := Derives.element blanks_nil blanks_nil (derives_ofNat n)
  rw [List.append_nil] at element
  exact Or.inr (Derives.lastElement element)

/-- Where the writes fit, the reply to a POST is a JSON text that tells the new id, and on a store
whose texts list values the reply to a GET is one that tells the id and the values of the terminal,
or of all terminals in the order of their ids. -/
theorem replies_are_json {mgr : EquipmentMgr} {texts : List Text}
    (reachable : ReachableStore mgr texts) (holder : Buf dataSize) :
    (∀ (json : Buf dataSize) (text : Text), json.cstr = .ok text →
      (texts.length : Int) < intMax →
        ∃ written reply, writeToDb mgr holder json = .ok (written, reply) ∧
          ReachableStore written (texts ++ [text]) ∧
          Tells reply (responseTree [(idName, .ofNat (texts.length + 1))])) ∧
    ∀ values, AllList values texts → ∀ (respJson : Buf dataSize) (errMsg : Buf errorMsgSize),
      (∀ k trees, values[k]? = some trees →
        (getReply texts ((k + 1 : Nat) : Int)).length < dataSize →
          ∃ json message, readFromDb mgr holder ((k + 1 : Nat) : Int) respJson errMsg =
              .ok (.success, json, message) ∧
            Tells json (responseTree (terminalMembers (k + 1) trees))) ∧
      (texts ≠ [] → (getReply texts all).length < dataSize →
        ∃ json message, readFromDb mgr holder all respJson errMsg = .ok (.success, json, message) ∧
          Tells json (responseTree (storeMembers 1 values))) := by
  have store := reachable.stores
  constructor
  · intro json text read room
    obtain ⟨written, reply, done, _, told, _⟩ := writeToDb_ok store room holder read
    exact ⟨written, reply, done, reachable.write read done, _, told, postReply_json _⟩
  · intro values valued respJson errMsg
    constructor
    · intro k trees listed short
      obtain ⟨text, member, lists⟩ := valued.entry 1 listed
      rw [Nat.add_comm 1 k] at member
      have reply := getReply_single member
      have found : getReply texts ((k + 1 : Nat) : Int) ≠ notFoundReply := by
        rw [reply]
        exact singleReply_ne_notFound _
      obtain ⟨json, message, done, told⟩ :=
        readFromDb_found_ok store found short holder respJson errMsg
      rw [reply] at told
      exact ⟨json, message, done, _, told, singleReply_json lists⟩
    · intro some short
      obtain ⟨reply, found⟩ := getReply_all some
      obtain ⟨json, message, done, told⟩ :=
        readFromDb_found_ok store found short holder respJson errMsg
      rw [reply] at told
      exact ⟨json, message, done, _, told, listReply_json valued some⟩

theorem replies_are_json_two :
    ∃ mgr, ReachableStore mgr [decimalNat 8, decimalNat 9] ∧ ∃ json message,
      readFromDb mgr MgrLocals.blank.tempTransHolder all (Buf.ofText dataSize (lit ""))
        MgrLocals.blank.errMsg = .ok (.success, json, message) ∧
      Tells json (responseTree (storeMembers 1 [[.ofNat 8], [.ofNat 9]])) := by
  obtain ⟨mgr, reachable⟩ :=
    reachableStore_texts [decimalNat 8, decimalNat 9] (by decide) (by decide)
  have read := ((replies_are_json reachable MgrLocals.blank.tempTransHolder).2 _
    (numbers_listed [8, 9]) (Buf.ofText dataSize (lit "")) MgrLocals.blank.errMsg).2
  exact ⟨mgr, reachable, read (by simp) (by decide)⟩

/-! Reading by name. -/

/-- A reader of these members still has the id and the transactions of the terminal. -/
def Keeps (entries : List (List UInt16 × Json)) (id : Nat) (trees : List Json) : Prop :=
  (∃ name, byName entries name = some (.ofNat id)) ∧
    ∃ name, byName entries name = some (.array trees)

theorem storeMembers_snoc (id : Nat) (values : List (List Json)) (trees : List Json) :
    storeMembers id (values ++ [trees]) =
      storeMembers id values ++ terminalMembers (id + values.length) trees := by
  induction values generalizing id with
  | nil => simp [storeMembers]
  | cons first rest ih =>
      have shift : id + 1 + rest.length = id + (rest.length + 1) := by omega
      simp only [List.cons_append, storeMembers, ih, List.append_assoc, List.length_cons, shift]

theorem byName_terminal (entries : List (List UInt16 × Json)) (id : Nat) (trees : List Json) :
    byName (entries ++ terminalMembers id trees) idName = some (.ofNat id) ∧
      byName (entries ++ terminalMembers id trees) transactionsName = some (.array trees) := by
  have different : idName ≠ transactionsName := by decide
  have split : entries ++ terminalMembers id trees =
      (entries ++ [(idName, .ofNat id)]) ++ [(transactionsName, .array trees)] := by
    simp [terminalMembers]
  rw [split, byName_snoc, byName_snoc]
  exact ⟨by rw [Function.update_of_ne different, Function.update_self], Function.update_self ..⟩

theorem storeMembers_id {id k : Nat} {values : List (List Json)} {name : List UInt16}
    (member : (name, .ofNat k) ∈ storeMembers id values) : name = idName := by
  induction values generalizing id with
  | nil => cases member
  | cons trees rest ih =>
      rcases List.mem_append.mp member with here | later
      · simp only [terminalMembers, List.mem_cons, Prod.mk.injEq, List.not_mem_nil,
          or_false] at here
        rcases here with ⟨same, _⟩ | ⟨_, number⟩
        · exact same
        · cases number
      · exact ih later

/-- The only id that a reader keeps is the last one. -/
theorem storeMembers_kept {id k : Nat} {values : List (List Json)} {name : List UInt16}
    (kept : byName (storeMembers id values) name = some (.ofNat k)) :
    k + 1 = id + values.length := by
  have named := storeMembers_id (byName_mem kept)
  subst name
  induction values using List.reverseRecOn with
  | nil => cases kept
  | append_singleton values trees _ =>
      rw [storeMembers_snoc, (byName_terminal _ _ _).1] at kept
      have numerals := Json.number.inj (Option.some.inj kept)
      have ids := decimalBytes_inj numerals
      rw [List.length_append, List.length_singleton]
      omega

theorem keeps_one (trees : List Json) : Keeps (storeMembers 1 [trees]) 1 trees := by
  obtain ⟨id, array⟩ := byName_terminal [] 1 trees
  have only : storeMembers 1 [trees] = [] ++ terminalMembers 1 trees := by simp [storeMembers]
  rw [only]
  exact ⟨⟨_, id⟩, _, array⟩

/-- A reader by name of the list reply keeps the id and the transactions of every terminal exactly
when there is only one. -/
theorem list_reply_keeps_iff {mgr : EquipmentMgr} {texts : List Text}
    (reachable : ReachableStore mgr texts) (some : texts ≠ []) {values : List (List Json)}
    (valued : AllList values texts) {tempTransHolder respJson json : Buf dataSize}
    {errMsg message : Buf errorMsgSize} {status : Status}
    (done : readFromDb mgr tempTransHolder all respJson errMsg = .ok (status, json, message)) :
    (∃ entries, Tells json (responseTree entries) ∧
      ∀ k trees, values[k]? = .some trees → Keeps entries (k + 1) trees) ↔ texts.length = 1 := by
  obtain ⟨_, read⟩ := readFromDb_all reachable.stores some done
  have told : Tells json (responseTree (storeMembers 1 values)) :=
    ⟨_, read, listReply_json valued some⟩
  have length : values.length = texts.length := valued.length_eq
  constructor
  · rintro ⟨entries, other, keeps⟩
    have same : storeMembers 1 values = entries := by
      have trees := told.unique other
      simpa [responseTree] using trees
    cases values with
    | nil => exact absurd (List.length_eq_zero_iff.mp length.symm) some
    | cons trees rest =>
        obtain ⟨⟨name, kept⟩, _⟩ := keeps 0 trees rfl
        rw [← same] at kept
        have last := storeMembers_kept kept
        omega
  · intro one
    obtain ⟨trees, rfl⟩ := List.length_eq_one_iff.mp (length.trans one)
    refine ⟨_, told, fun k listed found => ?_⟩
    cases k with
    | zero =>
        cases found
        exact keeps_one trees
    | succ k => cases found

theorem list_reply_keeps_one :
    ∃ mgr, ReachableStore mgr [decimalNat 8] ∧ ∃ json message,
      readFromDb mgr MgrLocals.blank.tempTransHolder all (Buf.ofText dataSize (lit ""))
        MgrLocals.blank.errMsg = .ok (.success, json, message) ∧
      ∃ entries, Tells json (responseTree entries) ∧
        ∀ k trees, [[Json.ofNat 8]][k]? = some trees → Keeps entries (k + 1) trees := by
  obtain ⟨mgr, reachable, json, message, read, _⟩ :=
    reachable_read_all [decimalNat 8] (by simp) (by decide) (by decide) (by decide)
  exact ⟨mgr, reachable, json, message, read,
    (list_reply_keeps_iff reachable (by simp) (numbers_listed [8]) read).mpr rfl⟩

/-- Of two terminals a reader by name has lost the first. -/
theorem first_terminal_lost :
    ∃ mgr, ReachableStore mgr [decimalNat 8, decimalNat 9] ∧
      AllList [[.ofNat 8], [.ofNat 9]] [decimalNat 8, decimalNat 9] ∧ ∃ json message,
      readFromDb mgr MgrLocals.blank.tempTransHolder all (Buf.ofText dataSize (lit ""))
        MgrLocals.blank.errMsg = .ok (.success, json, message) ∧
      ∃ entries, Tells json (responseTree entries) ∧
        (∀ other, Tells json (responseTree other) → other = entries) ∧
        ¬Keeps entries 1 [.ofNat 8] := by
  obtain ⟨mgr, reachable, json, message, read, text⟩ :=
    reachable_read_all [decimalNat 8, decimalNat 9] (by simp) (by decide) (by decide) (by decide)
  have listed : AllList [[.ofNat 8], [.ofNat 9]] [decimalNat 8, decimalNat 9] :=
    numbers_listed [8, 9]
  have told : Tells json (responseTree (storeMembers 1 [[.ofNat 8], [.ofNat 9]])) :=
    ⟨_, text, listReply_json listed (by simp)⟩
  refine ⟨mgr, reachable, listed, json, message, read, _, told, fun other again => ?_, ?_⟩
  · have trees := again.unique told
    simpa [responseTree] using trees
  · rintro ⟨⟨name, kept⟩, _⟩
    have last := storeMembers_kept kept
    simp at last

end SmartPay
