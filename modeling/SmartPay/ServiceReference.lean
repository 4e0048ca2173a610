import SmartPay.EquipmentMgrCore

/-!
The reference service: what the equipment manager is for. Its state is the list
of posted texts, a terminal's id is its position, and a request is answered in
one step. The reply texts are concatenations of delimiters, ids and texts.
-/

namespace SmartPay

open CLib

def fragment (entry : Int × Text) : Text :=
  lit "\"terminalID\": " ++ decimal entry.1 ++ lit ", \"transactions\": [ " ++ entry.2 ++ lit " ]"

def wrapResponse (content : Text) : Text :=
  lit "\x7b \"Response\": \x7b " ++ content ++ lit " \x7d \x7d"

def joinFragments : List (Int × Text) → Text
  | [] => lit ""
  | [entry] => fragment entry
  | entry :: next :: rest => fragment entry ++ lit ", " ++ joinFragments (next :: rest)

def singleReply (entry : Int × Text) : Text := wrapResponse (fragment entry)

def listReply (entries : List (Int × Text)) : Text :=
  lit "\x7b \"Response\": \x7b   " ++ joinFragments entries ++ lit " \x7d \x7d"

def postReply (id : Int) : Text := wrapResponse (lit "\"terminalID\": " ++ decimal id)

def notFoundReply : Text := lit "\x7b \"error\": \x7b No such terminal in DB \x7d \x7d"

theorem format_fragment (id : Int) (text : Text) :
    format postIdTransWraper [.d id, .s text] = fragment (id, text) := by
  ext1
  simp only [fragment, Text.bytes_append, List.append_assoc]
  rfl

theorem format_wrapResponse (content : Text) :
    format basicResponseWraper [.s content] = wrapResponse content := by
  ext1
  simp only [wrapResponse, Text.bytes_append, List.append_assoc]
  rfl

theorem format_postId (id : Int) :
    format postIdWraper [.d id] = lit "\"terminalID\": " ++ decimal id := by
  ext1
  rw [Text.bytes_append, ← List.append_nil (decimal id).bytes]
  rfl

theorem format_notFound :
    format basicErrorWraper [.s (lit "No such terminal in DB")] = notFoundReply := by
  decide

/-! Requests and their sequential meaning. -/

/-- A request record: `leftover` is whatever the handler's reply array held before a GET. -/
inductive Request
  | get (termId : Int) (leftover : Text)
  | post (text : Text)
  deriving DecidableEq

namespace Request

def method : Request → Text
  | get _ _ => lit "GET"
  | post _ => lit "POST"

def json : Request → Text
  | get _ leftover => leftover
  | post text => text

def termId : Request → Int
  | get termId _ => termId
  | post _ => -1

def text? : Request → Option Text
  | get _ _ => none
  | post text => some text

end Request

def numberedFrom (id : Nat) : List Text → List (Int × Text)
  | [] => []
  | text :: rest => ((id : Int), text) :: numberedFrom (id + 1) rest

def numbered (texts : List Text) : List (Int × Text) := numberedFrom 1 texts

def getReply (texts : List Text) (termId : Int) : Text :=
  if termId = all then
    if texts = [] then notFoundReply else listReply (numbered texts)
  else
    match (numbered texts).find? fun entry => entry.1 == termId with
    | none => notFoundReply
    | some entry => singleReply entry

def serviceStep (texts : List Text) : Request → List Text × Text
  | .get termId _ => (texts, getReply texts termId)
  | .post text => (texts ++ [text], postReply (texts.length + 1))

/-- The replies of the service to requests that it runs one after the other. -/
def serviceReplies (texts : List Text) : List Request → List Text
  | [] => []
  | request :: rest =>
      (serviceStep texts request).2 :: serviceReplies (serviceStep texts request).1 rest

def postedTexts (requests : List Request) : List Text := requests.filterMap Request.text?

theorem serviceStep_texts (texts : List Text) (request : Request) :
    (serviceStep texts request).1 = texts ++ postedTexts [request] := by
  cases request <;> simp [serviceStep, postedTexts, Request.text?]

theorem serviceReplies_snoc (texts : List Text) (requests : List Request) (request : Request) :
    serviceReplies texts (requests ++ [request]) =
      serviceReplies texts requests ++
        [(serviceStep (texts ++ postedTexts requests) request).2] := by
  induction requests generalizing texts with
  | nil => simp [serviceReplies, postedTexts]
  | cons first rest ih =>
      have next : texts ++ postedTexts [first] ++ postedTexts rest =
          texts ++ postedTexts (first :: rest) := by
        rw [List.append_assoc, postedTexts, postedTexts, ← List.filterMap_append]
        rfl
      simp only [List.cons_append, serviceReplies, ih, serviceStep_texts, next]

theorem numberedFrom_append (id : Nat) (first second : List Text) :
    numberedFrom id (first ++ second) =
      numberedFrom id first ++ numberedFrom (id + first.length) second := by
  induction first generalizing id with
  | nil => rfl
  | cons text rest ih =>
      have shift : id + 1 + rest.length = id + (rest.length + 1) := by omega
      simp only [List.cons_append, numberedFrom, ih, List.length_cons, shift]

theorem numbered_snoc (texts : List Text) (text : Text) :
    numbered (texts ++ [text]) = numbered texts ++ [((texts.length + 1 : Int), text)] := by
  rw [numbered, numberedFrom_append]
  simp [numbered, numberedFrom, Int.add_comm]

theorem mem_numberedFrom {id : Nat} {texts : List Text} {entry : Int × Text}
    (member : entry ∈ numberedFrom id texts) :
    (id : Int) ≤ entry.1 ∧ entry.1 < id + texts.length ∧ entry.2 ∈ texts := by
  induction texts generalizing id with
  | nil => simp [numberedFrom] at member
  | cons text rest ih =>
      simp only [numberedFrom, List.mem_cons] at member
      rcases member with rfl | later
      · simp
      · have bounds := ih later
        refine ⟨by omega, ?_, List.mem_cons_of_mem _ bounds.2.2⟩
        simp only [List.length_cons]
        omega

theorem numberedFrom_getElem (id : Nat) {texts : List Text} {k : Nat} {text : Text}
    (stored : texts[k]? = some text) : (((id + k : Nat) : Int), text) ∈ numberedFrom id texts := by
  induction texts generalizing id k with
  | nil => cases stored
  | cons first rest ih =>
      cases k with
      | zero =>
          cases stored
          exact List.mem_cons_self ..
      | succ k =>
          have shift : id + (k + 1) = id + 1 + k := by omega
          rw [shift]
          exact List.mem_cons_of_mem _ (ih (id + 1) stored)

theorem numberedFrom_texts (id : Nat) (texts : List Text) :
    (numberedFrom id texts).map Prod.snd = texts := by
  induction texts generalizing id with
  | nil => rfl
  | cons text rest ih => simp [numberedFrom, ih]

theorem numbered_texts (texts : List Text) : (numbered texts).map Prod.snd = texts :=
  numberedFrom_texts 1 texts

theorem numbered_length (texts : List Text) : (numbered texts).length = texts.length := by
  rw [← List.length_map Prod.snd, numbered_texts]

theorem numbered_eq_nil_iff (texts : List Text) : numbered texts = [] ↔ texts = [] := by
  cases texts <;> simp [numbered, numberedFrom]

theorem wrapResponse_starts (content : Text) :
    (wrapResponse content).bytes.take 3 = [123, 32, 34] := rfl

/-! Lengths of the replies. -/

theorem fragment_length (entry : Int × Text) :
    (fragment entry).length = 36 + (decimal entry.1).length + entry.2.length := by
  have first : (lit "\"terminalID\": ").length = 14 := by decide
  have second : (lit ", \"transactions\": [ ").length = 20 := by decide
  have third : (lit " ]").length = 2 := by decide
  simp only [fragment, Text.length_append, first, second, third]
  omega

theorem wrapResponse_length (content : Text) :
    (wrapResponse content).length = 20 + content.length := by
  have first : (lit "\x7b \"Response\": \x7b ").length = 16 := by decide
  have last : (lit " \x7d \x7d").length = 4 := by decide
  simp only [wrapResponse, Text.length_append, first, last]
  omega

theorem singleReply_length (entry : Int × Text) :
    (singleReply entry).length = 56 + (decimal entry.1).length + entry.2.length := by
  rw [singleReply, wrapResponse_length, fragment_length]
  omega

theorem decimal_length_le {n : Int} (low : 0 ≤ n) (high : n ≤ intMax) :
    (decimal n).length ≤ 10 := by
  obtain ⟨k, rfl⟩ := Int.eq_ofNat_of_zero_le low
  rw [decimal_ofNat, decimalNat_length_le_iff (by omega)]
  simp only [intMax] at high
  omega

theorem postReply_length (id : Int) (low : 0 ≤ id) (high : id ≤ intMax) :
    (postReply id).length ≤ 44 := by
  have digits := decimal_length_le low high
  have first : (lit "\"terminalID\": ").length = 14 := by decide
  simp only [postReply, wrapResponse_length, Text.length_append, first]
  omega

end SmartPay
