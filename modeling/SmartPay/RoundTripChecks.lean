import SmartPay.IdentifierChecks
import SmartPay.InputBounds
import SmartPay.SequentialChecks

/-!
Ids from the reply to a POST to the URL of a GET. `sprintf` prints the id,
`sscanf` and `atoi` read it back; the array of the endpoint ends the trip at ten
digits, before the range of `int` does.
-/

namespace SmartPay

open CLib

def terminalUrl (numeral : Text) : Text := terminalsResource ++ numeral

/-- The digits that a client finds where the reply to a POST has the id. -/
def printedId (reply : Text) : Text :=
  Text.ofBytes ((reply.bytes.drop beforeId.length).takeWhile isDigit)

/-- The states of the store that posts lead to, with the texts posted and the replies to them. -/
inductive Posts : EquipmentMgr → List (Text × Text) → Prop
  | init (mgr : EquipmentMgr) : Posts (mgrInit mgr) []
  | write {mgr written : EquipmentMgr} {posts : List (Text × Text)} {text replied : Text}
      {tempDataHolder json reply : Buf dataSize} : Posts mgr posts → json.cstr = .ok text →
      writeToDb mgr tempDataHolder json = .ok (written, reply) → reply.cstr = .ok replied →
      Posts written (posts ++ [(text, replied)])
  | other {mgr next : EquipmentMgr} {posts : List (Text × Text)} : Posts mgr posts →
      StoreSame mgr next → Posts next posts

/-! Posts and their replies. -/

theorem printedId_postReply (n : Nat) : printedId (postReply n) = decimalNat n := by
  have digits : ∀ c ∈ decimalBytes n, isDigit c = true := fun c member =>
    isDigit_of_mem_decimalBytes member
  -- the digits end at the blank before the closing brackets
  rw [printedId, postReply_bytes, List.drop_left, takeWhile_run digits (afterId_ends none)]
  exact Text.ofBytes_bytes (decimalNat n)

example : printedId (postReply 12) = lit "12" := by decide

theorem Posts.reachable {mgr : EquipmentMgr} {posts : List (Text × Text)}
    (posted : Posts mgr posts) : ReachableStore mgr (posts.map Prod.fst) := by
  induction posted with
  | init mgr => exact ReachableStore.init mgr
  | write _ read done _ ih =>
      rw [List.map_append]
      exact ih.write read done
  | other _ same ih => exact ih.other same

theorem ReachableStore.posts {mgr : EquipmentMgr} {texts : List Text}
    (reachable : ReachableStore mgr texts) :
    ∃ posts, Posts mgr posts ∧ posts.map Prod.fst = texts := by
  induction reachable with
  | init mgr => exact ⟨[], Posts.init mgr, rfl⟩
  | write _ read done ih =>
      obtain ⟨posts, posted, rfl⟩ := ih
      exact ⟨_, posted.write read done (writeToDb_reply done).1, List.map_append⟩
  | other _ same ih =>
      obtain ⟨posts, posted, texts⟩ := ih
      exact ⟨posts, posted.other same, texts⟩

theorem Posts.reply {mgr : EquipmentMgr} {posts : List (Text × Text)} (posted : Posts mgr posts)
    {k : Nat} {text replied : Text} (stored : posts[k]? = some (text, replied)) :
    replied = postReply (k + 1 : Nat) := by
  induction posted with
  | init mgr => cases stored
  | @write mgr written posts last lastReply holder json reply posted read done told ih =>
      by_cases older : k < posts.length
      · rw [List.getElem?_append_left older] at stored
        exact ih stored
      · have here := (List.getElem?_eq_some_iff.mp stored).1
        simp only [List.length_append, List.length_singleton] at here
        have position : k = posts.length := by omega
        subst position
        simp only [List.getElem?_concat_length, Option.some.injEq, Prod.mk.injEq] at stored
        obtain ⟨text, counter, _⟩ := writeToDb_reply done
        rw [told, Except.ok.injEq] at text
        rw [← stored.2, text, counter, posted.reachable.stores.counter, List.length_map]
        rfl
  | other _ _ ih => exact ih stored

/-! The trip. -/

theorem getTerminalId_numeral_fits (n : Nat) (endPoint : Buf maxEndpointSize) :
    getTerminalId endPoint (terminalUrl (decimalNat n)) ≠ .error .overflow ↔
      (decimalNat n).length ≤ 9 := by
  rw [getTerminalId_fits_iff, EndpointFits, terminalUrl, scanWord_numeral]
  simp only [Option.some.injEq, forall_eq', maxEndpointSize, Nat.lt_succ_iff]

theorem getTerminalId_terminalUrl {n : Nat} (digits : (decimalNat n).length ≤ 9)
    (endPoint : Buf maxEndpointSize) :
    getTerminalId endPoint (terminalUrl (decimalNat n)) = .ok (n : Int) :=
  getTerminalId_numeral ((decimalNat_length_le_iff (by omega)).mp digits) endPoint

theorem getReply_posted {posts : List (Text × Text)} {k : Nat} {text replied : Text}
    (stored : posts[k]? = some (text, replied)) :
    getReply (posts.map Prod.fst) ((k + 1 : Nat) : Int) =
      singleReply (((k + 1 : Nat) : Int), text) := by
  have here : (posts.map Prod.fst)[k]? = some text := by
    rw [List.getElem?_map, stored]
    rfl
  have member := numberedFrom_getElem 1 here
  rw [Nat.add_comm 1 k] at member
  exact getReply_single member

section Posted

variable {mgr : EquipmentMgr} {posts : List (Text × Text)} (posted : Posts mgr posts)
  {k : Nat} {text replied : Text} (stored : posts[k]? = some (text, replied))
include posted stored

theorem Posts.scanned (digits : (decimalNat (k + 1)).length ≤ 9)
    (endPoint : Buf maxEndpointSize) :
    getTerminalId endPoint (terminalUrl (printedId replied)) = .ok ((k + 1 : Nat) : Int) := by
  rw [posted.reply stored, printedId_postReply]
  exact getTerminalId_terminalUrl digits endPoint

/-- A GET over HTTP with the id from the reply to a POST is answered with that terminal. -/
theorem exchange_printedId {server : Server} (reachable : ReachableServer server)
    (same : server.mgr = mgr) (digits : (decimalNat (k + 1)).length ≤ 9)
    (short : (singleReply ((k + 1 : Nat), text)).length < dataSize)
    {locals : Nat → HandlerLocals} {leftover : Text}
    (terminated : (locals 0).jResponse.cstr = .ok leftover) :
    ∃ after, exchange locals (terminalUrl (printedId replied)) (lit "GET") [] server =
      .ok ({ server with mgr := after }, .replied (singleReply ((k + 1 : Nat), text))) := by
  obtain ⟨texts, idle⟩ := reachable.idle
  have history : texts = posts.map Prod.fst := by
    rw [← same] at posted
    exact idle.store.unique posted.reachable.stores
  have reply := getReply_posted stored
  rw [← history] at reply
  rw [← reply] at short ⊢
  obtain ⟨after, done, _⟩ := exchange_get (strstr_append _ _) idle
    (posted.scanned stored digits (locals 0).endPoint) terminated short
  exact ⟨after, done⟩

end Posted

/-- The copy of an id in the URL of a GET fits exactly when the id has at most 9 digits, and is then
read as that id; and the id in the reply to a POST, put into the URL, gets the terminal back. -/
theorem ids_survive_url :
    (∀ (n : Nat) (endPoint : Buf maxEndpointSize),
      (getTerminalId endPoint (terminalUrl (decimalNat n)) ≠ .error .overflow ↔
        (decimalNat n).length ≤ 9) ∧
      ((decimalNat n).length ≤ 9 →
        getTerminalId endPoint (terminalUrl (decimalNat n)) = .ok (n : Int))) ∧
    ∀ (mgr : EquipmentMgr) (posts : List (Text × Text)), Posts mgr posts →
      ∀ (k : Nat) (text replied : Text), posts[k]? = some (text, replied) →
        (decimalNat (k + 1)).length ≤ 9 →
        (singleReply ((k + 1 : Nat), text)).length < dataSize →
          ∀ (locals : HandlerLocals) (json : Buf dataSize),
            replyToGet locals (terminalUrl (printedId replied)) mgr json =
              .ok (singleReply ((k + 1 : Nat), text)) := by
  constructor
  · intro n endPoint
    exact ⟨getTerminalId_numeral_fits n endPoint,
      fun digits => getTerminalId_terminalUrl digits endPoint⟩
  · intro mgr posts posted k text replied stored digits short locals json
    have store := posted.reachable.stores
    have scanned := posted.scanned stored digits locals.endPoint
    rw [replyToGet_decided store scanned, getReply_posted stored, if_pos short]

theorem ids_survive_url_first :
    ∃ mgr replied, Posts mgr [(lit "x", replied)] ∧
      replyToGet HandlerLocals.blank (terminalUrl (printedId replied)) mgr
        (Buf.ofText dataSize (lit "")) = .ok (singleReply ((1 : Nat), lit "x")) := by
  obtain ⟨mgr, reachable⟩ := reachableStore_single (show (lit "x").length < dataSize by decide)
  obtain ⟨posts, posted, texts⟩ := reachable.posts
  obtain ⟨⟨text, replied⟩, rfl⟩ := List.length_eq_one_iff.mp
    (by rw [← List.length_map Prod.fst, texts]; rfl)
  obtain rfl : text = lit "x" := (List.cons.inj texts).1
  exact ⟨mgr, replied, posted, ids_survive_url.2 mgr _ posted 0 (lit "x") replied rfl (by decide)
    (by decide) HandlerLocals.blank (Buf.ofText dataSize (lit ""))⟩

end SmartPay
