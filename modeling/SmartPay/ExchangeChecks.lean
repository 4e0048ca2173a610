import SmartPay.EndpointChecks

/-!
One POST request from its first call to its last. Every call tests the endpoint
again on a fresh array, and every piece of the body replaces the one before.
-/

namespace SmartPay

open CLib

theorem answerToConnection_post {url : Text} (resource : strstr url terminalsResource = true)
    (locals : HandlerLocals) (call : Call) (conCls : ConCls) (server : Server) :
    answerToConnection locals url (lit "POST") call conCls server =
      answerPost locals url call conCls server := by
  simp only [answerToConnection, resource, Bool.true_eq_false, if_false, get_ne_post, if_true]

theorem answerPost_blocks {locals : HandlerLocals} {url : Text} (blocks : Blocks locals url)
    (call : Call) (conCls : ConCls) (server : Server) :
    answerPost locals url call conCls server = .ok {
      answer := sendResponse call jsonError
      uploadDataSize := call.uploadDataSize
      conCls := conCls
      server := server } := by
  obtain ⟨endPoint, done, nonzero⟩ := blocks
  simp only [answerPost, done, bind, Except.bind, if_pos nonzero]

theorem answerPost_first {locals : HandlerLocals} {url : Text} (passes : Passes locals url)
    (server : Server) :
    answerPost locals url .first .null server = .ok {
      answer := .yes
      uploadDataSize := 0
      conCls := .post { status := true, buff := none }
      server := server } := by
  obtain ⟨endPoint, done, zero⟩ := passes
  simp only [answerPost, done, bind, Except.bind, zero, ne_eq, not_true_eq_false, if_false]
  rfl

theorem answerPost_data {locals : HandlerLocals} {url : Text} (passes : Passes locals url)
    {piece : List UInt8} (nonempty : piece ≠ []) (buff : Option Text) (server : Server) :
    answerPost locals url (.data piece) (.post { status := true, buff }) server = .ok {
      answer := .yes
      uploadDataSize := 0
      conCls := .post { status := true, buff := some (Text.ofBytes piece) }
      server := { server with postWithDataFlag := true } } := by
  obtain ⟨endPoint, done, zero⟩ := passes
  have size : (Call.data piece).uploadDataSize ≠ 0 := mt List.length_eq_zero_iff.mp nonempty
  simp only [answerPost, done, bind, Except.bind, zero, ne_eq, not_true_eq_false, if_false,
    Bool.not_true, Bool.false_eq_true, size, not_false_eq_true, if_true]
  rfl

theorem answerPost_last {locals : HandlerLocals} {url : Text} (passes : Passes locals url)
    (buff : Option Text) (server : Server) :
    answerPost locals url .last (.post { status := true, buff }) server =
      answerPostLast locals .last { status := true, buff } server := by
  obtain ⟨endPoint, done, zero⟩ := passes
  simp only [answerPost, done, bind, Except.bind, zero, ne_eq, not_true_eq_false, if_false,
    Bool.not_true, Bool.false_eq_true, Call.uploadDataSize]

theorem ReachableServer.exchangeFrom {locals : Nat → HandlerLocals} {url method : Text}
    {index : Nat} {calls : List Call} {conCls : ConCls} {server after : Server} {outcome : Outcome}
    (reachable : ReachableServer server)
    (done : exchangeFrom locals url method index calls conCls server = .ok (after, outcome)) :
    ReachableServer after := by
  induction calls generalizing index conCls server with
  | nil =>
      cases done
      exact reachable
  | cons call rest ih =>
      obtain ⟨result, called, done⟩ := bind_eq_ok.mp done
      have next := reachable.call called
      split at done
      · cases done
        exact next
      · cases done
        exact next
      · exact ih next done

/-! The upload. -/

/-- What `post->buff` leads to after the upload: the last piece, or what it was before. -/
def collected (buff : Option Text) (pieces : List (List UInt8)) : Option Text :=
  match pieces.getLast? with
  | none => buff
  | some piece => some (Text.ofBytes piece)

def afterUpload (pieces : List (List UInt8)) (server : Server) : Server :=
  if pieces = [] then server else { server with postWithDataFlag := true }

section Exchange

variable {locals : Nat → HandlerLocals} {url : Text}

theorem upload_passes (resource : strstr url terminalsResource = true) {index : Nat}
    {pieces : List (List UInt8)} (nonempty : ∀ piece ∈ pieces, piece ≠ [])
    (passes : ∀ i < pieces.length, Passes (locals (index + i)) url)
    (buff : Option Text) (server : Server) (rest : List Call) :
    exchangeFrom locals url (lit "POST") index (pieces.map .data ++ rest)
        (.post { status := true, buff }) server =
      exchangeFrom locals url (lit "POST") (index + pieces.length) rest
        (.post { status := true, buff := collected buff pieces }) (afterUpload pieces server) := by
  induction pieces generalizing index buff server with
  | nil => rfl
  | cons piece later ih =>
      have now : Passes (locals index) url := by simpa using passes 0 (by simp)
      have soon : ∀ i < later.length, Passes (locals (index + 1 + i)) url := by
        intro i bound
        have next := passes (i + 1) (by simpa using bound)
        rwa [show index + (i + 1) = index + 1 + i by omega] at next
      have step := answerPost_data now (nonempty piece (by simp)) buff server
      rw [List.map_cons, List.cons_append, exchangeFrom, answerToConnection_post resource, step]
      simp only [bind, Except.bind]
      rw [ih (fun other member => nonempty other (by simp [member])) soon]
      have position : index + 1 + later.length = index + (piece :: later).length := by
        simp only [List.length_cons]
        omega
      rw [position]
      cases later with
      | nil => rfl
      | cons next others =>
          obtain ⟨piece, last⟩ := Option.ne_none_iff_exists'.mp
            (mt List.getLast?_eq_none_iff.mp (List.cons_ne_nil next others))
          simp only [collected, List.getLast?_cons_cons, last]
          rfl

theorem upload_blocks (resource : strstr url terminalsResource = true) {index : Nat}
    {before later : List (List UInt8)} {piece : List UInt8}
    (nonempty : ∀ other ∈ before, other ≠ [])
    (passes : ∀ i < before.length, Passes (locals (index + i)) url)
    (blocks : Blocks (locals (index + before.length)) url) (buff : Option Text) (server : Server)
    (rest : List Call) :
    exchangeFrom locals url (lit "POST") index ((before ++ piece :: later).map .data ++ rest)
        (.post { status := true, buff }) server =
      .ok (afterUpload before server, .closed) := by
  rw [List.map_append, List.append_assoc, upload_passes resource nonempty passes, List.map_cons,
    List.cons_append, exchangeFrom, answerToConnection_post resource, answerPost_blocks blocks]
  simp only [bind, Except.bind, sendResponse]

theorem exchange_first_passes (resource : strstr url terminalsResource = true)
    (passes : Passes (locals 0) url) (pieces : List (List UInt8)) (server : Server) :
    exchange locals url (lit "POST") pieces server =
      exchangeFrom locals url (lit "POST") 1 (pieces.map .data ++ [.last])
        (.post { status := true, buff := none }) server := by
  rw [exchange, callsFor, exchangeFrom, answerToConnection_post resource, answerPost_first passes]
  simp only [bind, Except.bind]

theorem exchange_first_blocks (resource : strstr url terminalsResource = true)
    (blocks : Blocks (locals 0) url) (pieces : List (List UInt8)) (server : Server) :
    exchange locals url (lit "POST") pieces server = .ok (server, .replied jsonError) := by
  rw [exchange, callsFor, exchangeFrom, answerToConnection_post resource, answerPost_blocks blocks]
  simp only [bind, Except.bind, sendResponse]

theorem exchange_passes (resource : strstr url terminalsResource = true)
    {pieces : List (List UInt8)} (nonempty : ∀ piece ∈ pieces, piece ≠ [])
    (passes : ∀ i ≤ pieces.length, Passes (locals i) url) (server : Server) :
    exchange locals url (lit "POST") pieces server =
      exchangeFrom locals url (lit "POST") (1 + pieces.length) [.last]
        (.post { status := true, buff := collected none pieces }) (afterUpload pieces server) := by
  rw [exchange_first_passes resource (passes 0 (Nat.zero_le _)),
    upload_passes resource nonempty fun i bound => passes (1 + i) (by omega)]

theorem exchangeFrom_last_blocks (resource : strstr url terminalsResource = true) {index : Nat}
    (blocks : Blocks (locals index) url) (conCls : ConCls) (server : Server) :
    exchangeFrom locals url (lit "POST") index [.last] conCls server =
      .ok (server, .replied jsonError) := by
  rw [exchangeFrom, answerToConnection_post resource, answerPost_blocks blocks]
  simp only [bind, Except.bind, sendResponse]

theorem exchangeFrom_last_noData (resource : strstr url terminalsResource = true) {index : Nat}
    (passes : Passes (locals index) url) (buff : Option Text) {server : Server}
    (flag : server.postWithDataFlag = false) :
    exchangeFrom locals url (lit "POST") index [.last] (.post { status := true, buff }) server =
      .ok (server, .replied jsonPostWithNoData) := by
  rw [exchangeFrom, answerToConnection_post resource, answerPost_last passes,
    answerPostLast_noData flag]
  simp only [bind, Except.bind, sendResponse]

theorem exchangeFrom_last_data (resource : strstr url terminalsResource = true) {index : Nat}
    (passes : Passes (locals index) url) {buff : Text} {server : Server} {texts : List Text}
    (idle : Idle server.mgr texts) (flag : server.postWithDataFlag = true) :
    if buff.length < dataSize ∧ (texts.length : Int) < intMax then
      ∃ mgr, exchangeFrom locals url (lit "POST") index [.last]
          (.post { status := true, buff := some buff }) server =
            .ok ({ mgr, postWithDataFlag := false }, .replied (postReply (texts.length + 1))) ∧
        Idle mgr (texts ++ [buff])
    else exchangeFrom locals url (lit "POST") index [.last]
        (.post { status := true, buff := some buff }) server = .error (postFault buff) := by
  let post : PostStatus := { status := true, buff := some buff }
  have decided := answerPostLast_data idle flag (show post.buff = some buff from rfl)
    (locals index) .last
  split
  · rename_i fits
    rw [if_pos fits] at decided
    obtain ⟨mgr, done, idleAfter⟩ := decided
    refine ⟨mgr, ?_, idleAfter⟩
    rw [exchangeFrom, answerToConnection_post resource, answerPost_last passes, done]
    simp only [bind, Except.bind, sendResponse]
  · rename_i tooLong
    rw [if_neg tooLong] at decided
    rw [exchangeFrom, answerToConnection_post resource, answerPost_last passes, decided]
    rfl

theorem exchange_pieces (resource : strstr url terminalsResource = true)
    {pieces : List (List UInt8)} {piece : List UInt8}
    (nonempty : ∀ other ∈ pieces, other ≠ []) (last : pieces.getLast? = some piece)
    (passes : ∀ i ≤ pieces.length + 1, Passes (locals i) url) {server : Server}
    {texts : List Text} (idle : Idle server.mgr texts) :
    if (Text.ofBytes piece).length < dataSize ∧ (texts.length : Int) < intMax then
      ∃ mgr, exchange locals url (lit "POST") pieces server =
          .ok ({ mgr, postWithDataFlag := false }, .replied (postReply (texts.length + 1))) ∧
        Idle mgr (texts ++ [Text.ofBytes piece])
    else exchange locals url (lit "POST") pieces server =
      .error (postFault (Text.ofBytes piece)) := by
  have some : pieces ≠ [] := by
    rintro rfl
    cases last
  have uploaded : afterUpload pieces server = { server with postWithDataFlag := true } :=
    if_neg some
  have buff : collected none pieces = Option.some (Text.ofBytes piece) := by
    simp only [collected, last]
  rw [exchange_passes resource nonempty fun i bound => passes i (by omega), uploaded, buff]
  exact exchangeFrom_last_data resource (passes _ (by omega)) idle rfl

theorem exchange_pieces_ok (resource : strstr url terminalsResource = true)
    {pieces : List (List UInt8)} {piece : List UInt8}
    (nonempty : ∀ other ∈ pieces, other ≠ []) (last : pieces.getLast? = some piece)
    (fits : (Text.ofBytes piece).length < dataSize)
    (passes : ∀ i ≤ pieces.length + 1, Passes (locals i) url) {server : Server}
    {texts : List Text} (idle : Idle server.mgr texts) (room : (texts.length : Int) < intMax) :
    ∃ mgr, exchange locals url (lit "POST") pieces server =
        .ok ({ mgr, postWithDataFlag := false }, .replied (postReply (texts.length + 1))) ∧
      Idle mgr (texts ++ [Text.ofBytes piece]) := by
  have decided := exchange_pieces resource nonempty last passes idle
  rwa [if_pos ⟨fits, room⟩] at decided

theorem exchange_blank {pieces : List (List UInt8)} {piece : List UInt8}
    (nonempty : ∀ other ∈ pieces, other ≠ []) (last : pieces.getLast? = some piece)
    (fits : (Text.ofBytes piece).length < dataSize) :
    ∃ after reply, exchange (fun _ => HandlerLocals.blank) terminalsResource (lit "POST") pieces
        { mgr := mgrInit EquipmentMgr.blank, postWithDataFlag := false } =
          .ok (after, .replied reply) ∧ Idle after.mgr [Text.ofBytes piece] := by
  let server : Server := { mgr := mgrInit EquipmentMgr.blank, postWithDataFlag := false }
  have start : Idle server.mgr [] := Idle.mgrInit rfl
  obtain ⟨mgr, done, idle⟩ := exchange_pieces_ok strstr_resource nonempty last fits
    (fun _ _ => passes_blank) start (by decide)
  exact ⟨_, _, done, idle⟩

/-- The body a client sent in pieces is stored exactly when it came in one piece, and the
terminal counter has room. -/
theorem exchange_stores_body_iff (resource : strstr url terminalsResource = true) {server : Server}
    (reachable : ReachableServer server) {texts : List Text} (store : Stores server.mgr texts)
    {pieces : List (List UInt8)} {body : Text} (some : pieces ≠ [])
    (nonempty : ∀ piece ∈ pieces, piece ≠ []) (whole : pieces.flatten = body.bytes)
    (fits : body.length < dataSize) (passes : ∀ i ≤ pieces.length + 1, Passes (locals i) url) :
    (∃ after reply, exchange locals url (lit "POST") pieces server = .ok (after, .replied reply) ∧
      Stores after.mgr (texts ++ [body])) ↔
      pieces.length = 1 ∧ (texts.length : Int) < intMax := by
  obtain ⟨others, idle⟩ := reachable.idle
  obtain rfl := idle.store.unique store
  obtain ⟨before, piece, rfl⟩ := (List.eq_nil_or_concat' pieces).resolve_left some
  simp only [List.flatten_append, List.flatten_singleton] at whole
  have nulFree : 0 ∉ piece := fun member =>
    body.nulFree (whole ▸ List.mem_append_right _ member)
  have stored : Text.ofBytes piece = ⟨piece, nulFree⟩ := Text.ofBytes_bytes ⟨piece, nulFree⟩
  have lengths := congrArg List.length whole
  simp only [List.length_append, Text.length_bytes] at lengths
  have short : (Text.ofBytes piece).length < dataSize := by
    rw [stored]
    change piece.length < dataSize
    omega
  have decided := exchange_pieces resource nonempty List.getLast?_concat passes idle
  constructor
  · rintro ⟨after, reply, done, wholeStored⟩
    split at decided
    · rename_i room
      obtain ⟨mgr, lastDone, idleAfter⟩ := decided
      rw [done] at lastDone
      cases lastDone
      have same := idleAfter.store.unique wholeStored
      simp only [List.append_cancel_left_eq, List.cons.injEq, and_true, stored] at same
      have empty : before.flatten = [] := by
        rw [← same] at whole
        exact List.append_left_eq_self.mp whole
      have nothing : before = [] := by
        rw [List.eq_nil_iff_forall_not_mem]
        intro other member
        exact nonempty other (by simp [member]) (List.flatten_eq_nil_iff.mp empty other member)
      exact ⟨by simp [nothing], room.2⟩
    · rw [done] at decided
      cases decided
  · rintro ⟨single, room⟩
    have nothing : before = [] := by simpa using single
    obtain ⟨mgr, done, idleAfter⟩ :=
      exchange_pieces_ok resource nonempty List.getLast?_concat short passes idle room
    have same : Text.ofBytes piece = body := by
      rw [stored]
      ext1
      rw [← whole, nothing]
      rfl
    rw [same] at idleAfter
    exact ⟨_, _, done, idleAfter.store⟩

theorem exchange_stores_one_piece :
    ∃ after reply, exchange (fun _ => HandlerLocals.blank) terminalsResource (lit "POST") [[97, 98]]
        { mgr := mgrInit EquipmentMgr.blank, postWithDataFlag := false } =
        .ok (after, .replied reply) ∧ Stores after.mgr [lit "ab"] := by
  have whole : [[97, 98]].flatten = (lit "ab").bytes := by decide
  exact (exchange_stores_body_iff strstr_resource (ReachableServer.start rfl) (Stores.mgrInit _)
    (by simp) (by simp) whole (by decide) (fun _ _ => passes_blank)).mpr ⟨rfl, by decide⟩

/-- A body cut in two: only its second half is stored. -/
theorem exchange_loses_first_piece :
    ∃ after reply, exchange (fun _ => HandlerLocals.blank) terminalsResource (lit "POST")
        [[97], [98]] { mgr := mgrInit EquipmentMgr.blank, postWithDataFlag := false } =
        .ok (after, .replied reply) ∧
      Stores after.mgr [lit "b"] ∧ ¬Stores after.mgr [lit "ab"] := by
  have last : [[97], [98]].getLast? = some ([98] : List UInt8) := rfl
  obtain ⟨after, reply, done, idle⟩ := exchange_blank (by simp) last (by decide)
  refine ⟨_, _, done, idle.store, fun other => ?_⟩
  exact absurd (idle.store.unique other) (by decide)

end Exchange

end SmartPay
