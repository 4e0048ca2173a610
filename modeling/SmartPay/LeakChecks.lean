import SmartPay.PostStatusChecks

/-!
What the POST branch does not give back. Every call is counted: what it takes from
`malloc` and what it gives to `free`; a body in several pieces loses all but the last.
-/

namespace SmartPay

open CLib

/-- How many cells of each kind have been taken and given back between two states. -/
structure Balance (before after : ServerHeap) (taken given bodies stored : Nat) : Prop where
  taken : after.posts.brk = before.posts.brk + taken
  given : after.posts.freed.length = before.posts.freed.length + given
  bodies : after.buffs.brk = before.buffs.brk + bodies
  stored : after.buffs.freed.length = before.buffs.freed.length + stored

theorem Balance.refl (server : ServerHeap) : Balance server server 0 0 0 0 :=
  ⟨rfl, rfl, rfl, rfl⟩

theorem Balance.trans {first second third : ServerHeap} {a b c d i j k l : Nat}
    (before : Balance first second a b c d) (after : Balance second third i j k l) :
    Balance first third (a + i) (b + j) (c + k) (d + l) := by
  refine ⟨?_, ?_, ?_, ?_⟩
  · rw [after.taken, before.taken, Nat.add_assoc]
  · rw [after.given, before.given, Nat.add_assoc]
  · rw [after.bodies, before.bodies, Nat.add_assoc]
  · rw [after.stored, before.stored, Nat.add_assoc]

/-- The connection is in its upload, and has a buffer if it has had data. -/
structure Uploading (server : ServerHeap) (post : Nat) (received : Bool) : Prop where
  separate : Separate server
  live : server.posts.Live post
  marked : (server.posts.content post).status = true
  buff : (server.posts.content post).buff.isSome = received
  flag : received = true → server.postWithDataFlag = true

section Leaks

variable {locals : Nat → HandlerLocals} {url : Text} {server after : ServerHeap} {post : Nat}

theorem answerPost_some {locals : HandlerLocals} (passes : Passes locals url) {received : Bool}
    (uploading : Uploading server post received) (call : Call) :
    ServerHeap.answerPost locals url call (some post) server =
      if call.uploadDataSize ≠ 0 then .ok {
        answer := .yes
        uploadDataSize := 0
        conCls := some post
        server := { server with
          posts := server.posts.set post
            { server.posts.content post with buff := some server.buffs.brk }
          buffs := server.buffs.malloc.1.set server.buffs.brk (Text.ofBytes call.uploadData)
          postWithDataFlag := true } }
      else ServerHeap.answerPostLast locals call post server := by
  obtain ⟨endPoint, scanned, zero⟩ := passes
  have fresh : server.buffs.malloc.1.Live server.buffs.brk :=
    (server.buffs.live_malloc _).mpr (Or.inr rfl)
  simp only [ServerHeap.answerPost, scanned, zero, ok_bind, ne_eq, not_true_eq_false, if_false,
    ServerHeap.firstPost, Heap.load_ok uploading.live, uploading.marked, Bool.not_true,
    Bool.false_eq_true, Heap.malloc_address, Heap.store_ok uploading.live, Heap.store_ok fresh]

/-- Every piece takes a buffer and gives none back. -/
theorem upload_balance (resource : strstr url terminalsResource = true)
    (passes : ∀ index, Passes (locals index) url) {pieces : List (List UInt8)}
    (nonempty : ∀ piece ∈ pieces, piece ≠ []) (rest : List Call) (index : Nat) {received : Bool}
    (uploading : Uploading server post received) :
    ∃ middle, ServerHeap.exchangeFrom locals url index (pieces.map .data ++ rest) (some post) server =
        ServerHeap.exchangeFrom locals url (index + pieces.length) rest (some post) middle ∧
      Uploading middle post (received || !pieces.isEmpty) ∧
      Balance server middle 0 0 pieces.length 0 := by
  induction pieces generalizing index received server with
  | nil => exact ⟨server, rfl, by simpa using uploading, Balance.refl server⟩
  | cons piece later ih =>
      have size : (Call.data piece).uploadDataSize ≠ 0 :=
        mt List.length_eq_zero_iff.mp (nonempty piece (by simp))
      have step := answerPost_some (passes index) uploading (.data piece)
      rw [if_pos size] at step
      have move := answerPost_moves step
      have next : Uploading { server with
          posts := server.posts.set post
            { server.posts.content post with buff := some server.buffs.brk }
          buffs := server.buffs.malloc.1.set server.buffs.brk (Text.ofBytes piece)
          postWithDataFlag := true } post true := by
        refine ⟨move.separate uploading.separate, uploading.live, ?_, ?_, fun _ => rfl⟩
        · rw [Heap.set_content_same]
          exact uploading.marked
        · rw [Heap.set_content_same]
          rfl
      obtain ⟨middle, same, last, balance⟩ :=
        ih (fun other member => nonempty other (by simp [member])) (index + 1) next
      refine ⟨middle, ?_, ?_, ?_⟩
      · have position : index + 1 + later.length = index + (piece :: later).length := by
          rw [List.length_cons]
          omega
        rw [← position, ← same, List.map_cons, List.cons_append, ServerHeap.exchangeFrom]
        simp only [ServerHeap.answerToConnection, resource, Bool.true_eq_false, if_false, step]
        rfl
      · simpa using last
      · obtain ⟨taken, given, bodies, stored⟩ := balance
        refine ⟨taken, given, ?_, stored⟩
        rw [bodies, List.length_cons]
        simp only [Heap.set, Heap.malloc]
        omega

/-- The last call gives the status back, and with it the buffer that was assigned last. -/
theorem last_balance {locals : HandlerLocals} {received : Bool} {result : HeapResult}
    (uploading : Uploading server post received)
    (done : ServerHeap.answerPostLast locals .last post server = .ok result) :
    result.answer ≠ .yes ∧ Separate result.server ∧
      Balance server result.server 0 1 0 (if received then 1 else 0) := by
  obtain ⟨⟨middle, jsonReqResp⟩, collected, rest⟩ := bind_eq_ok.mp done
  obtain ⟨posts, freed, rest⟩ := bind_eq_ok.mp rest
  obtain ⟨sent, _, rest⟩ := bind_eq_ok.mp rest
  cases rest
  refine ⟨by simp [sendResponse], ?_⟩
  split at collected
  · obtain ⟨same, _, b, found, held, buffs⟩ := postWithData_inv collected
    rw [same] at freed
    obtain ⟨live, rfl⟩ := Heap.free_eq_ok freed
    have had : received = true := by
      rw [← uploading.buff, found]
      rfl
    have move : HeapMove server (some post) { middle with posts := server.posts.release post live }
        (some post) := HeapMove.stored live found held buffs rfl
    refine ⟨move.separate uploading.separate, ⟨rfl, ?_, ?_, ?_⟩⟩
    · simp [Heap.release]
    · rw [buffs]
      rfl
    · rw [buffs, had]
      simp [Heap.release]
  · rename_i unset
    obtain ⟨printed, _, collected⟩ := bind_eq_ok.mp collected
    cases collected
    obtain ⟨live, rfl⟩ := Heap.free_eq_ok freed
    have had : received = false := by
      rw [← Bool.not_eq_true]
      exact fun held => unset (uploading.flag held)
    have move : HeapMove server (some post) { server with posts := server.posts.release post live }
        (some post) := HeapMove.noData live rfl rfl
    refine ⟨move.separate uploading.separate, ⟨rfl, ?_, rfl, ?_⟩⟩
    · simp [Heap.release]
    · simp [had]

theorem exchange_balance (resource : strstr url terminalsResource = true) {upload : Upload}
    (passes : ∀ index, Passes (upload.locals index) url)
    (nonempty : ∀ piece ∈ upload.pieces, piece ≠ []) (separate : Separate server)
    {outcome : Outcome}
    (done : ServerHeap.exchangeFrom upload.locals url 0 upload.calls none server =
      .ok (after, outcome)) :
    Separate after ∧ Balance server after 1 (if upload.complete then 1 else 0) upload.pieces.length
      (if upload.complete && !upload.pieces.isEmpty then 1 else 0) := by
  have step := @answerPost_fresh _ _ .first server (passes 0)
  have move := answerPost_moves step
  let begun : ServerHeap := { server with
    posts := server.posts.malloc.1.set server.posts.brk
      { server.posts.content server.posts.brk with status := true } }
  have uploading : Uploading begun server.posts.brk false := by
    refine ⟨move.separate separate, (server.posts.live_malloc _).mpr (Or.inr rfl), ?_, ?_, by simp⟩
    · simp only [begun, Heap.set_content_same]
    · simp only [begun, Heap.set_content_same,
        separate.fresh server.posts.brk (Nat.le_refl _), Option.isSome_none]
  have first : Balance server begun 1 0 0 0 := ⟨rfl, rfl, rfl, rfl⟩
  obtain ⟨middle, same, uploaded, balance⟩ := upload_balance resource passes nonempty
    (if upload.complete then [.last] else []) 1 uploading
  rw [Upload.calls, ServerHeap.exchangeFrom] at done
  simp only [ServerHeap.answerToConnection, resource, Bool.true_eq_false, if_false, step,
    ok_bind] at done
  rw [same] at done
  rw [Bool.false_or] at uploaded
  have begins := first.trans balance
  cases whole : upload.complete with
  | false =>
      rw [whole] at done
      cases done
      refine ⟨uploaded.separate, ?_⟩
      simpa using begins
  | true =>
      rw [whole] at done
      obtain ⟨result, called, rest⟩ := bind_eq_ok.mp done
      simp only [ServerHeap.answerToConnection, resource, Bool.true_eq_false, if_false,
        answerPost_some (passes _) uploaded] at called
      rw [if_neg (by simp [Call.uploadDataSize])] at called
      obtain ⟨answered, last, ends⟩ := last_balance uploaded called
      have total := begins.trans ends
      split at rest
      · cases rest
        refine ⟨last, ?_⟩
        simpa using total
      · cases rest
        refine ⟨last, ?_⟩
        simpa using total
      · rename_i again
        exact absurd again answered

end Leaks

/-- After any POST requests to the terminals, whether their clients stayed or went away: one status
has been taken for each request and given back for each complete one, one buffer has been taken
for each piece of a body and given back for each complete request that had a body. So a body in
`n` pieces leaves `n - 1` buffers behind, and one that is given up leaves everything. -/
theorem session_leaks {url : Text} {mgr : EquipmentMgr} {uploads : List Upload} {after : ServerHeap}
    (resource : strstr url terminalsResource = true)
    (passes : ∀ upload ∈ uploads, ∀ index, Passes (upload.locals index) url)
    (nonempty : ∀ upload ∈ uploads, ∀ piece ∈ upload.pieces, piece ≠ [])
    (done : ServerHeap.session url uploads (ServerHeap.start mgr) = .ok after) :
    after.posts.brk = uploads.length ∧
      after.posts.freed.length = uploads.countP Upload.complete ∧
      after.buffs.brk = (uploads.map fun upload => upload.pieces.length).sum ∧
      after.buffs.freed.length =
        uploads.countP fun upload => upload.complete && !upload.pieces.isEmpty := by
  have counted {server : ServerHeap} (separate : Separate server)
      (ran : ServerHeap.session url uploads server = .ok after) :
      Balance server after uploads.length (uploads.countP Upload.complete)
        (uploads.map fun upload => upload.pieces.length).sum
        (uploads.countP fun upload => upload.complete && !upload.pieces.isEmpty) := by
    clear done
    induction uploads generalizing server with
    | nil =>
        cases ran
        exact Balance.refl _
    | cons upload rest ih =>
        obtain ⟨⟨middle, outcome⟩, exchanged, ran⟩ := bind_eq_ok.mp ran
        obtain ⟨next, first⟩ := exchange_balance resource (passes upload (by simp))
          (nonempty upload (by simp)) separate exchanged
        have later := ih (fun other member => passes other (by simp [member]))
          (fun other member => nonempty other (by simp [member])) next ran
        have total := first.trans later
        rw [List.length_cons, List.countP_cons, List.countP_cons, List.map_cons, List.sum_cons,
          Nat.add_comm rest.length, Nat.add_comm (rest.countP _), Nat.add_comm (rest.countP _)]
        exact total
  obtain ⟨taken, given, bodies, stored⟩ := counted (Separate.start mgr) done
  simp only [ServerHeap.start, Heap.blank, List.length_nil, Nat.zero_add] at taken given bodies stored
  exact ⟨taken, given, bodies, stored⟩

/-- A body in two pieces, a client that goes away after one piece, and a body in one piece. -/
def threeUploads : List Upload :=
  [{ pieces := [[97], [98]], complete := true, locals := fun _ => HandlerLocals.blank },
    { pieces := [[99]], complete := false, locals := fun _ => HandlerLocals.blank },
    { pieces := [[100]], complete := true, locals := fun _ => HandlerLocals.blank }]

theorem session_leaks_three :
    ∃ after, ServerHeap.session terminalsResource threeUploads
        (ServerHeap.start EquipmentMgr.blank) = .ok after ∧
      (after.posts.brk, after.posts.freed.length) = (3, 2) ∧
      (after.buffs.brk, after.buffs.freed.length) = (4, 2) := by
  have ran : (ServerHeap.session terminalsResource threeUploads
      (ServerHeap.start EquipmentMgr.blank)).map (fun _ => ()) = .ok () := by decide +kernel
  obtain ⟨after, done, _⟩ := map_eq_ok ran
  have passes : ∀ upload ∈ threeUploads, ∀ index, Passes (upload.locals index) terminalsResource := by
    intro upload member index
    simp only [threeUploads, List.mem_cons, List.not_mem_nil, or_false] at member
    rcases member with rfl | rfl | rfl <;> exact passes_blank
  have nonempty : ∀ upload ∈ threeUploads, ∀ piece ∈ upload.pieces, piece ≠ [] := by
    simp [threeUploads]
  obtain ⟨taken, given, bodies, stored⟩ := session_leaks strstr_resource passes nonempty done
  refine ⟨after, done, ?_, ?_⟩
  · rw [taken, given]
    decide
  · rw [bodies, stored]
    decide

end SmartPay
