import SmartPay.PostStatusCore

/-!
The POST branch on the heap does what it does with values in place of pointers, as
long as no two connections share a cell, and they never do.
-/

namespace SmartPay

open CLib

/-- Nothing is shared: each live status has a live buffer of its own, if it has one. -/
structure Separate (server : ServerHeap) : Prop where
  fresh : ∀ p, server.posts.brk ≤ p → (server.posts.content p).buff = none
  live : ∀ p b, server.posts.Live p → (server.posts.content p).buff = some b → server.buffs.Live b
  own : ∀ p q b, server.posts.Live p → server.posts.Live q →
    (server.posts.content p).buff = some b → (server.posts.content q).buff = some b → p = q

/-- What a call does to the heap: from a pointer and a heap to a heap and a pointer. -/
inductive HeapMove (server : ServerHeap) : Option Nat → ServerHeap → Option Nat → Prop
  | keep {conCls : Option Nat} {after : ServerHeap} (posts : after.posts = server.posts)
      (buffs : after.buffs = server.buffs) : HeapMove server conCls after conCls
  | first {after : ServerHeap} (buffs : after.buffs = server.buffs)
      (posts : after.posts = server.posts.malloc.1.set server.posts.brk
        { server.posts.content server.posts.brk with status := true }) :
      HeapMove server none after (some server.posts.brk)
  | mark {p : Nat} {after : ServerHeap} (live : server.posts.Live p)
      (buffs : after.buffs = server.buffs)
      (posts : after.posts = server.posts.set p
        { server.posts.content p with status := true }) : HeapMove server (some p) after (some p)
  | data {p : Nat} {body : Text} {after : ServerHeap} (live : server.posts.Live p)
      (buffs : after.buffs = server.buffs.malloc.1.set server.buffs.brk body)
      (posts : after.posts = server.posts.set p
        { server.posts.content p with buff := some server.buffs.brk }) :
      HeapMove server (some p) after (some p)
  | noData {p : Nat} {after : ServerHeap} (live : server.posts.Live p)
      (buffs : after.buffs = server.buffs) (posts : after.posts = server.posts.release p live) :
      HeapMove server (some p) after (some p)
  | stored {p b : Nat} {after : ServerHeap} (live : server.posts.Live p)
      (cell : (server.posts.content p).buff = some b) (held : server.buffs.Live b)
      (buffs : after.buffs = server.buffs.release b held)
      (posts : after.posts = server.posts.release p live) :
      HeapMove server (some p) after (some p)

section Calls

variable {locals : HandlerLocals} {url : Text} {call : Call} {conCls : Option Nat}
  {server : ServerHeap}

theorem firstPost_none (server : ServerHeap) :
    ServerHeap.firstPost server.posts none = .ok
      (server.posts.malloc.1.set server.posts.brk
        { server.posts.content server.posts.brk with status := false }, server.posts.brk) := by
  have live : server.posts.malloc.1.Live server.posts.brk :=
    (server.posts.live_malloc _).mpr (Or.inr rfl)
  simp only [ServerHeap.firstPost, Heap.malloc_address, Heap.load_ok live, Heap.store_ok live,
    Heap.malloc_content, bind, Except.bind]

/-- The first call takes a fresh cell and marks it. -/
theorem answerPost_fresh (passes : Passes locals url) :
    ServerHeap.answerPost locals url call none server = .ok {
      answer := .yes
      uploadDataSize := call.uploadDataSize
      conCls := some server.posts.brk
      server := { server with
        posts := server.posts.malloc.1.set server.posts.brk
          { server.posts.content server.posts.brk with status := true } } } := by
  obtain ⟨endPoint, scanned, zero⟩ := passes
  have live (cell : PostCell) :
      (server.posts.malloc.1.set server.posts.brk cell).Live server.posts.brk :=
    (server.posts.live_malloc _).mpr (Or.inr rfl)
  simp only [ServerHeap.answerPost, scanned, zero, firstPost_none, Heap.load_ok (live _),
    Heap.store_ok (live _), Heap.set_content_same, Heap.set_set, bind, Except.bind, ne_eq,
    not_true_eq_false, if_false, Bool.not_false, if_true]

theorem postWithData_view (locals : HandlerLocals) (separate : Separate server) {p : Nat}
    (live : server.posts.Live p) :
    (ServerHeap.postWithData locals p server).map (fun done => (done.1.view, done.2)) =
      (postWithData locals {
        status := (server.posts.content p).status
        buff := (server.posts.content p).buff.map server.buffs.content } server.mgr).map
        fun done => ({ mgr := done.1, postWithDataFlag := false }, done.2) := by
  cases cell : (server.posts.content p).buff with
  | none =>
      simp only [ServerHeap.postWithData, postWithData, Heap.load_ok live, cell, bind, Except.bind,
        Option.map_none, Except.map]
  | some b =>
      have held := separate.live p b live cell
      simp only [ServerHeap.postWithData, postWithData, Heap.load_ok live, cell, Option.map_some,
        Heap.load_ok held, Heap.free_ok held, ok_bind, map_of_bind]
      refine bind_congr fun jsonReqResp => bind_congr fun jsonReq => bind_congr fun created => ?_
      refine bind_congr fun served => ?_
      exact bind_congr fun reply => rfl

theorem postWithData_inv {p : Nat} {after : ServerHeap} {jsonReqResp : Buf maxResponseSize}
    (done : ServerHeap.postWithData locals p server = .ok (after, jsonReqResp)) :
    after.posts = server.posts ∧ after.postWithDataFlag = false ∧
      ∃ b, (server.posts.content p).buff = some b ∧
        ∃ held : server.buffs.Live b, after.buffs = server.buffs.release b held := by
  obtain ⟨cell, loaded, done⟩ := bind_eq_ok.mp done
  obtain ⟨_, rfl⟩ := Heap.load_eq_ok loaded
  split at done
  · cases done
  · rename_i b found
    obtain ⟨body, _, done⟩ := bind_eq_ok.mp done
    obtain ⟨printed, _, done⟩ := bind_eq_ok.mp done
    obtain ⟨buffs, freed, done⟩ := bind_eq_ok.mp done
    obtain ⟨jsonReq, _, done⟩ := bind_eq_ok.mp done
    obtain ⟨⟨created, request⟩, _, done⟩ := bind_eq_ok.mp done
    obtain ⟨⟨served, json⟩, _, done⟩ := bind_eq_ok.mp done
    obtain ⟨reply, _, done⟩ := bind_eq_ok.mp done
    cases done
    obtain ⟨held, rfl⟩ := Heap.free_eq_ok freed
    exact ⟨rfl, rfl, b, found, held, rfl⟩

theorem status_released {p : Nat} (live : server.posts.Live p) (mgr : EquipmentMgr) (flag : Bool)
    (buffs : Heap Text) :
    ServerHeap.status { mgr, postWithDataFlag := flag, posts := server.posts.release p live, buffs }
      (some p) = .dangling := by
  have gone : ¬(server.posts.release p live).Live p := by simp [Heap.live_release]
  simp only [ServerHeap.status, gone, if_false]

theorem answerPostLast_view (locals : HandlerLocals) (call : Call) (separate : Separate server)
    {p : Nat} (live : server.posts.Live p) :
    (ServerHeap.answerPostLast locals call p server).map HeapResult.view =
      answerPostLast locals call {
        status := (server.posts.content p).status
        buff := (server.posts.content p).buff.map server.buffs.content } server.view := by
  cases flag : server.postWithDataFlag with
  | false =>
      simp only [ServerHeap.answerPostLast, answerPostLast, ServerHeap.view, flag,
        Bool.false_eq_true, if_false, map_of_bind]
      cases locals.jsonReqResp.print 0 jsonPostWithNoData with
      | error fault => rfl
      | ok jsonReqResp =>
          simp only [ok_bind, Heap.free_ok live]
          refine bind_congr fun sent => ?_
          simp only [Except.map, HeapResult.view, status_released, ServerHeap.view, flag]
  | true =>
      have same := postWithData_view locals separate live
      simp only [ServerHeap.answerPostLast, answerPostLast, ServerHeap.view, flag, if_true]
      cases done : ServerHeap.postWithData locals p server with
      | error fault =>
          rw [done] at same
          cases model : postWithData locals {
              status := (server.posts.content p).status
              buff := (server.posts.content p).buff.map server.buffs.content } server.mgr with
          | error other =>
              rw [model] at same
              cases same
              rfl
          | ok result =>
              rw [model] at same
              cases same
      | ok result =>
          obtain ⟨after, jsonReqResp⟩ := result
          obtain ⟨posts, cleared, _⟩ := postWithData_inv done
          rw [done] at same
          cases model : postWithData locals {
              status := (server.posts.content p).status
              buff := (server.posts.content p).buff.map server.buffs.content } server.mgr with
          | error other =>
              rw [model] at same
              cases same
          | ok result =>
              obtain ⟨mgr, other⟩ := result
              rw [model] at same
              have equal := Except.ok.inj same
              obtain ⟨view, rfl⟩ := Prod.mk.inj equal
              have sameMgr : after.mgr = mgr := congrArg Server.mgr view
              have freed : after.posts.free (some p) = .ok (server.posts.release p live) := by
                rw [posts]
                exact Heap.free_ok live
              simp only [ok_bind, freed, map_of_bind]
              refine bind_congr fun sent => ?_
              simp only [Except.map, HeapResult.view, status_released, ServerHeap.view, sameMgr,
                cleared]

theorem answerPost_view (separate : Separate server) :
    (ServerHeap.answerPost locals url call conCls server).map HeapResult.view =
      answerPost locals url call (server.status conCls) server.view := by
  cases scanned : sscanf url terminalsResource locals.endPoint with
  | error fault => simp only [ServerHeap.answerPost, answerPost, scanned, bind, Except.bind, Except.map]
  | ok endPoint =>
      by_cases zero : endPoint.bytes.headD 0 = 0
      · cases conCls with
        | none =>
            rw [answerPost_fresh ⟨endPoint, scanned, zero⟩]
            have live (cell : PostCell) :
                (server.posts.malloc.1.set server.posts.brk cell).Live server.posts.brk :=
              (server.posts.live_malloc _).mpr (Or.inr rfl)
            have unset := separate.fresh server.posts.brk (Nat.le_refl _)
            simp only [answerPost, scanned, zero, ok_bind, ne_eq, not_true_eq_false, if_false,
              Except.map, HeapResult.view, ServerHeap.status, live, if_true, Heap.set_content_same,
              unset, Option.map_none, ServerHeap.view]
        | some p =>
            by_cases live : server.posts.Live p
            · have stays (cell : PostCell) : (server.posts.set p cell).Live p := live
              have fresh : server.buffs.malloc.1.Live server.buffs.brk :=
                (server.buffs.live_malloc _).mpr (Or.inr rfl)
              simp only [ServerHeap.answerPost, answerPost, scanned, zero, ok_bind, ne_eq,
                not_true_eq_false, if_false, ServerHeap.firstPost, Heap.load_ok live,
                ServerHeap.status, live, if_true]
              cases marked : (server.posts.content p).status with
              | false =>
                  simp only [Bool.not_false, if_true, Heap.store_ok live, ok_bind, Except.map,
                    HeapResult.view, ServerHeap.status, stays, Heap.set_content_same,
                    ServerHeap.view]
              | true =>
                  by_cases empty : call.uploadDataSize = 0
                  · have last := answerPostLast_view locals call separate live
                    rw [marked] at last
                    simp only [Bool.not_true, Bool.false_eq_true, if_false, empty,
                      not_true_eq_false]
                    exact last
                  · simp only [Bool.not_true, Bool.false_eq_true, if_false, empty,
                      not_false_eq_true, if_true, Heap.malloc_address, Heap.store_ok live,
                      Heap.store_ok fresh, ok_bind, Except.map, HeapResult.view,
                      ServerHeap.status, stays, Heap.set_content_same, Option.map_some,
                      ServerHeap.view]
            · have loaded : server.posts.load p = .error .useAfterFree := if_neg live
              simp only [ServerHeap.answerPost, answerPost, scanned, zero, ok_bind, ne_eq,
                not_true_eq_false, if_false, ServerHeap.firstPost, loaded, ServerHeap.status, live]
              rfl
      · simp only [ServerHeap.answerPost, answerPost, scanned, zero, ok_bind, ne_eq,
          not_false_eq_true, if_true, Except.map, HeapResult.view]

theorem answerPost_moves {result : HeapResult}
    (done : ServerHeap.answerPost locals url call conCls server = .ok result) :
    HeapMove server conCls result.server result.conCls := by
  obtain ⟨endPoint, scanned, rest⟩ := bind_eq_ok.mp done
  by_cases zero : endPoint.bytes.headD 0 = 0
  · cases conCls with
    | none =>
        rw [answerPost_fresh ⟨endPoint, scanned, zero⟩] at done
        cases done
        exact HeapMove.first rfl rfl
    | some p =>
        rw [if_neg (not_not.mpr zero)] at rest
        simp only [ServerHeap.firstPost, ok_bind] at rest
        obtain ⟨cell, loaded, rest⟩ := bind_eq_ok.mp rest
        obtain ⟨live, rfl⟩ := Heap.load_eq_ok loaded
        split at rest
        · obtain ⟨posts, stored, rest⟩ := bind_eq_ok.mp rest
          obtain ⟨_, rfl⟩ := Heap.store_eq_ok stored
          cases rest
          exact HeapMove.mark live rfl rfl
        · split at rest
          · obtain ⟨posts, stored, rest⟩ := bind_eq_ok.mp rest
            obtain ⟨buffs, written, rest⟩ := bind_eq_ok.mp rest
            obtain ⟨_, rfl⟩ := Heap.store_eq_ok stored
            obtain ⟨_, rfl⟩ := Heap.store_eq_ok written
            cases rest
            exact HeapMove.data live rfl rfl
          · obtain ⟨⟨after, jsonReqResp⟩, collected, rest⟩ := bind_eq_ok.mp rest
            obtain ⟨posts, freed, rest⟩ := bind_eq_ok.mp rest
            obtain ⟨sent, _, rest⟩ := bind_eq_ok.mp rest
            cases rest
            split at collected
            · obtain ⟨same, _, b, found, held, buffs⟩ := postWithData_inv collected
              rw [same] at freed
              obtain ⟨_, rfl⟩ := Heap.free_eq_ok freed
              exact HeapMove.stored live found held buffs rfl
            · obtain ⟨printed, _, collected⟩ := bind_eq_ok.mp collected
              cases collected
              obtain ⟨_, rfl⟩ := Heap.free_eq_ok freed
              exact HeapMove.noData live rfl rfl
  · rw [if_pos zero] at rest
    cases rest
    exact HeapMove.keep rfl rfl

end Calls

section Moves

variable {server after : ServerHeap} {conCls next : Option Nat}

theorem Separate.start (mgr : EquipmentMgr) : Separate (ServerHeap.start mgr) :=
  ⟨fun _ _ => rfl, fun p _ live => absurd live.1 (Nat.not_lt_zero p),
    fun p _ _ live => absurd live.1 (Nat.not_lt_zero p)⟩

/-- The cells of the other connections are as they were. -/
theorem HeapMove.elsewhere (separate : Separate server) (move : HeapMove server conCls after next)
    {q : Nat} (older : q < server.posts.brk) (other : conCls ≠ some q) :
    after.status (some q) = server.status (some q) := by
  cases move with
  | keep posts buffs => simp only [ServerHeap.status, posts, buffs]
  | first buffs posts =>
      have different : q ≠ server.posts.brk := Nat.ne_of_lt older
      have live (cell : PostCell) :
          (server.posts.malloc.1.set server.posts.brk cell).Live q ↔ server.posts.Live q := by
        rw [Heap.live_set, Heap.live_malloc]
        simp [different]
      simp only [ServerHeap.status, posts, buffs, live, Heap.set_content_ne _ _ different,
        Heap.malloc_content]
  | @mark p _ live buffs posts =>
      have different : q ≠ p := fun same => other (congrArg some same.symm)
      simp only [ServerHeap.status, posts, buffs, Heap.live_set, Heap.set_content_ne _ _ different]
  | @data p body _ live buffs posts =>
      have different : q ≠ p := fun same => other (congrArg some same.symm)
      simp only [ServerHeap.status, posts, buffs, Heap.live_set, Heap.set_content_ne _ _ different]
      by_cases alive : server.posts.Live q
      · cases cell : (server.posts.content q).buff with
        | none => rfl
        | some b =>
            have held := separate.live q b alive cell
            simp only [Option.map_some, Heap.set_content_ne _ _ held.ne_brk, Heap.malloc_content]
      · simp only [alive, if_false]
  | @noData p _ live buffs posts =>
      have different : q ≠ p := fun same => other (congrArg some same.symm)
      simp only [ServerHeap.status, posts, buffs, Heap.live_release, Heap.release_content,
        different, ne_eq, not_false_eq_true, and_true]
  | @stored p b _ live cell held buffs posts =>
      have different : q ≠ p := fun same => other (congrArg some same.symm)
      simp only [ServerHeap.status, posts, buffs, Heap.live_release, Heap.release_content,
        different, ne_eq, not_false_eq_true, and_true]

theorem HeapMove.separate (separate : Separate server) (move : HeapMove server conCls after next) :
    Separate after := by
  obtain ⟨fresh, held, own⟩ := separate
  cases move with
  | keep posts buffs =>
      refine ⟨?_, ?_, ?_⟩
      · rwa [posts]
      · rwa [posts, buffs]
      · rwa [posts]
  | first buffs posts =>
      have unset := fresh server.posts.brk (Nat.le_refl _)
      have content (p : Nat) : (after.posts.content p).buff = (server.posts.content p).buff := by
        rw [posts]
        by_cases same : p = server.posts.brk
        · rw [same, Heap.set_content_same]
        · rw [Heap.set_content_ne _ _ same, Heap.malloc_content]
      have older {p b : Nat} (live : after.posts.Live p) (cell : (after.posts.content p).buff = some b) :
          server.posts.Live p ∧ (server.posts.content p).buff = some b := by
        rw [content] at cell
        rw [posts, Heap.live_set, Heap.live_malloc] at live
        rcases live with old | rfl
        · exact ⟨old, cell⟩
        · rw [unset] at cell
          cases cell
      refine ⟨?_, ?_, ?_⟩
      · intro p above
        rw [content]
        refine fresh p ?_
        rw [posts] at above
        exact Nat.le_of_succ_le above
      · intro p b live cell
        obtain ⟨old, before⟩ := older live cell
        rw [buffs]
        exact held p b old before
      · intro p q b pLive qLive pCell qCell
        obtain ⟨pOld, pBefore⟩ := older pLive pCell
        obtain ⟨qOld, qBefore⟩ := older qLive qCell
        exact own p q b pOld qOld pBefore qBefore
  | @mark r _ live buffs posts =>
      have content (p : Nat) : (after.posts.content p).buff = (server.posts.content p).buff := by
        rw [posts]
        by_cases same : p = r
        · rw [same, Heap.set_content_same]
        · rw [Heap.set_content_ne _ _ same]
      refine ⟨?_, ?_, ?_⟩
      · intro p above
        rw [content]
        exact fresh p (by rwa [posts] at above)
      · intro p b alive cell
        rw [content] at cell
        rw [buffs]
        exact held p b (by rwa [posts] at alive) cell
      · intro p q b pLive qLive pCell qCell
        rw [content] at pCell qCell
        rw [posts] at pLive qLive
        exact own p q b pLive qLive pCell qCell
  | @data r body _ live buffs posts =>
      have other {p : Nat} (different : p ≠ r) : after.posts.content p = server.posts.content p := by
        rw [posts, Heap.set_content_ne _ _ different]
      have here : (after.posts.content r).buff = some server.buffs.brk := by
        rw [posts, Heap.set_content_same]
      have unused {p : Nat} (alive : server.posts.Live p)
          (cell : (server.posts.content p).buff = some server.buffs.brk) : False :=
        (held p _ alive cell).ne_brk rfl
      refine ⟨?_, ?_, ?_⟩
      · intro p above
        rw [posts] at above
        have different : p ≠ r := by
          rintro rfl
          exact Nat.not_lt.mpr above live.1
        rw [other different]
        exact fresh p above
      · intro p b alive cell
        rw [posts, Heap.live_set] at alive
        rw [buffs, Heap.live_set, Heap.live_malloc]
        by_cases same : p = r
        · rw [same, here] at cell
          exact Or.inr (Option.some.inj cell).symm
        · rw [other same] at cell
          exact Or.inl (held p b alive cell)
      · intro p q b pLive qLive pCell qCell
        rw [posts, Heap.live_set] at pLive qLive
        by_cases pSame : p = r
        · by_cases qSame : q = r
          · rw [pSame, qSame]
          · rw [pSame, here] at pCell
            rw [other qSame, ← pCell] at qCell
            exact (unused qLive qCell).elim
        · by_cases qSame : q = r
          · rw [qSame, here] at qCell
            rw [other pSame, ← qCell] at pCell
            exact (unused pLive pCell).elim
          · rw [other pSame] at pCell
            rw [other qSame] at qCell
            exact own p q b pLive qLive pCell qCell
  | @noData r _ live buffs posts =>
      have older {p : Nat} (alive : after.posts.Live p) : server.posts.Live p := by
        rw [posts, Heap.live_release] at alive
        exact alive.1
      refine ⟨?_, ?_, ?_⟩
      · rw [posts]
        exact fresh
      · intro p b alive cell
        rw [buffs]
        exact held p b (older alive) (by rwa [posts, Heap.release_content] at cell)
      · intro p q b pLive qLive pCell qCell
        rw [posts, Heap.release_content] at pCell qCell
        exact own p q b (older pLive) (older qLive) pCell qCell
  | @stored r b _ live cell alive buffs posts =>
      have older {p : Nat} (alive : after.posts.Live p) : server.posts.Live p ∧ p ≠ r := by
        rwa [posts, Heap.live_release] at alive
      refine ⟨?_, ?_, ?_⟩
      · rw [posts]
        exact fresh
      · intro p c pLive pCell
        rw [posts, Heap.release_content] at pCell
        obtain ⟨pOld, different⟩ := older pLive
        rw [buffs, Heap.live_release]
        refine ⟨held p c pOld pCell, ?_⟩
        rintro rfl
        exact different (own p r c pOld live pCell cell)
      · intro p q c pLive qLive pCell qCell
        rw [posts, Heap.release_content] at pCell qCell
        exact own p q c (older pLive).1 (older qLive).1 pCell qCell

/-- A connection keeps its pointer, and a new one is a cell that nobody had. -/
theorem HeapMove.pointer (move : HeapMove server conCls after next) :
    server.posts.brk ≤ after.posts.brk ∧
      (next = conCls ∨ conCls = none ∧ next = some server.posts.brk ∧
        after.posts.brk = server.posts.brk + 1) := by
  cases move with
  | keep posts buffs =>
      rw [posts]
      exact ⟨Nat.le_refl _, Or.inl rfl⟩
  | first buffs posts =>
      rw [posts]
      exact ⟨Nat.le_succ _, Or.inr ⟨rfl, rfl, rfl⟩⟩
  | mark live buffs posts =>
      rw [posts]
      exact ⟨Nat.le_refl _, Or.inl rfl⟩
  | data live buffs posts =>
      rw [posts]
      exact ⟨Nat.le_refl _, Or.inl rfl⟩
  | noData live buffs posts =>
      rw [posts]
      exact ⟨Nat.le_refl _, Or.inl rfl⟩
  | stored live cell held buffs posts =>
      rw [posts]
      exact ⟨Nat.le_refl _, Or.inl rfl⟩

end Moves

/-- No two connections have a pointer to the same cell. -/
structure Unshared (state : ConnectionsHeap) : Prop where
  separate : Separate state.server
  allocated : ∀ c p, state.conCls c = some p → p < state.server.posts.brk
  distinct : ∀ c d p, state.conCls c = some p → state.conCls d = some p → c = d

section Connecting

variable {url : Text} {state next : ConnectionsHeap} {action : ConnectionCall}

theorem handleOnHeap_moves (done : handleOnHeap url state action = .ok next) :
    ∃ pointer, HeapMove state.server (state.conCls action.connection) next.server pointer ∧
      next.conCls = Function.update state.conCls action.connection pointer := by
  obtain ⟨result, called, done⟩ := bind_eq_ok.mp done
  cases done
  refine ⟨result.conCls, ?_, rfl⟩
  simp only [ServerHeap.answerToConnection] at called
  split at called
  · cases called
    exact HeapMove.keep rfl rfl
  · exact answerPost_moves called

theorem Unshared.step (unshared : Unshared state) (done : handleOnHeap url state action = .ok next) :
    Unshared next := by
  obtain ⟨separate, allocated, distinct⟩ := unshared
  obtain ⟨pointer, move, conCls⟩ := handleOnHeap_moves done
  obtain ⟨grown, pointers⟩ := move.pointer
  have here : next.conCls action.connection = pointer := by
    rw [conCls, Function.update_self]
  have there {c : Nat} (other : c ≠ action.connection) : next.conCls c = state.conCls c := by
    rw [conCls, Function.update_of_ne other]
  rcases pointers with kept | ⟨_, new, brk⟩
  · have same (c : Nat) : next.conCls c = state.conCls c := by
      by_cases mine : c = action.connection
      · rw [mine, here, kept]
      · exact there mine
    refine ⟨move.separate separate, ?_, ?_⟩
    · intro c p found
      rw [same] at found
      exact Nat.lt_of_lt_of_le (allocated c p found) grown
    · intro c d p cFound dFound
      rw [same] at cFound dFound
      exact distinct c d p cFound dFound
  · have older {c p : Nat} (other : c ≠ action.connection) (found : next.conCls c = some p) :
        p < state.server.posts.brk := by
      rw [there other] at found
      exact allocated c p found
    refine ⟨move.separate separate, ?_, ?_⟩
    · intro c p found
      by_cases mine : c = action.connection
      · rw [mine, here, new] at found
        rw [brk, ← Option.some.inj found]
        exact Nat.lt_succ_self _
      · exact Nat.lt_of_lt_of_le (older mine found) grown
    · intro c d p cFound dFound
      by_cases cMine : c = action.connection
      · by_cases dMine : d = action.connection
        · rw [cMine, dMine]
        · rw [cMine, here, new] at cFound
          cases cFound
          exact absurd (older dMine dFound) (Nat.lt_irrefl _)
      · by_cases dMine : d = action.connection
        · rw [dMine, here, new] at dFound
          cases dFound
          exact absurd (older cMine cFound) (Nat.lt_irrefl _)
        · rw [there cMine] at cFound
          rw [there dMine] at dFound
          exact distinct c d p cFound dFound

theorem Connections.same {first second : Connections} (server : first.server = second.server)
    (conCls : first.conCls = second.conCls) (replies : first.replies = second.replies) :
    first = second := by
  cases first
  cases second
  simp only at server conCls replies
  rw [server, conCls, replies]

theorem handleOnHeap_view (unshared : Unshared state) :
    (handleOnHeap url state action).map ConnectionsHeap.view =
      handle url state.view action := by
  have call : (ServerHeap.answerToConnection action.locals url action.call
      (state.conCls action.connection) state.server).map HeapResult.view =
        answerToConnection action.locals url (lit "POST") action.call
          (state.view.conCls action.connection) state.view.server := by
    cases resource : strstr url terminalsResource with
    | false => simp only [ServerHeap.answerToConnection, answerToConnection, resource, if_true]; rfl
    | true =>
        rw [answerToConnection_post resource]
        simp only [ServerHeap.answerToConnection, resource, Bool.true_eq_false, if_false]
        exact answerPost_view unshared.separate
  simp only [handleOnHeap, handle, map_of_bind, ← call]
  cases done : ServerHeap.answerToConnection action.locals url action.call
      (state.conCls action.connection) state.server with
  | error fault => rfl
  | ok result =>
      have move : HeapMove state.server (state.conCls action.connection) result.server
          result.conCls := by
        simp only [ServerHeap.answerToConnection] at done
        split at done
        · cases done
          exact HeapMove.keep rfl rfl
        · exact answerPost_moves done
      have places : (fun c => result.server.status
          (Function.update state.conCls action.connection result.conCls c)) =
            Function.update (fun c => state.server.status (state.conCls c)) action.connection
              (result.server.status result.conCls) := by
        funext c
        by_cases mine : c = action.connection
        · rw [mine, Function.update_self, Function.update_self]
        · rw [Function.update_of_ne mine, Function.update_of_ne mine]
          cases pointer : state.conCls c with
          | none => rfl
          | some p =>
              refine move.elsewhere unshared.separate (unshared.allocated c p pointer) ?_
              exact fun same => mine (unshared.distinct c action.connection p pointer same)
      exact congrArg Except.ok (Connections.same rfl places rfl)

end Connecting

/-- A live status has one connection that points to it, and a live buffer one live status. -/
def CellsOwned (state : ConnectionsHeap) : Prop :=
  ∀ c d p q, state.conCls c = some p → state.conCls d = some q →
    state.server.posts.Live p → state.server.posts.Live q →
    (p = q → c = d) ∧
      ∀ b, (state.server.posts.content p).buff = some b → state.server.buffs.Live b ∧
        ((state.server.posts.content q).buff = some b → c = d)

theorem Unshared.cellsOwned {state : ConnectionsHeap} (unshared : Unshared state) :
    CellsOwned state := by
  intro c d p q cFound dFound cLive dLive
  have one : p = q → c = d := by
    rintro rfl
    exact unshared.distinct c d p cFound dFound
  refine ⟨one, fun b held => ⟨unshared.separate.live p b cLive held, fun again => ?_⟩⟩
  exact one (unshared.separate.own p q b cLive dLive held again)

theorem Unshared.start (mgr : EquipmentMgr) : Unshared (ConnectionsHeap.start mgr) :=
  ⟨Separate.start mgr, by simp [ConnectionsHeap.start], by simp [ConnectionsHeap.start]⟩

/-- Whatever calls any number of connections make, and in whatever order: with pointers into a
heap the handler does exactly what it does with the values they lead to, faults included, and no
two connections share a cell that is in use. -/
theorem post_heap_refines (url : Text) (mgr : EquipmentMgr) (calls : List ConnectionCall) :
    (runFrom (handleOnHeap url) (ConnectionsHeap.start mgr) calls).map ConnectionsHeap.view =
        runFrom (handle url) (Connections.start mgr) calls ∧
      ∀ final, runFrom (handleOnHeap url) (ConnectionsHeap.start mgr) calls = .ok final →
        CellsOwned final := by
  constructor
  · exact runFrom_view (fun _ _ _ unshared done => Unshared.step unshared done)
      (fun _ _ unshared => handleOnHeap_view unshared) (Unshared.start mgr) calls
  · intro final reached
    have always : Along (handleOnHeap url) (fun _ _ => True) (ConnectionsHeap.start mgr) calls :=
      along_of_forall (fun _ _ => trivial) _
    exact (runFrom_invariant (fun _ _ _ unshared _ done => Unshared.step unshared done)
      (Unshared.start mgr) always reached).cellsOwned

end SmartPay
