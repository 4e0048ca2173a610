import SmartPay.ShutdownChecks
import SmartPay.LifetimeChecks

/-!
What is left when the process exits. Every record is in some handler's hands or about
to be released by the manager, every terminal is in the list until the list is
released; so at the exit, when no handler is left, nothing is left.
-/

namespace SmartPay

open CLib

/-- The record a handler has to do with. -/
def HandlerPc.record : HandlerPc → Option Nat
  | idle => none
  | lock record _ => some record
  | add record _ => some record
  | unlock record => some record
  | wait record => some record
  | copy record => some record

/-- Every record that has not been released is somebody's. -/
structure Cared (p : Process) : Prop where
  records : ∀ r, p.mgr.requests.Live r →
    (∃ h, (p.handlers h).record = some r) ∨ r ∈ p.mgrPc.closing
  written : ∀ r ∈ p.log.written.map Prod.fst, p.mgr.requests.Live r → r ∈ p.mgrPc.closing

/-- Every terminal that has not been released is in the list. -/
structure Contained (mgr : EquipmentMgr) (nodes : List Nat) : Prop where
  linked : Linked mgr.terminals Terminals.next mgr.termList mgr.termListTail nodes
  all : ∀ t, mgr.terminals.Live t → t ∈ nodes

structure Sheltered (p : Process) : Prop where
  kept : ¬p.mgrPc.Ended → ∃ nodes, Contained p.mgr nodes
  released : p.mgrPc.Ended → ∀ t, ¬p.mgr.terminals.Live t

/-- `busy` is the number of handlers that are at work. -/
structure Counted (p : Process) : Prop where
  active : ∃ active : Finset Nat, active.card = p.busy ∧ ∀ h, h ∈ active ↔ p.handlers h ≠ .idle
  exited : p.mainPc = .exited → p.busy = 0

/-! Terminals. -/

section Terminals

variable {mgr : EquipmentMgr} {nodes : List Nat}

theorem createNode_inv {created : EquipmentMgr} {transData : Text} {t : Nat}
    (done : createNode mgr transData = .ok (created, t)) :
    t = mgr.terminals.brk ∧ created.termList = mgr.termList ∧
      created.termListTail = mgr.termListTail ∧
      ∃ node, created.terminals = mgr.terminals.malloc.1.set mgr.terminals.brk node := by
  simp only [createNode] at done
  split at done
  · cases done
  · obtain ⟨node, _, done⟩ := bind_eq_ok.mp done
    obtain ⟨transactions, _, done⟩ := bind_eq_ok.mp done
    obtain ⟨terminals, stored, done⟩ := bind_eq_ok.mp done
    cases done
    exact ⟨rfl, rfl, rfl, _, (Heap.store_eq_ok stored).2.symm⟩

theorem createTerminalFromJson_inv {created : EquipmentMgr} {json : Text} {t : Nat}
    (done : createTerminalFromJson mgr json = .ok (created, t)) :
    t = mgr.terminals.brk ∧ created.termList = mgr.termList ∧
      created.termListTail = mgr.termListTail ∧
      ∃ node, created.terminals = mgr.terminals.malloc.1.set mgr.terminals.brk node := by
  obtain ⟨⟨middle, newNode⟩, first, done⟩ := bind_eq_ok.mp done
  obtain ⟨node, _, done⟩ := bind_eq_ok.mp done
  obtain ⟨transactions, _, done⟩ := bind_eq_ok.mp done
  obtain ⟨terminals, stored, done⟩ := bind_eq_ok.mp done
  cases done
  obtain ⟨rfl, list, tail, before, same⟩ := createNode_inv first
  refine ⟨rfl, list, tail, { node with transactions }, ?_⟩
  rw [← (Heap.store_eq_ok stored).2, same, Heap.set_set]

/-- The node that a POST allocates is the one it adds. -/
theorem Contained.writeToDb {written : EquipmentMgr} {tempDataHolder json reply : Buf dataSize}
    (contained : Contained mgr nodes)
    (done : writeToDb mgr tempDataHolder json = .ok (written, reply)) :
    Contained written (nodes ++ [mgr.terminals.brk]) := by
  obtain ⟨text, _, done⟩ := bind_eq_ok.mp done
  obtain ⟨⟨created, newNode⟩, first, done⟩ := bind_eq_ok.mp done
  obtain ⟨⟨added, id⟩, second, done⟩ := bind_eq_ok.mp done
  obtain ⟨node, _, done⟩ := bind_eq_ok.mp done
  obtain ⟨holder, _, done⟩ := bind_eq_ok.mp done
  obtain ⟨held, _, done⟩ := bind_eq_ok.mp done
  obtain ⟨printed, _, done⟩ := bind_eq_ok.mp done
  cases done
  obtain ⟨rfl, list, tail, fresh, same⟩ := createTerminalFromJson_inv first
  have linked : Linked created.terminals Terminals.next created.termList created.termListTail
      nodes := by
    rw [list, tail, same]
    exact contained.linked.setFresh fresh
  have live (t : Nat) : created.terminals.Live t ↔ mgr.terminals.Live t ∨ t = mgr.terminals.brk := by
    rw [same]
    exact mgr.terminals.live_malloc t
  have absent : mgr.terminals.brk ∉ nodes := by
    intro member
    exact (contained.linked.chain.live _ member).ne_brk rfl
  obtain ⟨terminals, head, adds, next, kept⟩ :=
    addNodeToList_linked linked ((live _).mpr (Or.inr rfl)) absent
  cases adds.symm.trans second
  refine ⟨next, fun t alive => ?_⟩
  rcases (live t).mp ((FieldOnly.live kept t).mp alive) with old | new
  · exact List.mem_append_left _ (contained.all t old)
  · simp [new]

theorem Contained.handleRequest {served : EquipmentMgr} {locals : MgrLocals} {r : Nat}
    (contained : Contained mgr nodes) (done : handleRequest mgr locals r = .ok served) :
    ∃ more, Contained served more := by
  obtain ⟨item, _, done⟩ := bind_eq_ok.mp done
  obtain ⟨method, _, done⟩ := bind_eq_ok.mp done
  split at done
  · obtain ⟨⟨status, json, message⟩, _, done⟩ := bind_eq_ok.mp done
    obtain ⟨final, _, done⟩ := bind_eq_ok.mp done
    obtain ⟨requests, _, done⟩ := bind_eq_ok.mp done
    cases done
    exact ⟨nodes, contained.linked, contained.all⟩
  · split at done
    · obtain ⟨⟨written, reply⟩, wrote, done⟩ := bind_eq_ok.mp done
      obtain ⟨requests, _, done⟩ := bind_eq_ok.mp done
      cases done
      have next := contained.writeToDb wrote
      exact ⟨_, next.linked, next.all⟩
    · cases done
      exact ⟨nodes, contained⟩

theorem Contained.congr {other : EquipmentMgr} (contained : Contained mgr nodes)
    (same : StoreSame mgr other) : Contained other nodes := by
  obtain ⟨linked, all⟩ := contained
  refine ⟨?_, ?_⟩
  · rwa [same.terminals, same.list, same.tail]
  · rwa [same.terminals]

/-- Where nothing has been posted the list is empty. -/
theorem Contained.of_stores (contained : Contained mgr nodes) (store : Stores mgr []) :
    nodes = [] := by
  obtain ⟨others, list⟩ := store.list
  have empty : others = [] := List.forall₂_nil_right_iff.mp list.holds
  rw [contained.linked.chain.unique list.linked.chain, empty]

end Terminals

section Steps

variable {p q : Process}

theorem Sheltered.congr (sheltered : Sheltered p) (same : StoreSame p.mgr q.mgr)
    (ended : q.mgrPc.Ended ↔ p.mgrPc.Ended) : Sheltered q := by
  refine ⟨?_, ?_⟩
  · rw [ended]
    intro going
    obtain ⟨nodes, contained⟩ := sheltered.kept going
    exact ⟨nodes, contained.congr same⟩
  · rw [ended, same.terminals]
    exact sheltered.released

/-- Once the terminals are released, the manager's steps leave their heap alone. -/
theorem MgrMove.ended {locals : MgrLocals} (move : MgrMove p locals q) (ended : p.mgrPc.Ended) :
    q.mgrPc.Ended ∧ q.mgr.terminals = p.mgr.terminals := by
  cases move with
  | _ pc => first | exact ⟨trivial, rfl⟩ | exact absurd ended (by rw [pc]; exact id)

theorem MgrMove.going {locals : MgrLocals} (move : MgrMove p locals q) (going : ¬p.mgrPc.Ended)
    (lists : p.mgrPc ≠ .freeLists) : ¬q.mgrPc.Ended := by
  cases move with
  | loop pc =>
      simp only
      split <;> exact id
  | freeLists pc freed => exact absurd pc lists
  | _ pc => first | exact id | exact absurd (by rw [pc]; trivial) going

theorem Sheltered.mgrMove {locals : MgrLocals} (sheltered : Sheltered p) (lives : Lives p)
    (move : MgrMove p locals q) : Sheltered q := by
  by_cases ended : p.mgrPc.Ended
  · obtain ⟨stays, terminals⟩ := move.ended ended
    refine ⟨fun going => absurd stays going, fun _ => ?_⟩
    rw [terminals]
    exact sheltered.released ended
  obtain ⟨nodes, contained⟩ := sheltered.kept ended
  have next (nodes : List Nat) (contained : Contained q.mgr nodes) (going : ¬q.mgrPc.Ended) :
      Sheltered q := ⟨fun _ => ⟨nodes, contained⟩, fun ended => absurd ended going⟩
  have same (store : StoreSame p.mgr q.mgr) (after : ¬q.mgrPc.Ended) : Sheltered q :=
    next nodes (contained.congr store) after
  cases move with
  | init pc =>
      have store := (lives.serving ended).1
      rw [Process.servedRequests, lives.early (Or.inr pc)] at store
      have empty := contained.of_stores store
      refine next [] ⟨Linked.empty, fun t live => ?_⟩ id
      rw [← empty]
      exact contained.all t live
  | initTail pc => exact same ⟨rfl, rfl, rfl, rfl, rfl⟩ id
  | loop pc =>
      refine same ⟨rfl, rfl, rfl, rfl, rfl⟩ ?_
      simp only
      split <;> exact id
  | lock pc free => exact same ⟨rfl, rfl, rfl, rfl, rfl⟩ id
  | dequeue pc checked => exact same (checkQueueAndGetRequest_frame checked).2 id
  | unlockNone pc => exact same ⟨rfl, rfl, rfl, rfl, rfl⟩ id
  | unlockSome pc => exact same ⟨rfl, rfl, rfl, rfl, rfl⟩ id
  | serve pc handled =>
      obtain ⟨more, grown⟩ := contained.handleRequest handled
      exact next more grown id
  | setReady pc live => exact same ⟨rfl, rfl, rfl, rfl, rfl⟩ id
  | free pc live => exact same ⟨rfl, rfl, rfl, rfl, rfl⟩ id
  | freeLists pc freed =>
      obtain ⟨terminals, done, released⟩ := freeFrom_releases contained.linked.chain
        contained.linked.chain.length_le
      obtain ⟨⟨_, _⟩, walked, freed⟩ := bind_eq_ok.mp freed
      cases done.symm.trans walked
      cases freed
      refine ⟨fun going => absurd trivial going, fun _ t live => ?_⟩
      obtain ⟨alive, outside⟩ := (released.live t).mp live
      exact outside (contained.all t alive)
  | _ pc => exact absurd (by rw [pc]; trivial) ended

theorem Sheltered.mainMove (sheltered : Sheltered p) (lives : Lives p) (move : MainMove p q) :
    Sheltered q := by
  cases move with
  | createThread pc =>
      refine sheltered.congr ⟨rfl, rfl, rfl, rfl, rfl⟩ ?_
      rw [lives.thread (Or.inr pc)]
      exact Iff.rfl
  | getchar pc =>
      refine ⟨fun going => ?_, sheltered.released⟩
      obtain ⟨nodes, linked, all⟩ := sheltered.kept going
      exact ⟨nodes, linked, all⟩
  | _ => exact sheltered.congr ⟨rfl, rfl, rfl, rfl, rfl⟩ Iff.rfl

/-! Records. -/

/-- The handler's step passes every record on: what it gives up is released or in the manager's
hand. -/
theorem Cared.passes {h : Nat} {pc : HandlerPc} (cared : Cared p)
    (handlers : q.handlers = p.setHandler h pc) (mgrPc : q.mgrPc = p.mgrPc)
    (older : ∀ r, q.mgr.requests.Live r → p.mgr.requests.Live r ∨ pc.record = some r)
    (passes : ∀ r, (p.handlers h).record = some r → q.mgr.requests.Live r →
      pc.record = some r ∨ r ∈ p.mgrPc.closing) (r : Nat) (live : q.mgr.requests.Live r) :
    (∃ k, (q.handlers k).record = some r) ∨ r ∈ q.mgrPc.closing := by
  have here (found : pc.record = some r) : ∃ k, (q.handlers k).record = some r := by
    refine ⟨h, ?_⟩
    rw [handlers, Process.setHandler, Function.update_self]
    exact found
  rw [mgrPc]
  rcases older r live with before | found
  · rcases cared.records r before with ⟨k, found⟩ | closing
    · by_cases same : k = h
      · rw [same] at found
        exact (passes r found live).imp here id
      · refine Or.inl ⟨k, ?_⟩
        rw [handlers, Process.setHandler, Function.update_of_ne same]
        exact found
    · exact Or.inr closing
  · exact Or.inl (here found)

theorem Cared.handlerMove {action : Action} (cared : Cared p) (accounted : Accounted p)
    (marked : ∀ r ∈ p.log.written.map Prod.fst, r ∈ p.log.queued.map Prod.fst)
    (move : HandlerMove p action q) : Cared q := by
  have aside := move.aside
  refine ⟨?_, ?_⟩
  · cases move with
    | @create h request item here holds unready =>
        refine cared.passes rfl rfl ?_ ?_
        · intro r live
          exact ((p.mgr.requests.live_malloc r).mp live).imp id fun new => congrArg some new.symm
        · intro r found _
          rw [here] at found
          cases found
    | @lock h record request here free =>
        refine cared.passes rfl rfl (fun r live => Or.inl live) fun r found _ => Or.inl ?_
        rw [here] at found
        exact found
    | @add h record request mgr here added =>
        have kept := addRequestToQueue_kept added
        refine cared.passes rfl rfl (fun r live => Or.inl ((FieldOnly.live kept r).mp live)) ?_
        intro r found _
        rw [here] at found
        exact Or.inl found
    | @unlock h record here =>
        refine cared.passes rfl rfl (fun r live => Or.inl live) fun r found _ => Or.inl ?_
        rw [here] at found
        exact found
    | @testReady h record seen here live ready =>
        refine cared.passes rfl rfl (fun r live => Or.inl live) fun r found _ => Or.inl ?_
        rw [here] at found
        exact found
    | testAgain here live => exact cared.records
    | @testStale h record seen here dead =>
        refine cared.passes rfl rfl (fun r live => Or.inl live) fun r found _ => Or.inl ?_
        rw [here] at found
        exact found
    | testStaleAgain here dead => exact cared.records
    | @copy h record junk json here live read =>
        refine cared.passes rfl rfl (fun r live => Or.inl live) ?_
        intro r found alive
        rw [here] at found
        cases found
        -- a record that is copied and live is marked ready, and only one of those is not released
        have queued := accounted.handlers.awaited h record (by rw [here]; rfl)
        have ready := accounted.handlers.copying h record here live
        have written := accounted.ready record queued live ready
        exact Or.inr (cared.written record (List.mem_map_of_mem written) live)
    | @copyStale h record junk here dead =>
        refine cared.passes rfl rfl (fun r live => Or.inl live) ?_
        intro r found alive
        rw [here] at found
        cases found
        exact absurd alive dead
  · rw [aside.written, aside.pc]
    intro r written live
    exact cared.written r written ((move.older (accounted.allocated r (marked r written))).2 live)

theorem Cared.mgrMove {locals : MgrLocals} (cared : Cared p)
    (move : MgrMove p locals q) : Cared q := by
  have go (older : ∀ r, q.mgr.requests.Live r → p.mgr.requests.Live r)
      (place : q.handlers = p.handlers) (written : q.log.written = p.log.written)
      (before : p.mgrPc.closing = []) : Cared q := by
    have handled (r : Nat) (live : q.mgr.requests.Live r) :
        ∃ h, (q.handlers h).record = some r := by
      rw [place]
      rcases cared.records r (older r live) with found | closing
      · exact found
      · rw [before] at closing
        cases closing
    refine ⟨fun r live => Or.inl (handled r live), ?_⟩
    rw [written]
    intro r inside live
    have closing := cared.written r inside (older r live)
    rw [before] at closing
    cases closing
  cases move with
  | dequeue pc checked =>
      refine go (fun r live => ?_) rfl rfl (by rw [pc]; rfl)
      simp only [(checkQueueAndGetRequest_frame checked).1] at live
      exact live
  | serve pc handled =>
      obtain ⟨_, ⟨json, requests⟩, _⟩ := handleRequest_frame handled
      refine go (fun r live => ?_) rfl rfl (by rw [pc]; rfl)
      simp only [requests, Heap.live_set] at live
      exact live
  | @setReady r pc live =>
      have nothing : p.mgrPc.closing = [] := by rw [pc]; rfl
      refine ⟨fun s alive => ?_, fun s written alive => ?_⟩
      · rcases cared.records s alive with found | closing
        · exact Or.inl found
        · rw [nothing] at closing
          cases closing
      · simp only [List.map_append, List.map_cons, List.map_nil, List.mem_append] at written
        rcases written with old | new
        · have closing := cared.written s old alive
          rw [nothing] at closing
          cases closing
        · exact new
  | @free r pc live =>
      have released (s : Nat) (alive : (p.mgr.requests.release r live).Live s) :
          p.mgr.requests.Live s ∧ s ∉ p.mgrPc.closing := by
        obtain ⟨before, other⟩ := (Heap.live_release _ _ _ live).mp alive
        rw [pc]
        exact ⟨before, by simpa [MgrPc.closing] using other⟩
      refine ⟨fun s alive => ?_, fun s written alive => ?_⟩
      · obtain ⟨before, outside⟩ := released s alive
        exact (cared.records s before).imp id fun closing => absurd closing outside
      · obtain ⟨before, outside⟩ := released s alive
        exact absurd (cared.written s written before) outside
  | freeLists pc freed =>
      refine go (fun r live => ?_) rfl rfl (by rw [pc]; rfl)
      simp only [(freeTerminals_frame freed).1] at live
      exact live
  | freeReq pc live =>
      exact go (fun r alive => ((Heap.live_release _ _ _ live).mp alive).1) rfl rfl (by rw [pc]; rfl)
  | _ pc => exact go (fun _ live => live) rfl rfl (by rw [pc]; rfl)

/-! Handlers. -/

theorem createStep_runs {h : Nat} {request : Request} (done : p.createStep h request = .ok q) :
    p.daemonRuns = true := by
  simp only [Process.createStep] at done
  split at done
  · split at done
    · assumption
    · cases done
  · cases done

theorem Counted.congr (counted : Counted p) (busy : q.busy = p.busy)
    (handlers : ∀ h, q.handlers h ≠ .idle ↔ p.handlers h ≠ .idle)
    (exited : q.mainPc = .exited → p.mainPc = .exited) : Counted q := by
  obtain ⟨active, card, working⟩ := counted.active
  refine ⟨⟨active, card.trans busy.symm, fun h => ?_⟩, fun gone => ?_⟩
  · rw [working h, handlers h]
  · rw [busy]
    exact counted.exited (exited gone)

/-- A handler that goes on is at work before and after. -/
theorem Counted.goes {h : Nat} {pc : HandlerPc} (counted : Counted p) (busy : q.busy = p.busy)
    (main : q.mainPc = p.mainPc) (handlers : q.handlers = p.setHandler h pc)
    (before : p.handlers h ≠ .idle) (after : pc ≠ .idle) : Counted q := by
  refine counted.congr busy (fun k => ?_) fun gone => main ▸ gone
  rw [handlers, Process.setHandler]
  by_cases same : k = h
  · rw [same, Function.update_self]
    exact ⟨fun _ => before, fun _ => after⟩
  · rw [Function.update_of_ne same]

theorem Counted.ends {h : Nat} (counted : Counted p) (busy : q.busy = p.busy - 1)
    (main : q.mainPc = p.mainPc) (handlers : q.handlers = p.setHandler h .idle)
    (before : p.handlers h ≠ .idle) : Counted q := by
  obtain ⟨active, card, working⟩ := counted.active
  refine ⟨⟨active.erase h, ?_, fun k => ?_⟩, fun gone => ?_⟩
  · rw [Finset.card_erase_of_mem ((working h).mpr before), card, busy]
  · rw [Finset.mem_erase, working k, handlers, Process.setHandler]
    by_cases same : k = h
    · simp [same]
    · simp [same]
  · rw [main] at gone
    rw [busy, counted.exited gone]

theorem Counted.handlerMove {action : Action} (counted : Counted p) (done : p.step action = .ok q)
    (move : HandlerMove p action q) : Counted q := by
  cases move with
  | @create h request item here holds unready =>
      obtain ⟨active, card, working⟩ := counted.active
      have fresh : h ∉ active := by
        rw [working h, here]
        simp
      refine ⟨⟨insert h active, ?_, fun k => ?_⟩, fun gone => ?_⟩
      · rw [Finset.card_insert_of_notMem fresh, card]
      · rw [Finset.mem_insert, working k, Process.setHandler]
        by_cases same : k = h
        · simp [same]
        · simp [same]
      · have stopped : p.mainPc = .exited := gone
        have runs := createStep_runs done
        simp [Process.daemonRuns, stopped] at runs
  | lock here free => exact counted.goes rfl rfl rfl (by simp [here]) (by simp)
  | add here added => exact counted.goes rfl rfl rfl (by simp [here]) (by simp)
  | unlock here => exact counted.goes rfl rfl rfl (by simp [here]) (by simp)
  | testReady here live ready => exact counted.goes rfl rfl rfl (by simp [here]) (by simp)
  | testAgain here live => exact counted
  | testStale here dead => exact counted.goes rfl rfl rfl (by simp [here]) (by simp)
  | testStaleAgain here dead => exact counted.congr rfl (fun _ => Iff.rfl) id
  | copy here live read => exact counted.ends rfl rfl rfl (by simp [here])
  | copyStale here dead => exact counted.ends rfl rfl rfl (by simp [here])

theorem Counted.mainMove (counted : Counted p) (done : p.mainStep = .ok q) : Counted q := by
  cases pc : p.mainPc with
  | stopDaemon =>
      obtain ⟨active, card, working⟩ := counted.active
      simp only [Process.mainStep, pc] at done
      split at done
      · rename_i idle
        cases done
        exact ⟨⟨active, card, working⟩, fun _ => idle⟩
      · cases done
  | exited =>
      simp only [Process.mainStep, pc] at done
      cases done
  | join =>
      simp only [Process.mainStep, pc] at done
      split at done
      · cases done
        exact counted.congr rfl (fun _ => Iff.rfl) (by simp)
      · cases done
  | waitFlag =>
      simp only [Process.mainStep, pc] at done
      cases done
      refine counted.congr rfl (fun _ => Iff.rfl) fun gone => ?_
      simp only at gone
      split at gone <;> cases gone
  | _ =>
      simp only [Process.mainStep, pc] at done
      cases done
      exact counted.congr rfl (fun _ => Iff.rfl) (by simp)

end Steps

/-- The invariants of the whole life that decide what is left at the end. -/
structure Ending (p : Process) : Prop where
  lives : Lives p
  handshake : Handshake p
  cared : Cared p
  sheltered : Sheltered p
  counted : Counted p

theorem Ending.boot : Ending Process.boot := by
  refine ⟨Lives.boot, Handshake.boot, ⟨?_, ?_⟩, ⟨?_, ?_⟩, ⟨⟨∅, rfl, ?_⟩, ?_⟩⟩
  · exact fun r live => absurd live.1 (Nat.not_lt_zero r)
  · simp [Process.boot, Log.empty]
  · exact fun _ => ⟨[], Linked.empty, fun t live => absurd live.1 (Nat.not_lt_zero t)⟩
  · exact fun ended => ended.elim
  · simp [Process.boot]
  · exact fun _ => rfl

theorem Lives.written_queued {p : Process} (lives : Lives p) {r : Nat}
    (written : r ∈ p.log.written.map Prod.fst) : r ∈ p.log.queued.map Prod.fst := by
  have served : r ∈ p.log.served.map Prod.fst := by
    rw [lives.marked]
    exact List.mem_append_left _ written
  exact (lives.accounted.order.map Prod.fst).subset served

theorem Ending.step {p q : Process} {action : Action} (ending : Ending p)
    (done : p.step action = .ok q) : Ending q := by
  obtain ⟨lives, handshake, cared, sheltered, counted⟩ := ending
  have nextLives := lives.step done
  have nextHandshake := handshake.step done
  cases action with
  | main =>
      have move := mainStep_moves done
      refine ⟨nextLives, nextHandshake, ?_, sheltered.mainMove lives move, counted.mainMove done⟩
      cases move with
      | createThread pc =>
          have nothing : p.mgrPc.closing = [] := by rw [lives.thread (Or.inr pc)]; rfl
          refine ⟨fun r live => ?_, fun r written live => ?_⟩
          · rcases cared.records r live with found | closing
            · exact Or.inl found
            · rw [nothing] at closing
              cases closing
          · have closing := cared.written r written live
            rw [nothing] at closing
            cases closing
      | _ => exact ⟨cared.records, cared.written⟩
  | mgr locals =>
      have move := mgrStep_moves done
      refine ⟨nextLives, nextHandshake, cared.mgrMove move, sheltered.mgrMove lives move, ?_⟩
      refine counted.congr ?_ (fun h => ?_) fun gone => move.outside.main ▸ gone
      · cases move <;> rfl
      · rw [move.handlers]
  | _ =>
      have move := handlerStep_moves (by simp [Action.handler]) done
      refine ⟨nextLives, nextHandshake,
        cared.handlerMove lives.accounted (fun r => lives.written_queued) move, ?_,
        counted.handlerMove done move⟩
      refine sheltered.congr move.aside.store ?_
      rw [move.aside.pc]

theorem ending_of_run {actions : List Action} {p : Process}
    (reached : runFrom Process.step Process.boot actions = .ok p) : Ending p :=
  runFrom_invariant (fun _ _ _ ending _ done => Ending.step ending done) Ending.boot along_true
    reached

/-- The manager leaves its loop only once `main` has asked for it. `main` goes on only once every
terminal is released and the manager has nothing left but to return, and at the join it waits for
no more than that. -/
theorem stop_handshake {actions : List Action} {p : Process}
    (reached : runFrom Process.step Process.boot actions = .ok p) :
    (p.mgrPc = .freeLists ∨ p.mgrPc.Ended → p.mainPc.Asked) ∧
      (p.mainPc.Passed → (p.mgrPc = .returning ∨ p.mgrPc = .finished) ∧
        ∀ t, ¬p.mgr.terminals.Live t) ∧
      (p.mainPc = .join →
        (p.mgrPc = .returning ∧ p.step .main = .error .disabled ∧ ∀ locals, ∃ q final,
          p.mgrStep locals = .ok q ∧ q.step .main = .ok final ∧ final.mainPc = .stopDaemon) ∨
        p.mgrPc = .finished ∧ ∃ q, p.step .main = .ok q ∧ q.mainPc = .stopDaemon) := by
  obtain ⟨_, handshake, _, sheltered, _⟩ := ending_of_run reached
  have goes {p : Process} (pc : p.mainPc = .join) (finished : p.mgrPc = .finished) :
      ∃ q, p.step .main = .ok q ∧ q.mainPc = .stopDaemon := by
    refine ⟨{ p with mainPc := .stopDaemon }, ?_, rfl⟩
    simp only [Process.step, Process.mainStep, pc, finished, if_true]
  refine ⟨fun gone => ?_, fun passed => ?_, fun pc => ?_⟩
  · by_contra unasked
    obtain ⟨_, lists, ended⟩ := handshake.running unasked
    exact gone.elim lists ended
  · have signalled := handshake.passed passed
    exact ⟨signalled.cases, sheltered.released signalled.ended⟩
  · rcases (handshake.passed (by rw [pc]; trivial)).cases with returning | finished
    · refine Or.inl ⟨returning, ?_, fun locals => ?_⟩
      · simp only [Process.step, Process.mainStep, pc, returning, reduceCtorEq, if_false]
      · let q : Process := { p with mgrPc := .finished }
        obtain ⟨final, done, next⟩ := goes (show q.mainPc = .join from pc) rfl
        refine ⟨q, final, ?_, done, next⟩
        simp only [Process.mgrStep, returning, q]
    · exact Or.inr ⟨finished, goes pc finished⟩

/-- A process without a client, up to the join. -/
def toldToStop : List Action :=
  [.main, .main, .mgr MgrLocals.blank, .mgr MgrLocals.blank, .main] ++
    List.replicate 4 (.mgr MgrLocals.blank) ++ [.main]

theorem stop_handshake_join :
    ∃ p q final, runFrom Process.step Process.boot toldToStop = .ok p ∧ p.mgrPc = .returning ∧
      p.step .main = .error .disabled ∧ p.mgrStep MgrLocals.blank = .ok q ∧
      q.step .main = .ok final ∧ final.mainPc = .stopDaemon := by
  have ran : (runFrom Process.step Process.boot toldToStop).map (fun p => (p.mainPc, p.mgrPc)) =
      .ok (.join, .returning) := by decide +kernel
  obtain ⟨p, reached, place⟩ := map_eq_ok ran
  obtain ⟨pc, returning⟩ := Prod.mk.inj place
  rcases (stop_handshake reached).2.2 pc with ⟨_, waits, returns⟩ | ⟨finished, _⟩
  · obtain ⟨q, final, done⟩ := returns MgrLocals.blank
    exact ⟨p, q, final, reached, returning, waits, done⟩
  · rw [returning] at finished
    cases finished

/-- When the process exits, every handler has returned, and every record and every terminal it
ever allocated has been released. -/
theorem exit_releases_all {actions : List Action} {p : Process}
    (reached : runFrom Process.step Process.boot actions = .ok p) (exited : p.mainPc = .exited) :
    (∀ h, p.handlers h = .idle) ∧ (∀ r, r < p.mgr.requests.brk → r ∈ p.mgr.requests.freed) ∧
      ∀ t, t < p.mgr.terminals.brk → t ∈ p.mgr.terminals.freed := by
  obtain ⟨_, handshake, cared, sheltered, counted⟩ := ending_of_run reached
  have finished := handshake.joined (Or.inr exited)
  have idle (h : Nat) : p.handlers h = .idle := by
    obtain ⟨active, card, working⟩ := counted.active
    rw [counted.exited exited, Finset.card_eq_zero] at card
    by_contra busy
    have member := (working h).mpr busy
    rw [card] at member
    exact Finset.notMem_empty h member
  refine ⟨idle, fun r allocated => ?_, fun t allocated => ?_⟩
  · by_contra leaked
    rcases cared.records r ⟨allocated, leaked⟩ with ⟨h, found⟩ | closing
    · rw [idle h] at found
      cases found
    · rw [finished] at closing
      cases closing
  · by_contra leaked
    exact sheltered.released (by rw [finished]; trivial) t ⟨allocated, leaked⟩

/-- A session of one request, and the end of the process after it. -/
def servedAndStopped : List Action :=
  [.main, .main, .mgr MgrLocals.blank, .mgr MgrLocals.blank, .create 0 (.post (lit "a")), .lock 0,
    .add 0, .unlock 0] ++ List.replicate 6 (.mgr MgrLocals.blank) ++
    [.test 0 false, .copy 0 (lit ""), .main] ++ List.replicate 6 (.mgr MgrLocals.blank) ++
    [.main, .main, .main]

theorem exit_releases_all_stopped :
    ∃ p, runFrom Process.step Process.boot servedAndStopped = .ok p ∧ p.mainPc = .exited ∧
      0 ∈ p.mgr.requests.freed ∧ 0 ∈ p.mgr.terminals.freed := by
  have ran : (runFrom Process.step Process.boot servedAndStopped).map (fun p =>
      (p.mainPc, p.mgr.requests.brk, p.mgr.terminals.brk)) = .ok (.exited, 1, 1) := by
    decide +kernel
  obtain ⟨p, reached, final⟩ := map_eq_ok ran
  obtain ⟨exited, bounds⟩ := Prod.mk.inj final
  obtain ⟨records, terminals⟩ := Prod.mk.inj bounds
  obtain ⟨_, recordsFreed, terminalsFreed⟩ := exit_releases_all reached exited
  refine ⟨p, reached, exited, recordsFreed 0 ?_, terminalsFreed 0 ?_⟩
  · rw [records]
    exact Nat.one_pos
  · rw [terminals]
    exact Nat.one_pos

/-! Requests that nobody will answer. -/

/-- A record that the manager cannot come to any more: the manager is through with its lists, or
the record is in no list and not in the manager's hand. -/
def Dropped (p : Process) (r : Nat) : Prop :=
  p.mgrPc = .signal ∨ p.mgrPc = .returning ∨ p.mgrPc = .finished ∨
    ¬Reachable p.mgr r ∧ r ∉ p.mgrPc.taken ∧ r ∉ p.mgrPc.answered ∧ r ∉ p.mgrPc.releasing

/-- A handler waits for a record that is dropped. -/
structure Stuck (p : Process) (h r : Nat) : Prop where
  waits : p.handlers h = .wait r
  live : p.mgr.requests.Live r
  unanswered : r ∉ p.log.written.map Prod.fst
  dropped : Dropped p r

section Drops

variable {p q : Process} {lost kept hand waiting : List (Nat × Request)} {h r : Nat}

/-- The records that are not lost, by where they are. -/
theorem Held.mem_kept (held : Held p lost kept hand waiting) :
    r ∈ kept.map Prod.fst ↔ r ∈ p.log.written.map Prod.fst ∨ r ∈ p.mgrPc.answered ∨
      r ∈ p.mgrPc.taken ∨ r ∈ waiting.map Prod.fst := by
  have accounts : kept = p.log.served ++ hand ++ waiting := held.records.accounts
  have answered : p.log.served.map Prod.fst = p.log.written.map Prod.fst ++ p.mgrPc.answered :=
    held.records.answered
  rw [accounts, List.map_append, List.map_append, answered, held.records.taken]
  simp only [List.mem_append, or_assoc]

theorem Held.in_lost (held : Held p lost kept hand waiting) (queued : r ∈ p.log.queued.map Prod.fst)
    (unanswered : r ∉ p.log.written.map Prod.fst) (unreachable : ¬Reachable p.mgr r)
    (untaken : r ∉ p.mgrPc.taken) (unserved : r ∉ p.mgrPc.answered) : r ∈ lost.map Prod.fst := by
  rw [held.mem_queued, held.mem_kept] at queued
  rcases queued with forgotten | written | served | taken | waits
  · exact forgotten
  · exact absurd written unanswered
  · exact absurd served unserved
  · exact absurd taken untaken
  · exact absurd ⟨_, held.records.queue, waits⟩ unreachable

theorem MgrPc.releasing_of_going {pc : MgrPc} (going : ¬pc.Ended) : pc.releasing = [] := by
  cases pc <;> first | rfl | exact absurd trivial going

theorem Dropped.going (dropped : Dropped p r) (going : ¬p.mgrPc.Ended) :
    ¬Reachable p.mgr r ∧ r ∉ p.mgrPc.taken ∧ r ∉ p.mgrPc.answered := by
  rcases dropped with pc | pc | pc | ⟨unreachable, untaken, unserved, _⟩
  · exact absurd (by rw [pc]; trivial) going
  · exact absurd (by rw [pc]; trivial) going
  · exact absurd (by rw [pc]; trivial) going
  · exact ⟨unreachable, untaken, unserved⟩

theorem Held.out_of_hand (held : Held p lost kept hand waiting) (forgotten : r ∈ lost.map Prod.fst) :
    p.mgr.requests.Live r ∧ r ∉ p.log.written.map Prod.fst ∧ ¬Reachable p.mgr r ∧
      r ∉ p.mgrPc.taken ∧ r ∉ p.mgrPc.answered := by
  obtain ⟨entry, member, rfl⟩ := List.mem_map.mp forgotten
  have outside : entry.1 ∉ kept.map Prod.fst := fun inside => held.lost_ne member inside rfl
  simp only [held.mem_kept, not_or] at outside
  obtain ⟨unwritten, unserved, untaken, elsewhere⟩ := outside
  exact ⟨(held.forgotten entry member).live, unwritten,
    unreachable_of_chain held.records.queue elsewhere, untaken, unserved⟩

theorem Stuck.queued (stuck : Stuck p h r) (lives : Lives p) : r ∈ p.log.queued.map Prod.fst :=
  lives.accounted.handlers.awaited h r (by rw [stuck.waits]; rfl)

/-- Until the lists are given up, the records that are dropped are the ones that are lost. -/
theorem Stuck.in_lost (stuck : Stuck p h r) (lives : Lives p) (going : ¬p.mgrPc.Ended)
    (held : Held p lost kept hand waiting) : r ∈ lost.map Prod.fst := by
  obtain ⟨unreachable, untaken, unserved⟩ := stuck.dropped.going going
  exact held.in_lost (stuck.queued lives) stuck.unanswered unreachable untaken unserved

theorem Stuck.of_held (held : Held p lost kept hand waiting) (going : ¬p.mgrPc.Ended)
    (waits : p.handlers h = .wait r) (forgotten : r ∈ lost.map Prod.fst) : Stuck p h r := by
  obtain ⟨live, unanswered, unreachable, untaken, unserved⟩ := held.out_of_hand forgotten
  refine ⟨waits, live, unanswered, Or.inr (Or.inr (Or.inr ⟨unreachable, untaken, unserved, ?_⟩))⟩
  rw [MgrPc.releasing_of_going going]
  exact List.not_mem_nil

/-- What the second loop of `freeNodeList` walks does not come back to a record that is dropped. -/
theorem Stuck.endMove {locals : MgrLocals} (stuck : Stuck p h r) (lives : Lives p)
    (ended : p.mgrPc.Ended) (move : MgrMove p locals q) :
    q.mgr.requests.Live r ∧ q.log.written = p.log.written ∧ Dropped q r := by
  obtain ⟨nodes, leaving⟩ := lives.leaving ended
  obtain ⟨next, _, held⟩ := leaving.mgrMove ended move
  have far (outside : r ∉ nodes) (unheld : r ∉ p.mgrPc.releasing) (hand : q.mgrPc.taken = [])
      (answered : q.mgrPc.answered = []) : Dropped q r := by
    refine Or.inr (Or.inr (Or.inr ⟨unreachable_of_chain next.queue ?_, ?_, ?_, ?_⟩))
    · exact fun member => outside (MgrPc.mem_keeps member)
    · simp [hand]
    · simp [answered]
    · exact fun member => (held r member).elim unheld outside
  have apart (walking : p.mgrPc ≠ .signal ∧ p.mgrPc ≠ .returning ∧ p.mgrPc ≠ .finished) :
      r ∉ nodes ∧ r ∉ p.mgrPc.releasing := by
    rcases stuck.dropped with pc | pc | pc | ⟨unreachable, _, _, unheld⟩
    · exact absurd pc walking.1
    · exact absurd pc walking.2.1
    · exact absurd pc walking.2.2
    · exact ⟨fun member => unreachable ⟨nodes, leaving.queue, member⟩, unheld⟩
  cases move with
  | @freeReq s pc live =>
      obtain ⟨outside, unheld⟩ := apart (by simp [pc])
      have other : r ≠ s := by
        rintro rfl
        exact unheld (by rw [pc]; simp [MgrPc.releasing])
      exact ⟨(Heap.live_release _ _ _ live).mpr ⟨stuck.live, other⟩, rfl, far outside unheld rfl rfl⟩
  | freeReqsEnd pc empty => exact ⟨stuck.live, rfl, Or.inl rfl⟩
  | signal pc => exact ⟨stuck.live, rfl, Or.inr (Or.inl rfl)⟩
  | returning pc => exact ⟨stuck.live, rfl, Or.inr (Or.inr (Or.inl rfl))⟩
  | freeReqsMore pc more =>
      obtain ⟨outside, unheld⟩ := apart (by simp [pc])
      exact ⟨stuck.live, rfl, far outside unheld rfl rfl⟩
  | freeNext pc list live =>
      obtain ⟨outside, unheld⟩ := apart (by simp [pc])
      exact ⟨stuck.live, rfl, far outside unheld rfl rfl⟩
  | freeReqNull pc =>
      obtain ⟨outside, unheld⟩ := apart (by simp [pc])
      exact ⟨stuck.live, rfl, far outside unheld rfl rfl⟩
  | freeMove pc =>
      obtain ⟨outside, unheld⟩ := apart (by simp [pc])
      exact ⟨stuck.live, rfl, far outside unheld rfl rfl⟩
  | _ pc => exact absurd ended (by rw [pc]; exact id)

theorem Stuck.mgrMove {locals : MgrLocals} (stuck : Stuck p h r) (lives : Lives p)
    (move : MgrMove p locals q) : Stuck q h r := by
  have waits : q.handlers h = .wait r := by
    rw [move.handlers]
    exact stuck.waits
  by_cases ended : p.mgrPc.Ended
  · obtain ⟨live, written, dropped⟩ := stuck.endMove lives ended move
    exact ⟨waits, live, written ▸ stuck.unanswered, dropped⟩
  · obtain ⟨store, lost, kept, hand, waiting, held⟩ := lives.serving ended
    have forgotten := stuck.in_lost lives ended held
    by_cases lists : p.mgrPc = .freeLists
    · cases move with
      | freeLists pc freed =>
          obtain ⟨requests, list, _, _⟩ := freeTerminals_frame freed
          have outside : r ∉ waiting.map Prod.fst := fun inside =>
            (held.out_of_hand forgotten).2.2.1 ⟨_, held.records.queue, inside⟩
          refine ⟨waits, ?_, stuck.unanswered, Or.inr (Or.inr (Or.inr ⟨?_, by simp [MgrPc.taken],
            by simp [MgrPc.answered], ?_⟩))⟩
          · simp only [requests]
            exact stuck.live
          · apply unreachable_of_chain _ outside
            simp only [requests, list]
            exact held.records.queue
          · simp only [MgrPc.releasing, Option.mem_toList]
            exact fun head => outside (List.mem_of_head? (held.records.queue.head_eq.trans head))
      | _ pc => rw [lists] at pc; cases pc
    · obtain ⟨more, rest, first, later, next⟩ :=
        held.mgrMove (fun init => lives.early (Or.inr init)) move ⟨lists, ended⟩
      refine Stuck.of_held next (move.going ended lists) waits ?_
      rw [List.map_append]
      exact List.mem_append_left _ forgotten

theorem Stuck.handlerMove {action : Action} (stuck : Stuck p h r) (lives : Lives p)
    (move : HandlerMove p action q) : Stuck q h r := by
  have queued := stuck.queued lives
  have unready : (p.mgr.requests.content r).isResponseReady ≠ true := fun ready =>
    stuck.unanswered (List.mem_map_of_mem (lives.accounted.ready r queued stuck.live ready))
  have waits : q.handlers h = .wait r := by
    by_cases mine : action.handler = some h
    · cases move with
      | testReady here live ready =>
          cases mine
          cases stuck.waits.symm.trans here
          exact absurd ready unready
      | testAgain here live => exact stuck.waits
      | testStale here dead =>
          cases mine
          cases stuck.waits.symm.trans here
          exact absurd stuck.live dead
      | testStaleAgain here dead => exact stuck.waits
      | _ here =>
          cases mine
          cases stuck.waits.symm.trans here
    · rw [move.elsewhere mine]
      exact stuck.waits
  have aside := move.aside
  by_cases ended : p.mgrPc.Ended
  · refine ⟨waits, (aside.records r stuck.live).1 stuck.live, ?_, ?_⟩
    · rw [aside.written]
      exact stuck.unanswered
    · obtain ⟨nodes, leaving⟩ := lives.leaving ended
      obtain ⟨after, next, kept, _⟩ := leaving.handlerMove lives.accounted.handlers move
      rw [Dropped, aside.pc]
      refine stuck.dropped.imp id (Or.imp id (Or.imp id fun dropped => ⟨?_, dropped.2⟩))
      refine unreachable_of_chain next.queue (kept r queued fun member => ?_)
      exact dropped.1 ⟨nodes, leaving.queue, member⟩
  · obtain ⟨store, lost, kept, hand, waiting, held⟩ := lives.serving ended
    obtain ⟨more, after, rest, next⟩ := held.handlerMove move
    refine Stuck.of_held next (aside.pc ▸ ended) waits ?_
    rw [List.map_append]
    exact List.mem_append_left _ (stuck.in_lost lives ended held)

theorem Stuck.mainMove (stuck : Stuck p h r) (lives : Lives p) (move : MainMove p q) :
    Stuck q h r := by
  obtain ⟨waits, live, unanswered, dropped⟩ := stuck
  cases move with
  | createThread pc =>
      have unreachable := (dropped.going (by rw [lives.thread (Or.inr pc)]; exact id)).1
      exact ⟨waits, live, unanswered, Or.inr (Or.inr (Or.inr ⟨unreachable, by simp [MgrPc.taken],
        by simp [MgrPc.answered], by simp [MgrPc.releasing]⟩))⟩
  | _ => exact ⟨waits, live, unanswered, dropped⟩

theorem Stuck.step {action : Action} (stuck : Stuck p h r) (lives : Lives p)
    (done : p.step action = .ok q) : Stuck q h r := by
  cases action with
  | main => exact stuck.mainMove lives (mainStep_moves done)
  | mgr locals => exact stuck.mgrMove lives (mgrStep_moves done)
  | _ => exact stuck.handlerMove lives (handlerStep_moves (by simp [Action.handler]) done)

end Drops

deriving instance DecidableEq for HandlerPc

/-- A client that is faster than the manager's `mgrInit`. -/
def queuedTooEarly : List Action :=
  [.main, .create 0 (.post (lit "a")), .lock 0, .add 0, .unlock 0, .main, .mgr MgrLocals.blank,
    .mgr MgrLocals.blank]

end SmartPay
