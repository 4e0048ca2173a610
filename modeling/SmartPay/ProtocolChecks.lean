import SmartPay.ProtocolSteps
import SmartPay.OwnershipChecks

/-!
No step of any thread takes a record from its owner, while the queue is only
reset when it is empty. The manager's steps and the handlers' steps meet in the
queue and in the records that the manager is serving, and nowhere else.
-/

namespace SmartPay

open CLib

theorem freeTerminals_frame {mgr freed : EquipmentMgr} (done : freeTerminals mgr = .ok freed) :
    freed.requests = mgr.requests ∧ freed.requestQueueList = mgr.requestQueueList ∧
      freed.requestQueueTail = mgr.requestQueueTail ∧ freed.sigEqMgrFlag = mgr.sigEqMgrFlag := by
  obtain ⟨⟨terminals, termList⟩, _, done⟩ := bind_eq_ok.mp done
  cases done
  exact ⟨rfl, rfl, rfl, rfl⟩

/-- Where the tail pointer is reset, nothing waits. -/
def Tied (mgr : EquipmentMgr) : Prop :=
  mgr.requestQueueTail = none → mgr.requestQueueList = none

/-- The queue is reset, or given up, only while nothing waits in it, and no record is added to a
queue whose tail pointer is lost. -/
def Calm (p : Process) : Action → Prop
  | .mgr _ =>
      (p.mgrPc = .init ∨ p.mgrPc = .freeLists → p.mgr.requestQueueList = none) ∧
        ¬p.mgrPc.Releasing
  | .add _ => Tied p.mgr
  | _ => True

/-- What the steps of the manager leave to the handlers. -/
structure Outside (p q : Process) : Prop where
  main : q.mainPc = p.mainPc
  queued : q.log.queued = p.log.queued
  accepted : q.log.accepted = p.log.accepted
  sent : q.log.sent = p.log.sent
  stale : q.log.stale = p.log.stale
  written : p.log.written <+: q.log.written
  live : ∀ r, p.mgr.requests.Live r → p.mgrPc ≠ .free r → p.mgrPc ≠ .freeReq (some r) →
    q.mgr.requests.Live r

/-- What the steps of a handler leave to the manager. -/
structure Aside (p q : Process) : Prop where
  store : StoreSame p.mgr q.mgr
  pc : q.mgrPc = p.mgrPc
  served : q.log.served = p.log.served
  written : q.log.written = p.log.written
  records : ∀ r, p.mgr.requests.Live r → Untouched p.mgr.requests q.mgr.requests r

section Frames

variable {p q : Process}

theorem Outside.of_requests (main : q.mainPc = p.mainPc) (log : q.log = p.log)
    (requests : q.mgr.requests = p.mgr.requests) : Outside p q := by
  refine ⟨main, ?_, ?_, ?_, ?_, ?_, ?_⟩
  · rw [log]
  · rw [log]
  · rw [log]
  · rw [log]
  · rw [log]
  · intro r live _ _
    rwa [requests]

theorem MgrMove.outside {locals : MgrLocals} (move : MgrMove p locals q) : Outside p q := by
  cases move with
  | dequeue pc checked =>
      exact Outside.of_requests rfl rfl (checkQueueAndGetRequest_frame checked).1
  | serve pc served =>
      obtain ⟨_, ⟨json, requests⟩, _⟩ := handleRequest_frame served
      refine ⟨rfl, rfl, rfl, rfl, rfl, List.prefix_refl _, ?_⟩
      intro s live _ _
      simp only [requests, Heap.live_set]
      exact live
  | setReady pc live =>
      exact ⟨rfl, rfl, rfl, rfl, rfl, List.prefix_append _ _, fun _ alive _ _ => alive⟩
  | free pc live =>
      refine ⟨rfl, rfl, rfl, rfl, rfl, List.prefix_refl _, ?_⟩
      intro s before other _
      refine (Heap.live_release _ _ _ live).mpr ⟨before, ?_⟩
      rintro rfl
      exact other pc
  | freeLists pc freed => exact Outside.of_requests rfl rfl (freeTerminals_frame freed).1
  | freeReq pc live =>
      refine ⟨rfl, rfl, rfl, rfl, rfl, List.prefix_refl _, ?_⟩
      intro s before _ other
      refine (Heap.live_release _ _ _ live).mpr ⟨before, ?_⟩
      rintro rfl
      exact other pc
  | _ => exact Outside.of_requests rfl rfl rfl

theorem Aside.of_mgr (mgr : q.mgr = p.mgr) (pc : q.mgrPc = p.mgrPc)
    (served : q.log.served = p.log.served) (written : q.log.written = p.log.written) :
    Aside p q := by
  refine ⟨?_, pc, served, written, ?_⟩
  · rw [mgr]
    exact ⟨rfl, rfl, rfl, rfl, rfl⟩
  · intro r _
    rw [mgr]
    exact Untouched.of_eq id rfl

end Frames

/-! What a handler's step leaves alone, wherever the manager is. -/

theorem addRequestToQueue_kept {mgr next : EquipmentMgr} {p : Nat}
    (done : addRequestToQueue mgr p = .ok next) : RecordsKept mgr.requests next.requests := by
  simp only [addRequestToQueue] at done
  split at done
  · obtain ⟨item, loaded, done⟩ := bind_eq_ok.mp done
    obtain ⟨requests, stored, done⟩ := bind_eq_ok.mp done
    cases done
    obtain ⟨_, rfl⟩ := Heap.load_eq_ok loaded
    obtain ⟨_, rfl⟩ := Heap.store_eq_ok stored
    exact RecordsKept.setNext _ p none
  · obtain ⟨item, loaded, done⟩ := bind_eq_ok.mp done
    obtain ⟨requests, stored, done⟩ := bind_eq_ok.mp done
    obtain ⟨last, lastLoaded, done⟩ := bind_eq_ok.mp done
    obtain ⟨joined, lastStored, done⟩ := bind_eq_ok.mp done
    obtain ⟨again, _, done⟩ := bind_eq_ok.mp done
    cases done
    obtain ⟨_, rfl⟩ := Heap.load_eq_ok loaded
    obtain ⟨_, rfl⟩ := Heap.store_eq_ok stored
    obtain ⟨_, rfl⟩ := Heap.load_eq_ok lastLoaded
    obtain ⟨_, rfl⟩ := Heap.store_eq_ok lastStored
    exact (RecordsKept.setNext _ p none).trans (RecordsKept.setNext _ _ (some p)) fun _ _ _ => rfl

section HandlerSteps

variable {p q : Process} {action : Action}

theorem HandlerMove.aside (move : HandlerMove p action q) : Aside p q := by
  cases move with
  | create here holds unready =>
      refine ⟨⟨rfl, rfl, rfl, rfl, rfl⟩, rfl, rfl, rfl, ?_⟩
      intro r live
      refine Untouched.of_eq ?_ (Heap.set_content_ne _ _ live.ne_brk)
      intro alive
      exact (p.mgr.requests.live_malloc r).mpr (Or.inl alive)
  | add here added =>
      have kept := addRequestToQueue_kept added
      exact ⟨addRequestToQueue_frame added, rfl, rfl, rfl, fun r _ => kept.untouched r⟩
  | _ => exact Aside.of_mgr rfl rfl rfl rfl

theorem HandlerMove.main (move : HandlerMove p action q) : q.mainPc = p.mainPc := by
  cases move <;> rfl

theorem HandlerMove.older (move : HandlerMove p action q) {r : Nat}
    (older : r < p.mgr.requests.brk) :
    r < q.mgr.requests.brk ∧ (q.mgr.requests.Live r → p.mgr.requests.Live r) := by
  cases move with
  | @create _ _ item here holds unready =>
      refine ⟨Nat.lt_succ_of_lt older, ?_⟩
      intro alive
      rcases (p.mgr.requests.live_malloc r).mp alive with before | new
      · exact before
      · exact absurd new (Nat.ne_of_lt older)
  | add here added =>
      have kept := addRequestToQueue_kept added
      exact ⟨kept.brk.symm ▸ older, (kept.live r).mp⟩
  | _ => exact ⟨older, id⟩

theorem HandlerMove.queued (move : HandlerMove p action q) :
    q.log.queued = p.log.queued ∨
      ∃ h entry, (p.handlers h).pending = some entry ∧
        q.log.queued = p.log.queued ++ [entry] := by
  cases move with
  | @add h record request mgr here added =>
      exact Or.inr ⟨h, (record, request), by rw [here]; rfl, rfl⟩
  | _ => exact Or.inl rfl

theorem HandlersOwned.handlerMove
    (owned : HandlersOwned p.mgr.requests p.handlers (p.log.queued.map Prod.fst))
    (allocated : ∀ r ∈ p.log.queued.map Prod.fst, r < p.mgr.requests.brk)
    (move : HandlerMove p action q) :
    HandlersOwned q.mgr.requests q.handlers (q.log.queued.map Prod.fst) := by
  have idle (h : Nat) :
      HandlersOwned p.mgr.requests (p.setHandler h .idle) (p.log.queued.map Prod.fst) :=
    owned.set (by simp [HandlerPc.pending]) (by simp [HandlerPc.awaited]) (by simp)
  cases move with
  | create here holds unready =>
      refine (owned.create allocated _).set ?_ (by simp [HandlerPc.awaited]) (by simp)
      intro entry found
      cases found
      refine ⟨⟨?_, ?_, ?_⟩, ?_, ?_⟩
      · exact (p.mgr.requests.live_malloc _).mpr (Or.inr rfl)
      · rwa [Heap.set_content_same]
      · rwa [Heap.set_content_same]
      · intro member
        exact Nat.lt_irrefl _ (allocated _ member)
      · intro k other _ found
        exact (owned.pending k other found).1.live.ne_brk
  | @lock h record request here free =>
      have found : (p.handlers h).pending = some (record, request) := by rw [here]; rfl
      refine owned.set ?_ (by simp [HandlerPc.awaited]) (by simp)
      intro entry same
      cases same
      obtain ⟨unserved, fresh⟩ := owned.pending h _ found
      refine ⟨unserved, fresh, ?_⟩
      intro k other different otherFound equal
      exact different (owned.distinct k h other _ otherFound found equal)
  | @add h record request mgr here added =>
      have found : (p.handlers h).pending = some (record, request) := by rw [here]; rfl
      have kept := addRequestToQueue_kept added
      have moved := owned.untouched (fun _ entry _ => kept.untouched entry.1)
        (fun r _ _ ready => (kept.untouched r).ready.trans ready)
        (fun r _ alive => (FieldOnly.live kept r).mp alive)
      simp only [List.map_append]
      exact moved.queue found
  | @unlock h record here =>
      have member := owned.awaited h record (by rw [here]; rfl)
      refine owned.set (by simp [HandlerPc.pending]) ?_ (by simp)
      intro r same
      cases same
      exact member
  | @testReady h record seen here live ready =>
      exact owned.copies (owned.awaited h record (by rw [here]; rfl)) fun _ => ready
  | testAgain here live => exact owned
  | @testStale h record seen here dead =>
      exact owned.copies (owned.awaited h record (by rw [here]; rfl)) fun live => absurd live dead
  | testStaleAgain here dead => exact owned
  | copy here live read => exact idle _
  | copyStale here dead => exact idle _

theorem HandlerMove.readBack (move : HandlerMove p action q) {r : Nat}
    (allocated : r < p.mgr.requests.brk) (live : q.mgr.requests.Live r) :
    p.mgr.requests.Live r ∧
      (q.mgr.requests.content r).isResponseReady = (p.mgr.requests.content r).isResponseReady ∧
      (q.mgr.requests.content r).json = (p.mgr.requests.content r).json := by
  have before := (move.older allocated).2 live
  have untouched := move.aside.records r before
  exact ⟨before, untouched.ready, untouched.json⟩

end HandlerSteps

section Threads

variable {p q : Process} {hand waiting : List (Nat × Request)}

/-- On a queue that is whole a record goes to the end. -/
theorem queueAfter_tied {mgr : EquipmentMgr} {waiting : List (Nat × Request)} {p : Nat}
    (queue : Chain mgr.requests RequestQueueItem.next mgr.requestQueueList (waiting.map Prod.fst))
    (fits : TailFits mgr waiting) (tied : Tied mgr) :
    queueAfter mgr.requestQueueTail (waiting.map Prod.fst) p = waiting.map Prod.fst ++ [p] := by
  cases tailEq : mgr.requestQueueTail with
  | none =>
      rw [tied tailEq] at queue
      rw [queue.of_none]
      rfl
  | some t =>
      have inside : t ∈ waiting.map Prod.fst := by
        rcases fits with reset | last
        · rw [tailEq] at reset
          cases reset
        · exact List.mem_of_getLast? (last.symm.trans tailEq)
      simp only [queueAfter, if_pos inside]

theorem Owned.added {h record : Nat} {request : Request} {mgr : EquipmentMgr}
    (owned : Owned p hand waiting) (tied : Tied p.mgr)
    (here : p.handlers h = .add record request)
    (added : addRequestToQueue p.mgr record = .ok mgr) :
    (p.handlers h).pending = some (record, request) ∧
      RecordsOwned mgr p.mgrPc { p.log with queued := p.log.queued ++ [(record, request)] } hand
        (waiting ++ [(record, request)]) ∧ TailFits mgr (waiting ++ [(record, request)]) := by
  have found : (p.handlers h).pending = some (record, request) := by rw [here]; rfl
  obtain ⟨unserved, fresh⟩ := owned.handlers.pending h (record, request) found
  have notWaiting : record ∉ waiting.map Prod.fst := by
    intro member
    obtain ⟨other, inside, same⟩ := List.mem_map.mp member
    have queued := owned.records.entry_queued (List.mem_append_right hand inside)
    rw [same] at queued
    exact fresh queued
  have queue :=
    addRequestToQueue_chain owned.records.queue notWaiting (TailFits.last owned.tail) added
  rw [queueAfter_tied owned.records.queue owned.tail tied] at queue
  refine ⟨found, owned.records.add unserved fresh (addRequestToQueue_kept added) ?_, Or.inr ?_⟩
  · rw [List.map_append]
    exact queue
  · rw [addRequestToQueue_tail added, List.map_append]
    simp

theorem Owned.mainMove (owned : Owned p hand waiting) (move : MainMove p q) :
    Owned q hand waiting := by
  obtain ⟨records, tail, handlers, thread⟩ := owned
  cases move with
  | startDaemon pc => exact ⟨records, tail, handlers, fun _ => thread (Or.inl pc)⟩
  | createThread pc =>
      have none := thread (Or.inr pc)
      refine ⟨records.congr rfl rfl ?_ ?_ ?_, tail, handlers, by simp⟩
      all_goals rw [none]; rfl
  | getchar pc => exact ⟨records.congr rfl rfl rfl rfl rfl, tail, handlers, by simp⟩
  | later late =>
      refine ⟨records, tail, handlers, ?_⟩
      rintro (start | create)
      · exact absurd start late.1
      · exact absurd create late.2

theorem Owned.mgrMove {locals : MgrLocals} (owned : Owned p hand waiting)
    (calm : Calm p (.mgr locals)) (move : MgrMove p locals q) :
    ∃ first rest, Owned q first rest := by
  have thread : q.mainPc = .startDaemon ∨ q.mainPc = .createThread → q.mgrPc = .notCreated := by
    intro early
    rw [move.outside.main] at early
    exact absurd (owned.thread early) move.created
  obtain ⟨records, tail, handlers, _⟩ := owned
  obtain ⟨empty, quiet⟩ := calm
  cases move with
  | init pc =>
      rw [pc] at records
      exact ⟨hand, waiting, records.congr rfl (empty (Or.inl pc)).symm rfl rfl rfl, tail, handlers,
        thread⟩
  | initTail pc =>
      rw [pc] at records
      exact ⟨hand, waiting, records.congr rfl rfl rfl rfl rfl, Or.inl rfl, handlers, thread⟩
  | loop pc =>
      rw [pc] at records
      refine ⟨hand, waiting, ?_, tail, handlers, thread⟩
      simp only
      split
      · exact records.congr rfl rfl rfl rfl rfl
      · exact records.congr rfl rfl rfl rfl rfl
  | dequeue pc checked =>
      obtain ⟨first, rest, next, fits⟩ := records.dequeue pc tail checked
      refine ⟨first, rest, next, fits, ?_, thread⟩
      simp only [(checkQueueAndGetRequest_frame checked).1]
      exact handlers
  | @serve mgr r pc served =>
      obtain ⟨live, ⟨json, requests⟩, list, lastKept, _⟩ := handleRequest_frame served
      obtain ⟨request, rfl, same, next⟩ := records.serve pc requests list
      have inHand : (r, request) ∈ [(r, request)] ++ waiting := by simp
      have member := records.entry_queued inHand
      refine ⟨[], waiting, ?_, ?_, ?_, thread⟩
      · rw [same]
        exact next
      · rwa [TailFits, lastKept]
      · simp only [requests]
        exact handlers.write member id
  | setReady pc live =>
      obtain ⟨_, member, next⟩ := records.setReady pc
      exact ⟨hand, waiting, next, tail, handlers.write member fun _ => rfl, thread⟩
  | free pc live =>
      obtain ⟨_, member, next⟩ := records.free pc
      exact ⟨hand, waiting, next, tail, handlers.release live member, thread⟩
  | freeLists pc freed =>
      obtain ⟨requests, list, lastKept, _⟩ := freeTerminals_frame freed
      rw [pc] at records
      refine ⟨hand, waiting, records.congr requests list rfl rfl rfl, ?_, ?_, thread⟩
      · rwa [TailFits, lastKept]
      · simp only [requests]
        exact handlers
  | lock pc free =>
      rw [pc] at records
      exact ⟨hand, waiting, records.congr rfl rfl rfl rfl rfl, tail, handlers, thread⟩
  | unlockNone pc =>
      rw [pc] at records
      exact ⟨hand, waiting, records.congr rfl rfl rfl rfl rfl, tail, handlers, thread⟩
  | unlockSome pc =>
      rw [pc] at records
      exact ⟨hand, waiting, records.congr rfl rfl rfl rfl rfl, tail, handlers, thread⟩
  | freeReqsEnd pc none =>
      rw [pc] at records
      exact ⟨hand, waiting, records.congr rfl rfl rfl rfl rfl, tail, handlers, thread⟩
  | freeReqsMore pc more =>
      rw [pc] at records
      exact ⟨hand, waiting, records.congr rfl rfl rfl rfl rfl, tail, handlers, thread⟩
  | freeNext pc list live => exact absurd (by rw [pc]; trivial) quiet
  | freeReqNull pc => exact absurd (by rw [pc]; trivial) quiet
  | freeReq pc live => exact absurd (by rw [pc]; trivial) quiet
  | freeMove pc => exact absurd (by rw [pc]; trivial) quiet
  | signal pc =>
      rw [pc] at records
      exact ⟨hand, waiting, records.congr rfl rfl rfl rfl rfl, tail, handlers, thread⟩
  | returning pc =>
      rw [pc] at records
      exact ⟨hand, waiting, records.congr rfl rfl rfl rfl rfl, tail, handlers, thread⟩

theorem Owned.handlerMove {action : Action} (owned : Owned p hand waiting)
    (calm : Calm p action) (move : HandlerMove p action q) : ∃ rest, Owned q hand rest := by
  have handlers := owned.handlers.handlerMove owned.records.allocated move
  have whole := owned
  obtain ⟨records, tail, _, thread⟩ := owned
  cases move with
  | create here holds unready => exact ⟨waiting, records.create _, tail, handlers, thread⟩
  | lock here free =>
      exact ⟨waiting, records.congr rfl rfl rfl rfl rfl, tail, handlers, thread⟩
  | add here added =>
      obtain ⟨_, next, fits⟩ := whole.added calm here added
      exact ⟨_, next, fits, handlers, thread⟩
  | unlock here => exact ⟨waiting, records.logged rfl rfl rfl, tail, handlers, thread⟩
  | testReady here live ready => exact ⟨waiting, records, tail, handlers, thread⟩
  | testAgain here live => exact ⟨waiting, records, tail, handlers, thread⟩
  | testStale here dead => exact ⟨waiting, records.logged rfl rfl rfl, tail, handlers, thread⟩
  | testStaleAgain here dead =>
      exact ⟨waiting, records.logged rfl rfl rfl, tail, handlers, thread⟩
  | copy here live read => exact ⟨waiting, records.logged rfl rfl rfl, tail, handlers, thread⟩
  | copyStale here dead => exact ⟨waiting, records.logged rfl rfl rfl, tail, handlers, thread⟩

end Threads

theorem Owned.boot : Owned Process.boot [] [] :=
  ⟨Log.empty_owned rfl rfl rfl rfl, Or.inl rfl, HandlersOwned.idle _ _, fun _ => rfl⟩

theorem Owned.steady (mgr : EquipmentMgr) : Owned (Process.steady mgr) [] [] := by
  refine ⟨Log.empty_owned rfl rfl rfl rfl, Or.inl rfl, HandlersOwned.idle _ _, ?_⟩
  rintro (start | create)
  · cases start
  · cases create

end SmartPay
