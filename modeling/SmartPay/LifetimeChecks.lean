import SmartPay.ProtocolChecks

/-!
The whole life of the server: `main` starts the daemon before the manager, and
stops it after the manager. What is queued outside the manager's loop is lost
unless the queue happens to be empty when it is reset and when it is given up, and
nothing is added where that would not be seen any more.
-/

namespace SmartPay

open CLib

/-- The queue is empty when `mgrInit` resets its head and when `freeNodeList` reads it. Nothing is
added after that, nor while the head leads to a record and the tail does not. -/
def Quiet (p : Process) : Action → Prop
  | .mgr _ => p.mgrPc = .init ∨ p.mgrPc = .freeLists → p.mgr.requestQueueList = none
  | .add _ => ¬p.mgrPc.Ended ∧ Tied p.mgr
  | _ => True

instance decidableEnded : ∀ pc : MgrPc, Decidable pc.Ended
  | .freeReqs _ | .freeNext _ | .freeReq _ | .freeMove | .signal | .returning | .finished =>
      isTrue trivial
  | .notCreated | .init | .initTail | .loop | .lock | .dequeue | .unlock _ | .serve _
  | .setReady _ | .free _ | .freeLists => isFalse id

instance (mgr : EquipmentMgr) : Decidable (Tied mgr) := inferInstanceAs (Decidable (_ → _))

instance (p : Process) : ∀ action, Decidable (Quiet p action)
  | .main => isTrue trivial
  | .mgr _ => inferInstanceAs (Decidable (_ → _))
  | .create _ _ => isTrue trivial
  | .lock _ => isTrue trivial
  | .add _ => inferInstanceAs (Decidable (¬_ ∧ _))
  | .unlock _ => isTrue trivial
  | .test _ _ => isTrue trivial
  | .copy _ _ => isTrue trivial

def Reachable (mgr : EquipmentMgr) (r : Nat) : Prop :=
  ∃ nodes, Chain mgr.requests RequestQueueItem.next mgr.requestQueueList nodes ∧ r ∈ nodes

/-- A record whose `queueReq` has completed and whose reply is not ready. -/
def Unanswered (q : Process) (r : Nat) : Prop :=
  r ∈ q.log.accepted ∧ r ∉ q.log.written.map Prod.fst

structure NothingDropped (q : Process) : Prop where
  kept : ∀ r, Unanswered q r →
    Reachable q.mgr r ∨ r ∈ q.mgrPc.taken ∨ r ∈ q.mgrPc.answered
  finished : q.mgrPc = .finished → ∀ r, ¬Unanswered q r

structure Lasting (p : Process) : Prop where
  owned : ∃ hand waiting, Owned p hand waiting
  accepted : ∀ r ∈ p.log.accepted, r ∈ p.log.queued.map Prod.fst
  drained : p.mgrPc.Ended → p.mgr.requestQueueList = none ∧ ¬p.mgrPc.Releasing

theorem Lasting.boot : Lasting Process.boot :=
  ⟨⟨[], [], Owned.boot⟩, by simp [Process.boot, Log.empty], fun ended => ended.elim⟩

section Steps

variable {p q : Process}

theorem MgrPc.Releasing.ended {pc : MgrPc} (releasing : pc.Releasing) : pc.Ended := by
  cases pc with
  | freeNext headReq => trivial
  | freeReq headReq => trivial
  | freeMove => trivial
  | _ => exact releasing.elim

theorem Lasting.calm {action : Action} (lasting : Lasting p) (quiet : Quiet p action) :
    Calm p action := by
  cases action with
  | mgr locals => exact ⟨quiet, fun releasing => (lasting.drained releasing.ended).2 releasing⟩
  | add h => exact quiet.2
  | _ => trivial

theorem Lasting.mainMove (lasting : Lasting p) (move : MainMove p q) : Lasting q := by
  obtain ⟨⟨hand, waiting, owned⟩, accepted, drained⟩ := lasting
  have next := owned.mainMove move
  cases move with
  | createThread pc => exact ⟨⟨hand, waiting, next⟩, accepted, fun ended => ended.elim⟩
  | _ => exact ⟨⟨hand, waiting, next⟩, accepted, drained⟩

/-- An empty queue stays empty to the end, and the second loop of `freeNodeList` finds nothing. -/
theorem Lasting.drains {locals : MgrLocals} (lasting : Lasting p) (quiet : Quiet p (.mgr locals))
    (move : MgrMove p locals q) (ended : q.mgrPc.Ended) :
    q.mgr.requestQueueList = none ∧ ¬q.mgrPc.Releasing := by
  have drained {pc : MgrPc} (here : p.mgrPc = pc) (gone : pc.Ended) := lasting.drained (here ▸ gone)
  cases move with
  | freeLists pc freed =>
      refine ⟨?_, id⟩
      rw [(freeTerminals_frame freed).2.1]
      exact quiet (Or.inr pc)
  | freeReqsEnd pc empty => exact ⟨empty, id⟩
  | freeReqsMore pc more => exact absurd (drained pc trivial).1 more
  | freeNext pc list live => exact absurd (by rw [pc]; trivial) (drained pc trivial).2
  | freeReqNull pc => exact absurd (by rw [pc]; trivial) (drained pc trivial).2
  | freeReq pc live => exact absurd (by rw [pc]; trivial) (drained pc trivial).2
  | freeMove pc => exact ⟨(drained pc trivial).1, id⟩
  | signal pc => exact ⟨(drained pc trivial).1, id⟩
  | returning pc => exact ⟨(drained pc trivial).1, id⟩
  | loop pc =>
      simp only at ended
      split at ended <;> exact ended.elim
  | _ => exact ended.elim

theorem Lasting.mgrMove {locals : MgrLocals} (lasting : Lasting p)
    (quiet : Quiet p (.mgr locals)) (move : MgrMove p locals q) : Lasting q := by
  have calm := lasting.calm quiet
  have drains := lasting.drains quiet move
  obtain ⟨⟨hand, waiting, owned⟩, accepted, _⟩ := lasting
  refine ⟨owned.mgrMove calm move, ?_, drains⟩
  rw [move.outside.accepted, move.outside.queued]
  exact accepted

theorem Lasting.handlerMove {action : Action} (lasting : Lasting p) (quiet : Quiet p action)
    (move : HandlerMove p action q) : Lasting q := by
  have calm := lasting.calm quiet
  obtain ⟨⟨hand, waiting, owned⟩, accepted, drained⟩ := lasting
  obtain ⟨rest, next⟩ := owned.handlerMove calm move
  cases move with
  | add here added =>
      refine ⟨⟨hand, rest, next⟩, ?_, fun ended => absurd ended quiet.1⟩
      intro r member
      rw [List.map_append]
      exact List.mem_append_left _ (accepted r member)
  | @unlock h record here =>
      refine ⟨⟨hand, rest, next⟩, ?_, drained⟩
      intro r member
      rcases List.mem_append.mp member with old | new
      · exact accepted r old
      · rw [List.mem_singleton.mp new]
        exact owned.handlers.awaited h record (by rw [here]; rfl)
  | _ => exact ⟨⟨hand, rest, next⟩, accepted, drained⟩

theorem Lasting.step {action : Action} (lasting : Lasting p) (quiet : Quiet p action)
    (done : p.step action = .ok q) : Lasting q := by
  cases action with
  | main => exact lasting.mainMove (mainStep_moves done)
  | mgr locals => exact lasting.mgrMove quiet (mgrStep_moves done)
  | _ => exact lasting.handlerMove quiet (handlerStep_moves (by simp [Action.handler]) done)

theorem Lasting.nothingDropped (lasting : Lasting q) : NothingDropped q := by
  obtain ⟨⟨hand, waiting, owned⟩, accepted, drained⟩ := lasting
  have records := owned.records
  have kept (r : Nat) (unanswered : Unanswered q r) :
      r ∈ waiting.map Prod.fst ∨ r ∈ q.mgrPc.taken ∨ r ∈ q.mgrPc.answered := by
    have member := accepted r unanswered.1
    rw [records.accounts, List.map_append, List.map_append, records.taken, records.answered]
      at member
    rcases List.mem_append.mp member with before | waits
    · rcases List.mem_append.mp before with served | taken
      · rcases List.mem_append.mp served with written | answered
        · exact absurd written unanswered.2
        · exact Or.inr (Or.inr answered)
      · exact Or.inr (Or.inl taken)
    · exact Or.inl waits
  constructor
  · intro r unanswered
    rcases kept r unanswered with waits | inHand
    · exact Or.inl ⟨waiting.map Prod.fst, records.queue, waits⟩
    · exact Or.inr inHand
  · intro finished r unanswered
    have empty : waiting.map Prod.fst = [] := by
      have queue := records.queue
      rw [(drained (by rw [finished]; trivial)).1] at queue
      exact queue.of_none
    rcases kept r unanswered with waits | taken | answered
    · rw [empty] at waits
      cases waits
    · rw [finished] at taken
      cases taken
    · rw [finished] at answered
      cases answered

end Steps

/-- Over the whole life of the server, no accepted request is dropped when the queue is
empty at its start and at its end, and no addition comes in between or after that. -/
theorem nothing_dropped_of_quiet (actions : List Action) (q : Process)
    (quiet : Along Process.step Quiet Process.boot actions)
    (reached : runFrom Process.step Process.boot actions = .ok q) : NothingDropped q := by
  have preserved (p : Process) (action : Action) (q : Process) (lasting : Lasting p)
      (quiet : Quiet p action) (done : p.step action = .ok q) : Lasting q :=
    lasting.step quiet done
  exact (runFrom_invariant preserved Lasting.boot quiet reached).nothingDropped

theorem RecordsOwned.waiting_unwritten {mgr : EquipmentMgr} {pc : MgrPc} {log : Log}
    {hand waiting : List (Nat × Request)} (owned : RecordsOwned mgr pc log hand waiting)
    {entry : Nat × Request} (waits : entry ∈ waiting) : entry.1 ∉ log.written.map Prod.fst := by
  intro written
  exact owned.served_ne (List.mem_append_left _ written) (List.mem_append_right _ waits) rfl

theorem unreachable_of_chain {mgr : EquipmentMgr} {nodes : List Nat} {r : Nat}
    (queue : Chain mgr.requests RequestQueueItem.next mgr.requestQueueList nodes)
    (outside : r ∉ nodes) : ¬Reachable mgr r := by
  rintro ⟨others, chain, inside⟩
  rw [chain.unique queue] at inside
  exact outside inside

/-- Resetting a queue loses everything that waits in it. -/
theorem waiting_dropped {p q : Process} {hand waiting : List (Nat × Request)}
    {locals : MgrLocals} (owned : Owned p hand waiting) (init : p.mgrPc = .init)
    (done : p.mgrStep locals = .ok q) :
    ∀ entry ∈ waiting, entry.1 ∉ q.log.written.map Prod.fst ∧ ¬Reachable q.mgr entry.1 ∧
      entry.1 ∉ q.mgrPc.taken ∧ entry.1 ∉ q.mgrPc.answered := by
  intro entry waits
  have unwritten := owned.records.waiting_unwritten waits
  simp only [Process.mgrStep, init] at done
  cases done
  have queue : Chain (initLists p.mgr).requests RequestQueueItem.next
      (initLists p.mgr).requestQueueList [] := rfl
  exact ⟨unwritten, unreachable_of_chain queue (by simp), by simp [MgrPc.taken],
    by simp [MgrPc.answered]⟩

/-- So does adding to a queue whose tail pointer is lost. -/
theorem waiting_overwritten {p q : Process} {hand waiting : List (Nat × Request)} {h : Nat}
    (owned : Owned p hand waiting) (reset : p.mgr.requestQueueTail = none)
    (done : p.step (.add h) = .ok q) :
    ∀ entry ∈ waiting, entry.1 ∉ q.log.written.map Prod.fst ∧ ¬Reachable q.mgr entry.1 := by
  intro entry waits
  have move := handlerStep_moves (by simp [Action.handler]) done
  have unwritten := owned.records.waiting_unwritten waits
  rw [← move.aside.written] at unwritten
  refine ⟨unwritten, ?_⟩
  cases move with
  | @add h record request mgr here added =>
      obtain ⟨_, fresh⟩ := owned.handlers.pending h (record, request) (by rw [here]; rfl)
      have apart (other : Nat × Request) (inside : other ∈ waiting) : other.1 ≠ record := by
        have queued := owned.records.entry_queued (List.mem_append_right hand inside)
        exact fun same => fresh (same ▸ queued)
      have notWaiting : record ∉ waiting.map Prod.fst := by
        intro member
        obtain ⟨other, inside, same⟩ := List.mem_map.mp member
        exact apart other inside same
      have queue := addRequestToQueue_chain owned.records.queue notWaiting
        (TailFits.last owned.tail) added
      rw [reset] at queue
      exact unreachable_of_chain queue fun inside =>
        apart entry waits (List.mem_singleton.mp inside)

/-- From the release of the lists on nothing is answered. -/
theorem written_of_ended {p q : Process} {action : Action}
    (thread : p.mainPc = .startDaemon ∨ p.mainPc = .createThread → p.mgrPc = .notCreated)
    (ending : p.mgrPc = .freeLists ∨ p.mgrPc.Ended) (done : p.step action = .ok q) :
    (q.mainPc = .startDaemon ∨ q.mainPc = .createThread → q.mgrPc = .notCreated) ∧
      (q.mgrPc = .freeLists ∨ q.mgrPc.Ended) ∧ q.log.written = p.log.written := by
  have begun : ¬(p.mainPc = .startDaemon ∨ p.mainPc = .createThread) := by
    intro early
    rw [thread early] at ending
    rcases ending with lists | ended
    · cases lists
    · exact ended
  cases action with
  | main =>
      have move := mainStep_moves done
      cases move with
      | startDaemon pc => exact absurd (Or.inl pc) begun
      | createThread pc => exact absurd (Or.inr pc) begun
      | getchar pc => exact ⟨by simp, ending, rfl⟩
      | later late => exact ⟨fun early => absurd early (not_or.mpr late), ending, rfl⟩
  | mgr locals =>
      have move := mgrStep_moves done
      rw [move.outside.main]
      refine ⟨fun early => absurd early begun, ?_⟩
      cases move with
      | freeLists pc freed => exact ⟨Or.inr trivial, rfl⟩
      | freeReqsEnd pc empty => exact ⟨Or.inr trivial, rfl⟩
      | freeReqsMore pc more => exact ⟨Or.inr trivial, rfl⟩
      | freeNext pc list live => exact ⟨Or.inr trivial, rfl⟩
      | freeReqNull pc => exact ⟨Or.inr trivial, rfl⟩
      | freeReq pc live => exact ⟨Or.inr trivial, rfl⟩
      | freeMove pc => exact ⟨Or.inr trivial, rfl⟩
      | signal pc => exact ⟨Or.inr trivial, rfl⟩
      | returning pc => exact ⟨Or.inr trivial, rfl⟩
      | _ pc => simp [pc, MgrPc.Ended] at ending
  | _ =>
      have move := handlerStep_moves (by simp [Action.handler]) done
      rw [move.main, move.aside.pc, move.aside.written]
      exact ⟨thread, ending, rfl⟩

/-- Whatever waits in the queue when it is given up, and whatever is added after that, is
unanswered when the manager has finished. -/
theorem late_dropped {p q : Process} {actions : List Action} {r : Nat}
    (thread : p.mainPc = .startDaemon ∨ p.mainPc = .createThread → p.mgrPc = .notCreated)
    (ending : p.mgrPc = .freeLists ∨ p.mgrPc.Ended) (unwritten : r ∉ p.log.written.map Prod.fst)
    (ran : runFrom Process.step p actions = .ok q) (accepted : r ∈ q.log.accepted)
    (finished : q.mgrPc = .finished) : ¬NothingDropped q := by
  have preserved (other : Process) (action : Action) (next : Process)
      (holds : (other.mainPc = .startDaemon ∨ other.mainPc = .createThread →
          other.mgrPc = .notCreated) ∧ (other.mgrPc = .freeLists ∨ other.mgrPc.Ended) ∧
        other.log.written = p.log.written) (_ : True) (done : other.step action = .ok next) :
      (next.mainPc = .startDaemon ∨ next.mainPc = .createThread → next.mgrPc = .notCreated) ∧
        (next.mgrPc = .freeLists ∨ next.mgrPc.Ended) ∧ next.log.written = p.log.written := by
    obtain ⟨nextThread, nextEnding, same⟩ := written_of_ended holds.1 holds.2.1 done
    exact ⟨nextThread, nextEnding, same.trans holds.2.2⟩
  have always : Along Process.step (fun _ _ => True) p actions :=
    along_of_forall (fun _ _ => trivial) p
  obtain ⟨_, _, same⟩ := runFrom_invariant preserved ⟨thread, ending, rfl⟩ always ran
  intro nothingDropped
  exact nothingDropped.finished finished r ⟨accepted, same ▸ unwritten⟩

def wholeLife : List Action :=
  [.main, .main, .mgr MgrLocals.blank, .mgr MgrLocals.blank, .create 0 (.post (lit "a")), .lock 0,
    .add 0, .unlock 0, .mgr MgrLocals.blank, .mgr MgrLocals.blank, .mgr MgrLocals.blank, .mgr MgrLocals.blank,
    .mgr MgrLocals.blank, .mgr MgrLocals.blank, .test 0 true, .copy 0 (lit ""),
    .mgr MgrLocals.blank, .main, .mgr MgrLocals.blank, .mgr MgrLocals.blank,
    .mgr MgrLocals.blank, .mgr MgrLocals.blank, .mgr MgrLocals.blank, .main, .main, .main]

theorem nothing_dropped_of_quiet_wholeLife :
    ∃ q, runFrom Process.step Process.boot wholeLife = .ok q ∧ q.mainPc = .exited ∧
      q.mgrPc = .finished ∧ q.log.sent = [(0, postReply 1)] ∧ NothingDropped q := by
  have life : (runFrom Process.step Process.boot wholeLife).map
      (fun q => (q.mainPc, q.mgrPc, q.log.sent)) =
        .ok (.exited, .finished, [(0, postReply 1)]) := by decide +kernel
  obtain ⟨q, reached, life⟩ := map_eq_ok life
  obtain ⟨exited, rest⟩ := Prod.mk.inj life
  obtain ⟨finished, sent⟩ := Prod.mk.inj rest
  have quiet : Along Process.step Quiet Process.boot wholeLife := by decide +kernel
  exact ⟨q, reached, exited, finished, sent, nothing_dropped_of_quiet wholeLife q quiet reached⟩

def earlyRequest : List Action :=
  [.main, .create 0 (.post (lit "a")), .lock 0, .add 0, .unlock 0, .main, .mgr MgrLocals.blank]

/-- The manager begins by resetting the queue, and the request is lost. -/
theorem early_request_dropped :
    ∃ q, runFrom Process.step Process.boot earlyRequest = .ok q ∧ q.log.accepted = [0] ∧
      q.mgr.requestQueueList = none ∧ ¬NothingDropped q := by
  have log : (runFrom Process.step Process.boot earlyRequest).map
      (fun q => (q.log.accepted, q.log.written.map Prod.fst, q.mgr.requestQueueList, q.mgrPc)) =
        .ok ([0], [], none, .initTail) := by decide +kernel
  obtain ⟨q, reached, log⟩ := map_eq_ok log
  obtain ⟨accepted, rest⟩ := Prod.mk.inj log
  obtain ⟨written, rest⟩ := Prod.mk.inj rest
  obtain ⟨list, pc⟩ := Prod.mk.inj rest
  refine ⟨q, reached, accepted, list, ?_⟩
  intro nothingDropped
  have unanswered : Unanswered q 0 := by
    simp only [Unanswered, accepted, written]
    decide
  rcases nothingDropped.kept 0 unanswered with ⟨nodes, chain, member⟩ | taken | answered
  · rw [list] at chain
    rw [chain.of_none] at member
    cases member
  · rw [pc] at taken
    cases taken
  · rw [pc] at answered
    cases answered

end SmartPay
