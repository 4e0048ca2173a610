import SmartPay.LockChecks

/-!
How long a request waits. A record that stands in a queue with a tail pointer is
answered within a number of the manager's own steps that depends only on its place,
whatever the other threads do; and the manager itself is held up only by a handler
that can go on.
-/

namespace SmartPay

open CLib

/-- How many steps the manager takes until it marks the record ready that is now the first one
in the queue. -/
def MgrPc.lead : MgrPc → Nat
  | loop => 6
  | lock => 5
  | dequeue => 4
  | unlock none => 7
  | unlock (some _) => 10
  | serve _ => 9
  | setReady _ => 8
  | free _ => 7
  | _ => 0

/-- The steps of the manager until it marks a record ready. -/
inductive Due (p : Process) (r : Nat) : Nat → Prop
  | marking (pc : p.mgrPc = .setReady r) : Due p r 1
  | serving (pc : p.mgrPc = .serve r) : Due p r 2
  | taken (pc : p.mgrPc = .unlock (some r)) : Due p r 3
  | waiting {first rest : List Nat} (queue : QueueList p.mgr (first ++ r :: rest))
      (looping : p.mgrPc.Looping) : Due p r (p.mgrPc.lead + 7 * first.length)

/-- The manager is in its loop and has not been told to stop. -/
structure Working (p : Process) : Prop where
  lives : Lives p
  running : p.mgr.sigEqMgrFlag = true
  looping : p.mgrPc.Looping

section Steps

variable {p q : Process}

theorem Due.positive {r n : Nat} (due : Due p r n) : n ≠ 0 := by
  cases due with
  | marking pc => simp
  | serving pc => simp
  | taken pc => simp
  | waiting queue looping =>
      cases pc : p.mgrPc with
      | unlock newRequest => cases newRequest <;> simp [MgrPc.lead]
      | _ => simp [pc, MgrPc.lead, MgrPc.Looping] at looping ⊢

theorem Working.handlerMove {action : Action} (working : Working p)
    (move : HandlerMove p action q) : Working q := by
  have aside := move.aside
  refine ⟨working.lives.handlerMove move, aside.store.flag.trans working.running, ?_⟩
  rw [aside.pc]
  exact working.looping

theorem Working.mgrMove {locals : MgrLocals} (working : Working p)
    (move : MgrMove p locals q) : Working q := by
  have lives := working.lives.mgrMove move
  obtain ⟨_, running, looping⟩ := working
  cases move with
  | loop pc =>
      refine ⟨lives, running, ?_⟩
      simp only [running, if_true]
      trivial
  | lock pc free => exact ⟨lives, running, trivial⟩
  | dequeue pc checked =>
      exact ⟨lives, (checkQueueAndGetRequest_frame checked).2.flag.trans running, trivial⟩
  | unlockNone pc => exact ⟨lives, running, trivial⟩
  | unlockSome pc => exact ⟨lives, running, trivial⟩
  | serve pc served =>
      obtain ⟨_, _, _, _, flag⟩ := handleRequest_frame served
      exact ⟨lives, flag.trans running, trivial⟩
  | setReady pc live => exact ⟨lives, running, trivial⟩
  | free pc live => exact ⟨lives, running, trivial⟩
  | _ pc => rw [pc] at looping; exact looping.elim

theorem MgrPc.Looping.going {pc : MgrPc} (looping : pc.Looping) : ¬pc.Ended := by
  cases pc <;> first | exact id | exact looping.elim

theorem Working.held (working : Working p) :
    ∃ lost kept hand waiting, Held p lost kept hand waiting :=
  (working.lives.serving working.looping.going).2

/-- The records in the queue are the ones that wait, in their order. -/
theorem Held.nodes {lost kept hand waiting : List (Nat × Request)} {nodes : List Nat}
    (held : Held p lost kept hand waiting) (queue : QueueList p.mgr nodes) :
    nodes = waiting.map Prod.fst :=
  queue.chain.unique held.records.queue

theorem QueueKept.queueList {nodes : List Nat} (kept : QueueKept p q)
    (queue : QueueList p.mgr nodes) (live : ∀ s ∈ nodes, q.mgr.requests.Live s) :
    QueueList q.mgr nodes := by
  rw [QueueList, kept.list, kept.tail]
  exact queue.congr live fun s member => kept.next s (queue.chain.live s member)

theorem HandlerMove.queueList {action : Action} {nodes : List Nat} (move : HandlerMove p action q)
    (working : Working p) (queue : QueueList p.mgr nodes) :
    ∃ more, QueueList q.mgr (nodes ++ more) := by
  obtain ⟨lost, kept, hand, waiting, held⟩ := working.held
  have aside := move.aside
  have live (s : Nat) (member : s ∈ nodes) : q.mgr.requests.Live s :=
    (aside.records s (queue.chain.live s member)).1 (queue.chain.live s member)
  have stays (same : QueueKept p q) : ∃ more, QueueList q.mgr (nodes ++ more) := by
    refine ⟨[], ?_⟩
    rw [List.append_nil]
    exact same.queueList queue live
  cases move with
  | @add h record request mgr here added =>
      obtain ⟨unserved, fresh⟩ := held.handlers.pending h (record, request) (by rw [here]; rfl)
      have absent : record ∉ nodes := by
        rw [held.nodes queue]
        intro member
        obtain ⟨entry, inside, same⟩ := List.mem_map.mp member
        have queued := held.records.entry_queued (List.mem_append_right _ inside)
        exact fresh (held.kept_queued (same ▸ queued))
      obtain ⟨requests, list, joined, linked, _⟩ := addRequestToQueue_ok queue unserved.live absent
      cases joined.symm.trans added
      exact ⟨[record], linked⟩
  | create here holds unready =>
      exact stays ⟨rfl, rfl, fun s alive =>
        congrArg RequestQueueItem.next (Heap.set_content_ne _ _ alive.ne_brk)⟩
  | _ => exact stays (QueueKept.of_mgr rfl rfl rfl)

/-- A handler's step does not put a record further back. -/
theorem Due.handlerMove {action : Action} {r n : Nat} (due : Due p r n) (working : Working p)
    (move : HandlerMove p action q) : Due q r n := by
  have pc := move.aside.pc
  cases due with
  | marking here => exact Due.marking (pc.trans here)
  | serving here => exact Due.serving (pc.trans here)
  | taken here => exact Due.taken (pc.trans here)
  | @waiting first rest queue looping =>
      obtain ⟨more, longer⟩ := move.queueList working queue
      rw [List.append_assoc, List.cons_append] at longer
      rw [← pc] at looping ⊢
      exact Due.waiting longer looping

/-- The records of a queue stay in it, in their order, unless the manager takes one out. -/
theorem MgrMove.queueList {locals : MgrLocals} {nodes : List Nat} (move : MgrMove p locals q)
    (working : Working p) (queue : QueueList p.mgr nodes) (dequeue : p.mgrPc ≠ .dequeue) :
    QueueList q.mgr nodes := by
  have looping := working.looping
  have live (s : Nat) (member : s ∈ nodes) : q.mgr.requests.Live s := by
    obtain ⟨lost, kept, hand, waiting, held⟩ := working.held
    exact held.waitingLive looping.going move s (held.nodes queue ▸ member)
  cases move with
  | init pc => rw [pc] at looping; exact looping.elim
  | initTail pc => rw [pc] at looping; exact looping.elim
  | freeLists pc freed => rw [pc] at looping; exact looping.elim
  | freeNext pc list alive => rw [pc] at looping; exact looping.elim
  | freeReq pc alive => rw [pc] at looping; exact looping.elim
  | signal pc => rw [pc] at looping; exact looping.elim
  | dequeue pc checked => exact absurd pc dequeue
  | serve pc served =>
      obtain ⟨_, ⟨json, requests⟩, list, tail, _⟩ := handleRequest_frame served
      refine QueueKept.queueList (p := p) ⟨list, tail, fun s _ => ?_⟩ queue live
      simp only [requests]
      exact set_next p.mgr.requests (by rfl) s
  | setReady pc alive =>
      exact QueueKept.queueList (p := p)
        ⟨rfl, rfl, fun s _ => set_next p.mgr.requests (by rfl) s⟩ queue live
  | free pc alive => exact QueueKept.queueList (p := p) ⟨rfl, rfl, fun _ _ => rfl⟩ queue live
  | _ => exact QueueKept.queueList (QueueKept.of_mgr rfl rfl rfl) queue live

/-- Every step of the manager brings a record that is due one step nearer to its reply. -/
theorem Due.mgrMove {locals : MgrLocals} {r n : Nat} (due : Due p r n) (working : Working p)
    (move : MgrMove p locals q) :
    r ∈ q.log.written.map Prod.fst ∨ ∃ m, Due q r m ∧ m + 1 ≤ n := by
  cases due with
  | marking here =>
      cases move with
      | setReady pc live =>
          cases here.symm.trans pc
          exact Or.inl (by simp)
      | _ pc => cases here.symm.trans pc
  | serving here =>
      cases move with
      | serve pc served =>
          cases here.symm.trans pc
          exact Or.inr ⟨1, Due.marking rfl, by omega⟩
      | _ pc => cases here.symm.trans pc
  | taken here =>
      cases move with
      | unlockSome pc =>
          cases here.symm.trans pc
          exact Or.inr ⟨2, Due.serving rfl, by omega⟩
      | _ pc => cases here.symm.trans pc
  | @waiting first rest queue looping =>
      have next := (working.mgrMove move).looping
      have running := working.running
      have nearer (dequeue : p.mgrPc ≠ .dequeue) (less : q.mgrPc.lead + 1 = p.mgrPc.lead) :
          r ∈ q.log.written.map Prod.fst ∨
            ∃ m, Due q r m ∧ m + 1 ≤ p.mgrPc.lead + 7 * first.length :=
        Or.inr ⟨_, Due.waiting (move.queueList working queue dequeue) next, by omega⟩
      cases move with
      | loop pc => exact nearer (by simp [pc]) (by simp [pc, running, MgrPc.lead])
      | lock pc free => exact nearer (by simp [pc]) (by simp [pc, MgrPc.lead])
      | unlockNone pc => exact nearer (by simp [pc]) (by simp [pc, MgrPc.lead])
      | unlockSome pc => exact nearer (by simp [pc]) (by simp [pc, MgrPc.lead])
      | serve pc served => exact nearer (by simp [pc]) (by simp [pc, MgrPc.lead])
      | setReady pc live => exact nearer (by simp [pc]) (by simp [pc, MgrPc.lead])
      | free pc live => exact nearer (by simp [pc]) (by simp [pc, MgrPc.lead])
      | dequeue pc checked =>
          rw [pc]
          cases first with
          | nil =>
              -- the record is the one that is taken out
              obtain ⟨list, tail, found, _⟩ := checkQueueAndGetRequest_cons queue
              cases found.symm.trans checked
              exact Or.inr ⟨3, Due.taken rfl, by simp [MgrPc.lead]⟩
          | cons head others =>
              obtain ⟨list, tail, found, linked⟩ := checkQueueAndGetRequest_cons queue
              cases found.symm.trans checked
              refine Or.inr ⟨_, Due.waiting linked trivial, ?_⟩
              simp only [MgrPc.lead, List.length_cons]
              omega
      | _ pc => rw [pc] at looping; exact looping.elim

/-- What has been written stays written. -/
theorem step_written {action : Action} {r : Nat} (done : p.step action = .ok q)
    (written : r ∈ p.log.written.map Prod.fst) : r ∈ q.log.written.map Prod.fst := by
  cases action with
  | main =>
      have move := mainStep_moves done
      cases move <;> exact written
  | mgr locals => exact ((mgrStep_moves done).outside.written.map Prod.fst).subset written
  | _ =>
      rw [(handlerStep_moves (by simp [Action.handler]) done).aside.written]
      exact written

end Steps

def Action.isMgr : Action → Bool
  | mgr _ => true
  | _ => false

/-- A request with `k` others before it in a queue with a tail pointer is answered before the
manager has taken `7 * k + 10` more steps, whatever steps the handlers take in between. -/
theorem answered_within {before actions : List Action} {p q : Process} {first rest : List Nat}
    {r : Nat} (reached : runFrom Process.step Process.boot before = .ok p)
    (running : p.mgr.sigEqMgrFlag = true) (looping : p.mgrPc.Looping)
    (queue : Chain p.mgr.requests RequestQueueItem.next p.mgr.requestQueueList (first ++ r :: rest))
    (tail : p.mgr.requestQueueTail ≠ none)
    (inLoop : ∀ action ∈ actions, action ≠ .main)
    (ran : runFrom Process.step p actions = .ok q)
    (enough : 7 * first.length + 10 ≤ actions.countP Action.isMgr) :
    r ∈ q.log.written.map Prod.fst := by
  have start : Working p := ⟨lives_of_run reached, running, looping⟩
  have linked : QueueList p.mgr (first ++ r :: rest) := by
    obtain ⟨lost, kept, hand, waiting, held⟩ := start.held
    rcases held.tail with (reset | last) | ⟨pc, _⟩
    · exact absurd reset tail
    · rw [← queue.unique held.records.queue] at last
      exact ⟨queue, last⟩
    · rw [pc] at looping
      exact looping.elim
  have preserved (p : Process) (action : Action) (q : Process) (working : Working p)
      (allowed : action ≠ .main) (done : p.step action = .ok q) : Working q := by
    cases action with
    | main => exact absurd rfl allowed
    | mgr locals => exact working.mgrMove (mgrStep_moves done)
    | _ => exact working.handlerMove (handlerStep_moves (by simp [Action.handler]) done)
  have lowers (p : Process) (action : Action) (q : Process) (n : Nat) (working : Working p)
      (allowed : action ≠ .main) (done : p.step action = .ok q) (due : Due p r n) :
      r ∈ q.log.written.map Prod.fst ∨
        ∃ m, Due q r m ∧ m + (if action.isMgr then 1 else 0) ≤ n := by
    cases action with
    | main => exact absurd rfl allowed
    | mgr locals => exact due.mgrMove working (mgrStep_moves done)
    | _ =>
        refine Or.inr ⟨n, due.handlerMove working (handlerStep_moves ?_ done), by simp [Action.isMgr]⟩
        simp [Action.handler]
  have lead : p.mgrPc.lead ≤ 10 := by
    cases p.mgrPc with
    | unlock newRequest => cases newRequest <;> simp [MgrPc.lead]
    | _ => simp [MgrPc.lead]
  have stays (p : Process) (action : Action) (q : Process) (_ : action ≠ .main)
      (done : p.step action = .ok q) (written : r ∈ p.log.written.map Prod.fst) :
      r ∈ q.log.written.map Prod.fst := step_written done written
  have positive (p : Process) : ¬Due p r 0 := fun due => due.positive rfl
  exact runFrom_bounded Action.isMgr preserved stays lowers positive start
    (along_of_forall inLoop p) ran (Due.waiting linked looping) (by omega)

def twoWaiting : List Action :=
  [.main, .main, .mgr MgrLocals.blank, .mgr MgrLocals.blank, .create 0 (.post (lit "a")), .lock 0,
    .add 0, .unlock 0, .create 1 (.post (lit "b")), .lock 1, .add 1, .unlock 1]

theorem answered_within_two :
    ∃ p q, runFrom Process.step Process.boot twoWaiting = .ok p ∧
      runFrom Process.step p (List.replicate 17 (.mgr MgrLocals.blank)) = .ok q ∧
      1 ∈ q.log.written.map Prod.fst := by
  have start : (runFrom Process.step Process.boot twoWaiting).map (fun p =>
      (p.mgr.sigEqMgrFlag, p.mgrPc, [p.mgr.requestQueueList, (p.mgr.requests.content 0).next,
        (p.mgr.requests.content 1).next, p.mgr.requestQueueTail],
        decide (p.mgr.requests.Live 0 ∧ p.mgr.requests.Live 1))) =
      .ok (true, .loop, [some 0, some 1, none, some 1], true) := by decide +kernel
  have served : ((runFrom Process.step Process.boot twoWaiting).bind fun p =>
      (runFrom Process.step p (List.replicate 17 (.mgr MgrLocals.blank))).map fun _ => ()) =
      .ok () := by decide +kernel
  obtain ⟨p, reached, start⟩ := map_eq_ok start
  obtain ⟨other, sameRun, served⟩ := bind_eq_ok.mp served
  cases sameRun.symm.trans reached
  obtain ⟨q, ran, _⟩ := map_eq_ok served
  obtain ⟨running, rest⟩ := Prod.mk.inj start
  obtain ⟨pc, rest⟩ := Prod.mk.inj rest
  obtain ⟨pointers, live⟩ := Prod.mk.inj rest
  simp only [List.cons.injEq, and_true, decide_eq_true_eq] at pointers live
  obtain ⟨list, firstNext, lastNext, tail⟩ := pointers
  have looping : p.mgrPc.Looping := by
    rw [pc]
    trivial
  have queue : Chain p.mgr.requests RequestQueueItem.next p.mgr.requestQueueList ([0] ++ 1 :: []) :=
    ⟨list, live.1, firstNext, live.2, lastNext⟩
  refine ⟨p, q, reached, ran, answered_within reached running looping queue ?_ ?_ ran ?_⟩
  · simp [tail]
  · simp
  · decide

/-- The manager waits for nothing but the mutex. -/
theorem mgrStep_disabled {p : Process} {locals : MgrLocals}
    (stopped : p.mgrStep locals = .error .disabled) :
    p.mgrPc = .notCreated ∨ p.mgrPc = .finished ∨
      p.mgrPc = .lock ∧ ∃ owner, p.mutex = some owner := by
  have faulty {α : Type} {result : Except Fault α} (failed : orStop result = .error .disabled) :
      False := by
    obtain ⟨fault, _, same⟩ := orStop_eq_error.mp failed
    cases same
  have notOk {value : Process} (done : (.ok value : Except Stop Process) = .error .disabled) :
      False := by cases done
  cases pc : p.mgrPc with
  | notCreated => exact Or.inl rfl
  | finished => exact Or.inr (Or.inl rfl)
  | lock =>
      cases held : p.mutex with
      | some owner => exact Or.inr (Or.inr ⟨rfl, owner, rfl⟩)
      | none =>
          simp only [Process.mgrStep, pc, held, if_true] at stopped
          exact (notOk stopped).elim
  | dequeue =>
      simp only [Process.mgrStep, pc] at stopped
      rcases bind_eq_error.mp stopped with failed | ⟨_, _, done⟩
      · exact (faulty failed).elim
      · exact (notOk done).elim
  | unlock newRequest =>
      cases newRequest <;> simp only [Process.mgrStep, pc] at stopped <;>
        exact (notOk stopped).elim
  | freeLists =>
      simp only [Process.mgrStep, pc] at stopped
      rcases bind_eq_error.mp stopped with failed | ⟨_, _, done⟩
      · exact (faulty failed).elim
      · exact (notOk done).elim
  | freeNext headReq =>
      simp only [Process.mgrStep, pc] at stopped
      rcases bind_eq_error.mp stopped with failed | ⟨_, _, done⟩
      · exact (faulty failed).elim
      · exact (notOk done).elim
  | freeReq headReq =>
      simp only [Process.mgrStep, pc] at stopped
      rcases bind_eq_error.mp stopped with failed | ⟨_, _, done⟩
      · exact (faulty failed).elim
      · exact (notOk done).elim
  | serve r =>
      simp only [Process.mgrStep, pc] at stopped
      rcases bind_eq_error.mp stopped with failed | ⟨_, _, later⟩
      · exact (faulty failed).elim
      · rcases bind_eq_error.mp later with failed | ⟨_, _, done⟩
        · exact (faulty failed).elim
        · exact (notOk done).elim
  | setReady r =>
      simp only [Process.mgrStep, pc] at stopped
      rcases bind_eq_error.mp stopped with failed | ⟨_, _, later⟩
      · exact (faulty failed).elim
      · rcases bind_eq_error.mp later with failed | ⟨_, _, done⟩
        · exact (faulty failed).elim
        · exact (notOk done).elim
  | free r =>
      simp only [Process.mgrStep, pc] at stopped
      rcases bind_eq_error.mp stopped with failed | ⟨_, _, done⟩
      · exact (faulty failed).elim
      · exact (notOk done).elim
  | _ =>
      simp only [Process.mgrStep, pc] at stopped
      exact (notOk stopped).elim

theorem unlocks {p : Process} {h record : Nat} (here : p.handlers h = .unlock record) :
    ∃ q, p.step (.unlock h) = .ok q ∧ q.mutex = none ∧ q.mgrPc = p.mgrPc := by
  refine ⟨{ p with
    mutex := none
    handlers := p.setHandler h (.wait record)
    log := { p.log with accepted := p.log.accepted ++ [record] } }, ?_, rfl, rfl⟩
  simp only [Process.step, Process.unlockStep, here]

/-- In its loop the manager is held up only by a handler that is inside its critical section,
and that handler lets it go on by its next one or two steps. -/
theorem manager_held_up {before : List Action} {p : Process} {locals : MgrLocals}
    (reached : runFrom Process.step Process.boot before = .ok p) (looping : p.mgrPc.Looping)
    (stopped : p.mgrStep locals = .error .disabled) :
    p.mgrPc = .lock ∧ ∃ h actions q next, p.Inside (.handler h) ∧
      (∀ action ∈ actions, action.handler = some h) ∧ actions.length ≤ 2 ∧
      runFrom Process.step p actions = .ok q ∧ q.mgrStep locals = .ok next := by
  have waits : p.mgrPc = .lock ∧ ∃ owner, p.mutex = some owner := by
    rcases mgrStep_disabled stopped with nowhere | nowhere | waits
    · rw [nowhere] at looping
      exact looping.elim
    · rw [nowhere] at looping
      exact looping.elim
    · exact waits
  obtain ⟨pc, owner, mutex⟩ := waits
  refine ⟨pc, ?_⟩
  have guarded := guarded_of_run reached
  have inside := (guarded.owner owner).mpr mutex
  have goes {q : Process} (free : q.mutex = none) (same : q.mgrPc = p.mgrPc) :
      ∃ next, q.mgrStep locals = .ok next := by
    refine ⟨{ q with mutex := some .manager, mgrPc := .dequeue }, ?_⟩
    simp only [Process.mgrStep, same.trans pc, free, if_true]
  cases owner with
  | manager =>
      rw [Process.Inside, pc] at inside
      exact inside.elim
  | handler h =>
      have place := inside
      rw [Process.Inside] at place
      cases here : p.handlers h with
      | add record request =>
          have lives := lives_of_run reached
          obtain ⟨_, lost, kept, hand, waiting, held⟩ :=
            lives.serving (by rw [pc]; exact id)
          obtain ⟨unserved, _⟩ := held.handlers.pending h (record, request) (by rw [here]; rfl)
          obtain ⟨mgr, joined⟩ := addRequestToQueue_runs unserved.live held.tailLive
          let added : Process := { p with
            mgr
            handlers := p.setHandler h (.unlock record)
            log := { p.log with queued := p.log.queued ++ [(record, request)] } }
          have adds : p.step (.add h) = .ok added := by
            simp only [Process.step, Process.addStep, here, queueReq, joined, orStop, bind,
              Except.bind, added]
          obtain ⟨q, unlocked, free, same⟩ :=
            unlocks (show added.handlers h = .unlock record from Function.update_self ..)
          obtain ⟨next, done⟩ := goes free same
          refine ⟨h, [.add h, .unlock h], q, next, inside, by simp [Action.handler], by simp, ?_, done⟩
          simp only [runFrom, adds, unlocked, bind, Except.bind]
      | unlock record =>
          obtain ⟨q, unlocked, free, same⟩ := unlocks here
          obtain ⟨next, done⟩ := goes free same
          refine ⟨h, [.unlock h], q, next, inside, by simp [Action.handler], by simp, ?_, done⟩
          simp only [runFrom, unlocked, bind, Except.bind]
      | _ =>
          rw [here] at place
          exact place.elim

theorem manager_held_up_once :
    ∃ p, p.mgrStep MgrLocals.blank = .error .disabled ∧ p.mgrPc = .lock ∧
      ∃ h actions q next, p.Inside (.handler h) ∧ (∀ action ∈ actions, action.handler = some h) ∧
      actions.length ≤ 2 ∧ runFrom Process.step p actions = .ok q ∧ q.mgrStep MgrLocals.blank = .ok next := by
  have start : (runFrom Process.step Process.boot
      [.main, .main, .mgr MgrLocals.blank, .mgr MgrLocals.blank, .mgr MgrLocals.blank,
        .create 0 (.post (lit "a")), .lock 0]).map (fun p => (p.mgrPc, p.mutex)) =
      .ok (.lock, some (.handler 0)) := by
    decide +kernel
  obtain ⟨p, reached, start⟩ := map_eq_ok start
  obtain ⟨pc, mutex⟩ := Prod.mk.inj start
  have looping : p.mgrPc.Looping := by
    rw [pc]
    trivial
  have stopped : p.mgrStep MgrLocals.blank = .error .disabled := by
    simp only [Process.mgrStep, pc, mutex, reduceCtorEq, if_false]
  exact ⟨p, stopped, manager_held_up reached looping stopped⟩

end SmartPay
