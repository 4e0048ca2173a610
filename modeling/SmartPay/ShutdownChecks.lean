import SmartPay.ProgressChecks

/-!
How the process is told to stop. `main` clears the flag and waits until it is set
again; the manager sees it cleared at the end of its round, gives up the lists, sets
it and returns. Between the two the manager serves one more request at most.
-/

namespace SmartPay

open CLib

/-- `main` has cleared `sigEqMgrFlag`. -/
def MainPc.Asked : MainPc → Prop
  | startDaemon => False
  | createThread => False
  | getchar => False
  | _ => True

/-- `main` has seen `sigEqMgrFlag` set again. -/
def MainPc.Passed : MainPc → Prop
  | join => True
  | stopDaemon => True
  | exited => True
  | _ => False

/-- The manager has set `sigEqMgrFlag` again. -/
def MgrPc.Signalled : MgrPc → Prop
  | returning => True
  | finished => True
  | _ => False

/-- The steps of `main` once it has cleared the flag. -/
inductive LateMove (p : Process) : Process → Prop
  | waitFlag (pc : p.mainPc = .waitFlag) :
      LateMove p { p with mainPc := if p.mgr.sigEqMgrFlag then .join else .waitFlag }
  | join (pc : p.mainPc = .join) (finished : p.mgrPc = .finished) :
      LateMove p { p with mainPc := .stopDaemon }
  | stopDaemon (pc : p.mainPc = .stopDaemon) (idle : p.busy = 0) :
      LateMove p { p with mainPc := .exited }

/-- What the flag tells each of the two threads about the other. -/
structure Handshake (p : Process) : Prop where
  running : ¬p.mainPc.Asked →
    p.mgr.sigEqMgrFlag = true ∧ p.mgrPc ≠ .freeLists ∧ ¬p.mgrPc.Ended
  created : p.mainPc ≠ .startDaemon → p.mainPc ≠ .createThread → p.mgrPc ≠ .notCreated
  stopping : p.mainPc.Asked → (p.mgr.sigEqMgrFlag = true ↔ p.mgrPc.Signalled)
  passed : p.mainPc.Passed → p.mgrPc.Signalled
  joined : p.mainPc = .stopDaemon ∨ p.mainPc = .exited → p.mgrPc = .finished

theorem MgrPc.Signalled.ended {pc : MgrPc} (signalled : pc.Signalled) : pc.Ended := by
  cases pc with
  | returning => trivial
  | finished => trivial
  | _ => exact signalled.elim

def Action.isAdd : Action → Bool
  | add _ => true
  | _ => false

theorem MgrPc.Signalled.cases {pc : MgrPc} (signalled : pc.Signalled) :
    pc = .returning ∨ pc = .finished := by
  cases pc with
  | returning => exact Or.inl rfl
  | finished => exact Or.inr rfl
  | _ => exact signalled.elim

section Steps

variable {p q : Process}

theorem mainStep_late (done : p.mainStep = .ok q) (asked : p.mainPc.Asked) : LateMove p q := by
  simp only [Process.mainStep] at done
  split at done
  · rename_i pc
    rw [pc] at asked
    exact asked.elim
  · rename_i pc
    rw [pc] at asked
    exact asked.elim
  · rename_i pc
    rw [pc] at asked
    exact asked.elim
  · rename_i pc
    cases done
    exact LateMove.waitFlag pc
  · rename_i pc
    split at done
    · rename_i finished
      cases done
      exact LateMove.join pc finished
    · cases done
  · rename_i pc
    split at done
    · rename_i idle
      cases done
      exact LateMove.stopDaemon pc idle
    · cases done
  · cases done

theorem Handshake.boot : Handshake Process.boot := by
  refine ⟨fun _ => ⟨rfl, ?_, id⟩, ?_, fun asked => asked.elim, fun passed => passed.elim, ?_⟩
  · simp [Process.boot]
  · simp [Process.boot]
  · simp [Process.boot]

theorem Handshake.begun (handshake : Handshake p) (asked : p.mainPc.Asked) :
    p.mgrPc ≠ .notCreated := by
  apply handshake.created
  · intro pc
    rw [pc] at asked
    exact asked
  · intro pc
    rw [pc] at asked
    exact asked

theorem Handshake.lateMove (handshake : Handshake p) (asked : p.mainPc.Asked)
    (move : LateMove p q) : Handshake q ∧ q.mainPc.Asked := by
  have created := handshake.begun asked
  have stopping := handshake.stopping asked
  have go {next : MainPc} (later : next.Asked) (signalled : next.Passed → p.mgrPc.Signalled)
      (finished : next = .stopDaemon ∨ next = .exited → p.mgrPc = .finished) :
      Handshake { p with mainPc := next } ∧ next.Asked :=
    ⟨⟨fun running => absurd later running, fun _ _ => created, fun _ => stopping, signalled,
      finished⟩, later⟩
  cases move with
  | waitFlag pc =>
      cases flag : p.mgr.sigEqMgrFlag with
      | true => exact go trivial (fun _ => stopping.mp flag) (by simp)
      | false => exact go trivial (fun passed => passed.elim) (by simp)
  | join pc finished =>
      exact go trivial (fun _ => handshake.passed (by rw [pc]; trivial)) fun _ => finished
  | stopDaemon pc idle =>
      exact go trivial (fun _ => handshake.passed (by rw [pc]; trivial))
        fun _ => handshake.joined (Or.inl pc)

theorem Handshake.mainMove (handshake : Handshake p) (done : p.mainStep = .ok q) :
    Handshake q := by
  by_cases asked : p.mainPc.Asked
  · exact (handshake.lateMove asked (mainStep_late done asked)).1
  · obtain ⟨flag, lists, going⟩ := handshake.running asked
    cases pc : p.mainPc with
    | startDaemon =>
        simp only [Process.mainStep, pc] at done
        cases done
        exact ⟨fun _ => ⟨flag, lists, going⟩, by simp, fun asked => asked.elim,
          fun passed => passed.elim, by simp⟩
    | createThread =>
        simp only [Process.mainStep, pc] at done
        cases done
        exact ⟨fun _ => ⟨flag, by simp, id⟩, by simp, fun asked => asked.elim,
          fun passed => passed.elim, by simp⟩
    | getchar =>
        simp only [Process.mainStep, pc] at done
        cases done
        have created := handshake.created (by simp [pc]) (by simp [pc])
        refine ⟨fun running => absurd trivial running, fun _ _ => created, ?_,
          fun passed => passed.elim, by simp⟩
        intro _
        simp only [Bool.false_eq_true, false_iff]
        exact fun signalled => going signalled.ended
    | _ =>
        rw [pc] at asked
        exact absurd trivial asked

theorem Handshake.handlerMove {action : Action} (handshake : Handshake p)
    (move : HandlerMove p action q) : Handshake q := by
  obtain ⟨running, created, stopping, passed, joined⟩ := handshake
  have aside := move.aside
  refine ⟨?_, ?_, ?_, ?_, ?_⟩
  · rw [move.main, aside.pc, aside.store.flag]
    exact running
  · rw [move.main, aside.pc]
    exact created
  · rw [move.main, aside.pc, aside.store.flag]
    exact stopping
  · rw [move.main, aside.pc]
    exact passed
  · rw [move.main, aside.pc]
    exact joined

/-- The manager leaves its loop only when it is told to, and sets the flag only at its end. -/
theorem Handshake.mgrMove {locals : MgrLocals} (handshake : Handshake p)
    (move : MgrMove p locals q) : Handshake q := by
  obtain ⟨running, created, stopping, passed, joined⟩ := handshake
  have unfinished : p.mgrPc ≠ .finished := by
    intro finished
    cases move with
    | _ pc => rw [finished] at pc; cases pc
  have waits (main : q.mainPc = p.mainPc) (done : q.mainPc = .stopDaemon ∨ q.mainPc = .exited) :
      q.mgrPc = .finished := by
    rw [main] at done
    exact absurd (joined done) unfinished
  have go (main : q.mainPc = p.mainPc) (flag : q.mgr.sigEqMgrFlag = p.mgr.sigEqMgrFlag)
      (begun : q.mgrPc ≠ .notCreated) (before : ¬p.mgrPc.Signalled) (after : ¬q.mgrPc.Signalled)
      (asked : q.mgrPc = .freeLists ∨ q.mgrPc.Ended → p.mainPc.Asked) : Handshake q := by
    refine ⟨?_, fun _ _ => begun, ?_, ?_, waits main⟩
    · rw [main, flag]
      intro unasked
      refine ⟨(running unasked).1, ?_, ?_⟩
      · exact fun lists => unasked (asked (Or.inl lists))
      · exact fun ended => unasked (asked (Or.inr ended))
    · rw [main, flag]
      intro isAsked
      rw [stopping isAsked]
      exact ⟨fun signalled => absurd signalled before, fun signalled => absurd signalled after⟩
    · rw [main]
      exact fun gone => absurd (passed gone) before
  have early (main : q.mainPc = p.mainPc) (flag : q.mgr.sigEqMgrFlag = p.mgr.sigEqMgrFlag)
      (begun : q.mgrPc ≠ .notCreated) (before : ¬p.mgrPc.Signalled)
      (nowhere : q.mgrPc ≠ .freeLists ∧ ¬q.mgrPc.Ended) : Handshake q := by
    refine go main flag begun before (fun signalled => nowhere.2 signalled.ended) ?_
    rintro (lists | ended)
    · exact absurd lists nowhere.1
    · exact absurd ended nowhere.2
  have late (place : p.mgrPc = .freeLists ∨ p.mgrPc.Ended) : p.mainPc.Asked := by
    by_contra unasked
    obtain ⟨_, lists, ended⟩ := running unasked
    exact place.elim lists ended
  cases move with
  | init pc => exact early rfl rfl (by simp) (by rw [pc]; exact id) ⟨by simp, id⟩
  | initTail pc => exact early rfl rfl (by simp) (by rw [pc]; exact id) ⟨by simp, id⟩
  | loop pc =>
      have place : (if p.mgr.sigEqMgrFlag then MgrPc.lock else .freeLists) ≠ .notCreated ∧
          ¬(if p.mgr.sigEqMgrFlag then MgrPc.lock else .freeLists).Signalled := by
        split
        · exact ⟨by simp, id⟩
        · exact ⟨by simp, id⟩
      refine go rfl rfl place.1 (by rw [pc]; exact id) place.2 fun lists => ?_
      by_contra unasked
      simp [(running unasked).1, MgrPc.Ended] at lists
  | lock pc free => exact early rfl rfl (by simp) (by rw [pc]; exact id) ⟨by simp, id⟩
  | dequeue pc checked =>
      exact early rfl (checkQueueAndGetRequest_frame checked).2.flag (by simp)
        (by rw [pc]; exact id) ⟨by simp, id⟩
  | unlockNone pc => exact early rfl rfl (by simp) (by rw [pc]; exact id) ⟨by simp, id⟩
  | unlockSome pc => exact early rfl rfl (by simp) (by rw [pc]; exact id) ⟨by simp, id⟩
  | serve pc served =>
      obtain ⟨_, _, _, _, flag⟩ := handleRequest_frame served
      exact early rfl flag (by simp) (by rw [pc]; exact id) ⟨by simp, id⟩
  | setReady pc live => exact early rfl rfl (by simp) (by rw [pc]; exact id) ⟨by simp, id⟩
  | free pc live => exact early rfl rfl (by simp) (by rw [pc]; exact id) ⟨by simp, id⟩
  | freeLists pc freed =>
      exact go rfl (freeTerminals_frame freed).2.2.2 (by simp) (by rw [pc]; exact id) id
        fun _ => late (Or.inl pc)
  | signal pc =>
      have asked := late (by rw [pc]; exact Or.inr trivial)
      exact ⟨fun unasked => absurd asked unasked, by simp, fun _ => by simp [MgrPc.Signalled],
        fun _ => trivial, waits rfl⟩
  | returning pc =>
      have asked := late (by rw [pc]; exact Or.inr trivial)
      have flag := (stopping asked).mpr (by rw [pc]; trivial)
      exact ⟨fun unasked => absurd asked unasked, by simp, fun _ => by simp [MgrPc.Signalled, flag],
        fun _ => trivial, fun _ => rfl⟩
  | _ pc =>
      exact go rfl rfl (by simp) (by rw [pc]; exact id) id
        fun _ => late (by rw [pc]; exact Or.inr trivial)

theorem Handshake.step {action : Action} (handshake : Handshake p)
    (done : p.step action = .ok q) : Handshake q := by
  cases action with
  | main => exact handshake.mainMove done
  | mgr locals => exact handshake.mgrMove (mgrStep_moves done)
  | _ => exact handshake.handlerMove (handlerStep_moves (by simp [Action.handler]) done)

/-- How many steps the manager has left once it is told to stop, without those that release the
records of the queue. -/
def MgrPc.left : MgrPc → Nat
  | init => 7
  | initTail => 6
  | loop => 5
  | lock => 11
  | dequeue => 10
  | unlock none => 6
  | unlock (some _) => 9
  | serve _ => 8
  | setReady _ => 7
  | free _ => 6
  | freeLists => 4
  | freeReqs _ => 3
  | freeNext _ => 2
  | freeReq _ => 5
  | freeMove => 4
  | signal => 2
  | returning => 1
  | _ => 0

/-- The steps the manager has left, four of them for each record in the queue. -/
def Left (p : Process) (n : Nat) : Prop :=
  ∃ nodes, Chain p.mgr.requests RequestQueueItem.next p.mgr.requestQueueList nodes ∧
    n = p.mgrPc.left + 4 * nodes.length

/-- How many requests it may still serve in its round. -/
def MgrPc.owes : MgrPc → Nat
  | lock => 1
  | dequeue => 1
  | unlock (some _) => 1
  | serve _ => 1
  | _ => 0

structure Stopping (p : Process) : Prop where
  lives : Lives p
  handshake : Handshake p
  asked : p.mainPc.Asked

theorem Stopping.step {action : Action} (stopping : Stopping p) (done : p.step action = .ok q) :
    Stopping q := by
  refine ⟨stopping.lives.step done, stopping.handshake.step done, ?_⟩
  cases action with
  | main =>
      exact (stopping.handshake.lateMove stopping.asked (mainStep_late done stopping.asked)).2
  | mgr locals =>
      rw [(mgrStep_moves done).outside.main]
      exact stopping.asked
  | _ =>
      rw [(handlerStep_moves (by simp [Action.handler]) done).main]
      exact stopping.asked

theorem LateMove.aside (move : LateMove p q) : q.mgrPc = p.mgrPc ∧ q.log = p.log ∧
    q.mgr.requestQueueList = p.mgr.requestQueueList ∧ q.mgr.requests = p.mgr.requests := by
  cases move <;> exact ⟨rfl, rfl, rfl, rfl⟩

theorem Stopping.flag (stopping : Stopping p) (pc : p.mgrPc = .loop) :
    p.mgr.sigEqMgrFlag = false := by
  rw [← Bool.not_eq_true, stopping.handshake.stopping stopping.asked, pc]
  exact id

theorem Lives.queue (lives : Lives p) :
    ∃ nodes, Chain p.mgr.requests RequestQueueItem.next p.mgr.requestQueueList nodes := by
  by_cases ended : p.mgrPc.Ended
  · obtain ⟨nodes, leaving⟩ := lives.leaving ended
    exact ⟨nodes, leaving.queue⟩
  · obtain ⟨_, lost, kept, hand, waiting, held⟩ := lives.serving ended
    exact ⟨_, held.records.queue⟩

/-- An addition makes the queue longer by one at most, and nothing else makes it longer. -/
theorem Lives.handlerQueue {action : Action} {nodes : List Nat} (lives : Lives p)
    (queue : Chain p.mgr.requests RequestQueueItem.next p.mgr.requestQueueList nodes)
    (move : HandlerMove p action q) :
    ∃ after, Chain q.mgr.requests RequestQueueItem.next q.mgr.requestQueueList after ∧
      after.length ≤ nodes.length + (if action.isAdd then 1 else 0) := by
  have bounded {after : List Nat} (shorter : after.length ≤ nodes.length ∨
      (∃ h, action = .add h) ∧ after.length ≤ nodes.length + 1) :
      after.length ≤ nodes.length + (if action.isAdd then 1 else 0) := by
    rcases shorter with same | ⟨⟨h, rfl⟩, longer⟩
    · exact Nat.le_add_right_of_le same
    · exact longer
  by_cases ended : p.mgrPc.Ended
  · obtain ⟨others, leaving⟩ := lives.leaving ended
    obtain ⟨after, next, _, shorter⟩ := leaving.handlerMove lives.accounted.handlers move
    rw [leaving.queue.unique queue] at shorter
    exact ⟨after, next.queue, bounded shorter⟩
  · obtain ⟨_, lost, kept, hand, waiting, held⟩ := lives.serving ended
    have same := held.records.queue.unique queue
    have stays (kept : QueueKept p q) : ∃ after,
        Chain q.mgr.requests RequestQueueItem.next q.mgr.requestQueueList after ∧
          after.length ≤ nodes.length + (if action.isAdd then 1 else 0) := by
      refine ⟨nodes, ?_, Nat.le_add_right _ _⟩
      rw [kept.list]
      refine queue.congr (fun s member => ?_) fun s member => kept.next s (queue.live s member)
      exact (move.aside.records s (queue.live s member)).1 (queue.live s member)
    cases move with
    | create here holds unready =>
        exact stays ⟨rfl, rfl, fun s alive =>
          congrArg RequestQueueItem.next (Heap.set_content_ne _ _ alive.ne_brk)⟩
    | @add h record request mgr here added =>
        obtain ⟨_, fresh⟩ := held.handlers.pending h (record, request) (by rw [here]; rfl)
        have outside : record ∉ nodes := fun member =>
          fresh (held.waiting_queued (same ▸ member))
        have last := held.last
        rw [same] at last
        exact ⟨_, addRequestToQueue_chain queue outside last added, queueAfter_length _ _ _⟩
    | _ => exact stays (QueueKept.of_mgr rfl rfl rfl)

/-- While its lists are in use the manager makes the queue no longer. -/
theorem Lives.mgrQueue {locals : MgrLocals} {nodes : List Nat} (lives : Lives p)
    (going : ¬p.mgrPc.Ended)
    (queue : Chain p.mgr.requests RequestQueueItem.next p.mgr.requestQueueList nodes)
    (move : MgrMove p locals q) :
    ∃ after, Chain q.mgr.requests RequestQueueItem.next q.mgr.requestQueueList after ∧
      after.length ≤ nodes.length := by
  obtain ⟨_, lost, kept, hand, waiting, held⟩ := lives.serving going
  have stays (same : QueueKept p q) : ∃ after,
      Chain q.mgr.requests RequestQueueItem.next q.mgr.requestQueueList after ∧
        after.length ≤ nodes.length := by
    refine ⟨nodes, ?_, Nat.le_refl _⟩
    rw [same.list]
    refine queue.congr (fun s member => ?_) fun s member => same.next s (queue.live s member)
    exact held.waitingLive going move s (held.records.queue.unique queue ▸ member)
  by_cases inside : p.mgrPc.Locked
  · cases move with
    | dequeue pc checked =>
        cases nodes with
        | nil =>
            have empty : p.mgr.requestQueueList = none := queue
            simp only [checkQueueAndGetRequest, empty] at checked
            cases checked
            exact ⟨[], queue, Nat.le_refl _⟩
        | cons first rest =>
            obtain ⟨list, tail, found, shorter, _⟩ := checkQueueAndGetRequest_chain queue
            cases found.symm.trans checked
            exact ⟨rest, shorter, Nat.le_succ _⟩
    | unlockNone pc => exact stays (QueueKept.of_mgr rfl rfl rfl)
    | unlockSome pc => exact stays (QueueKept.of_mgr rfl rfl rfl)
    | _ pc => rw [pc] at inside; exact inside.elim
  · by_cases rewrites : p.mgrPc.Rewrites
    · cases move with
      | init pc => exact ⟨[], rfl, Nat.zero_le _⟩
      | initTail pc => exact ⟨nodes, queue, Nat.le_refl _⟩
      | freeNext pc list live => exact absurd (by rw [pc]; trivial) going
      | _ pc => rw [pc] at rewrites; exact rewrites.elim
    · exact stays (move.queueKept inside rewrites)

/-- The budget pays for every step of the manager, and only an addition adds to it. -/
theorem Stopping.pays {action : Action} {n : Nat} (stopping : Stopping p)
    (done : p.step action = .ok q) (left : Left p n) :
    ∃ m, Left q m ∧ m + (if action.isMgr then 1 else 0) ≤
      n + 4 * (if action.isAdd then 1 else 0) := by
  obtain ⟨nodes, queue, rfl⟩ := left
  cases action with
  | main =>
      obtain ⟨pc, _, list, requests⟩ := (mainStep_late done stopping.asked).aside
      refine ⟨_, ⟨nodes, ?_, rfl⟩, ?_⟩
      · rwa [list, requests]
      · simp [pc, Action.isMgr]
  | mgr locals =>
      have move := mgrStep_moves done
      simp only [Action.isMgr, Action.isAdd, if_true, Bool.false_eq_true, if_false]
      by_cases ended : p.mgrPc.Ended
      · obtain ⟨others, leaving⟩ := stopping.lives.leaving ended
        cases leaving.queue.unique queue
        refine ⟨_, ⟨_, (leaving.mgrMove ended move).1.queue, rfl⟩, ?_⟩
        cases move with
        | freeNext pc list live =>
            cases nodes with
            | nil => cases list.symm.trans queue
            | cons first rest =>
                simp only [pc, MgrPc.keeps, MgrPc.left, List.tail_cons, List.length_cons]
                omega
        | freeReqsMore pc more =>
            simp only [pc, MgrPc.keeps, MgrPc.left]
            omega
        | _ pc =>
            simp only [pc, MgrPc.keeps, MgrPc.left]
            first | omega | exact absurd ended (by rw [pc]; exact id)
      · obtain ⟨after, next, shorter⟩ := stopping.lives.mgrQueue ended queue move
        refine ⟨_, ⟨after, next, rfl⟩, ?_⟩
        cases move with
        | loop pc =>
            simp only [pc, stopping.flag pc, MgrPc.left, Bool.false_eq_true, if_false]
            omega
        | @dequeue mgr newRequest pc checked =>
            cases newRequest with
            | none =>
                simp only [pc, MgrPc.left]
                omega
            | some r =>
                simp only [pc, MgrPc.left]
                omega
        | _ pc =>
            simp only [pc, MgrPc.left]
            first | omega | exact absurd (by rw [pc]; trivial) ended
  | _ =>
      have move := handlerStep_moves (by simp [Action.handler]) done
      obtain ⟨after, next, shorter⟩ := stopping.lives.handlerQueue queue move
      refine ⟨_, ⟨after, next, rfl⟩, ?_⟩
      rw [move.aside.pc]
      simp only [Action.isMgr, Action.isAdd, Bool.false_eq_true, if_false, if_true] at shorter ⊢
      omega

/-- Of the requests, the manager serves those that the round it is in still allows. -/
theorem Stopping.serves {action : Action} {served more : List (Nat × Request)}
    (stopping : Stopping p) (done : p.step action = .ok q) (old : p.log.served = served ++ more)
    (allowed : more.length + p.mgrPc.owes ≤ 1) :
    ∃ rest, q.log.served = served ++ rest ∧ rest.length + q.mgrPc.owes ≤ 1 := by
  cases action with
  | main =>
      obtain ⟨pc, log, _⟩ := (mainStep_late done stopping.asked).aside
      rw [pc, log]
      exact ⟨more, old, allowed⟩
  | mgr locals =>
      have move := mgrStep_moves done
      cases move with
      | loop pc =>
          refine ⟨more, old, ?_⟩
          simp only [pc, MgrPc.owes] at allowed
          simp only [stopping.flag pc, Bool.false_eq_true, if_false, MgrPc.owes]
          exact allowed
      | @serve mgr r pc handled =>
          refine ⟨more ++ [(r, (p.mgr.requests.content r).request)], ?_, ?_⟩
          · rw [← List.append_assoc, ← old]
          · simp only [pc, MgrPc.owes] at allowed
            simp only [List.length_append, List.length_singleton, MgrPc.owes]
            exact allowed
      | @dequeue mgr newRequest pc checked =>
          refine ⟨more, old, ?_⟩
          simp only [pc, MgrPc.owes] at allowed
          cases newRequest with
          | none =>
              simp only [MgrPc.owes]
              omega
          | some r => exact allowed
      | _ pc =>
          refine ⟨more, old, ?_⟩
          simp only [pc, MgrPc.owes] at allowed ⊢
          omega
  | _ =>
      have aside := (handlerStep_moves (by simp [Action.handler]) done).aside
      rw [aside.served, aside.pc]
      exact ⟨more, old, allowed⟩

end Steps

theorem handshake_of_run {actions : List Action} {p : Process}
    (reached : runFrom Process.step Process.boot actions = .ok p) : Handshake p :=
  runFrom_invariant (fun _ _ _ handshake _ done => Handshake.step handshake done) Handshake.boot
    along_true reached

/-- Once `main` has cleared the flag, the manager takes at most eleven more steps, and four for each
record that is in the queue then or is added to it later, whatever the other threads do, and serves
at most one more request. Until it is finished, nothing holds it up but a handler that is inside its
critical section. -/
theorem stop_takes_one_round {before actions : List Action} {p q : Process}
    (reached : runFrom Process.step Process.boot before = .ok p) (asked : p.mainPc.Asked)
    (ran : runFrom Process.step p actions = .ok q) :
    (∃ nodes, Chain p.mgr.requests RequestQueueItem.next p.mgr.requestQueueList nodes ∧
      actions.countP Action.isMgr ≤ 11 + 4 * (nodes.length + actions.countP Action.isAdd)) ∧
      (∃ more, q.log.served = p.log.served ++ more ∧ more.length ≤ 1) ∧
      ∀ locals, q.mgrStep locals = .error .disabled →
        q.mgrPc = .finished ∨ ∃ h, q.Inside (.handler h) := by
  have start : Stopping p := ⟨lives_of_run reached, handshake_of_run reached, asked⟩
  have preserved (p : Process) (action : Action) (q : Process) (stopping : Stopping p) (_ : True)
      (done : p.step action = .ok q) : Stopping q := stopping.step done
  refine ⟨?_, ?_, ?_⟩
  · have pays (p : Process) (action : Action) (q : Process) (n : Nat) (stopping : Stopping p)
        (_ : True) (done : p.step action = .ok q) (left : Left p n) :
        ∃ m, Left q m ∧ m + (if action.isMgr then 1 else 0) ≤
          n + 4 * (if action.isAdd then 1 else 0) := stopping.pays done left
    obtain ⟨nodes, queue⟩ := start.lives.queue
    obtain ⟨m, _, spent⟩ := runFrom_spends Action.isMgr Action.isAdd 4 preserved pays start
      along_true ran ⟨nodes, queue, rfl⟩
    have bounded : p.mgrPc.left ≤ 11 := by
      cases p.mgrPc with
      | unlock newRequest => cases newRequest <;> simp [MgrPc.left]
      | _ => simp [MgrPc.left]
    exact ⟨nodes, queue, by omega⟩
  · have serves (current : Process) (action : Action) (next : Process)
        (inside : Stopping current ∧ ∃ more, current.log.served = p.log.served ++ more ∧
          more.length + current.mgrPc.owes ≤ 1) (_ : True) (done : current.step action = .ok next) :
        Stopping next ∧ ∃ more, next.log.served = p.log.served ++ more ∧
          more.length + next.mgrPc.owes ≤ 1 := by
      obtain ⟨stopping, more, old, allowed⟩ := inside
      exact ⟨stopping.step done, stopping.serves done old allowed⟩
    have owes : p.mgrPc.owes ≤ 1 := by
      cases p.mgrPc with
      | unlock newRequest => cases newRequest <;> simp [MgrPc.owes]
      | _ => simp [MgrPc.owes]
    have begins : ∃ more, p.log.served = p.log.served ++ more ∧ more.length + p.mgrPc.owes ≤ 1 :=
      ⟨[], by simp, by simpa using owes⟩
    obtain ⟨_, more, served, allowed⟩ :=
      runFrom_invariant serves ⟨start, begins⟩ along_true ran
    exact ⟨more, served, by omega⟩
  · intro locals stopped
    have stopping : Stopping q := runFrom_invariant preserved start along_true ran
    have guarded := guarded_of_run (runFrom_append reached ran)
    rcases mgrStep_disabled stopped with nowhere | finished | ⟨pc, owner, mutex⟩
    · exact absurd nowhere (stopping.handshake.begun stopping.asked)
    · exact Or.inl finished
    · have inside := (guarded.owner owner).mpr mutex
      cases owner with
      | manager =>
          rw [Process.Inside, pc] at inside
          exact inside.elim
      | handler h => exact Or.inr ⟨h, inside⟩

/-- `main` clears the flag while the manager is about to take out a request. -/
def stopInRound : List Action :=
  [.main, .main, .mgr MgrLocals.blank, .mgr MgrLocals.blank, .create 0 (.post (lit "a")), .lock 0,
    .add 0, .unlock 0, .mgr MgrLocals.blank, .main]

theorem stop_takes_one_round_taken :
    ∃ p q, runFrom Process.step Process.boot stopInRound = .ok p ∧ p.mainPc.Asked ∧
      runFrom Process.step p (List.replicate 11 (.mgr MgrLocals.blank)) = .ok q ∧
      (∃ more, q.log.served = p.log.served ++ more ∧ more.length ≤ 1) ∧
      ∀ locals, q.mgrStep locals = .error .disabled →
        q.mgrPc = .finished ∨ ∃ h, q.Inside (.handler h) := by
  have start : (runFrom Process.step Process.boot stopInRound).map (fun p => p.mainPc) =
      .ok .waitFlag := by decide +kernel
  have served : ((runFrom Process.step Process.boot stopInRound).bind fun p =>
      (runFrom Process.step p (List.replicate 11 (.mgr MgrLocals.blank))).map fun _ => ()) =
      .ok () := by decide +kernel
  obtain ⟨p, reached, pc⟩ := map_eq_ok start
  obtain ⟨other, sameRun, served⟩ := bind_eq_ok.mp served
  cases sameRun.symm.trans reached
  obtain ⟨q, ran, _⟩ := map_eq_ok served
  have asked : p.mainPc.Asked := by
    rw [pc]
    trivial
  exact ⟨p, q, reached, asked, ran, (stop_takes_one_round reached asked ran).2⟩

end SmartPay
