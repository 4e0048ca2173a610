import SmartPay.WholeLifeChecks

/-!
The mutex of the request queue. The places in which a thread holds it exclude one
another, and the queue changes only in such a place, but for the statements of `mgrInit`
and `freeNodeList`, which take no lock.
-/

namespace SmartPay

open CLib

def MgrPc.Locked : MgrPc → Prop
  | dequeue => True
  | unlock _ => True
  | _ => False

/-- The statements of `mgrInit` and `freeNodeList` that write the pointers of the queue. -/
def MgrPc.Rewrites : MgrPc → Prop
  | init => True
  | initTail => True
  | freeNext _ => True
  | _ => False

def HandlerPc.Locked : HandlerPc → Prop
  | add _ _ => True
  | unlock _ => True
  | _ => False

/-- The thread is between `pthread_mutex_lock` and `pthread_mutex_unlock`. -/
def Process.Inside (p : Process) : Owner → Prop
  | .manager => p.mgrPc.Locked
  | .handler h => (p.handlers h).Locked

def Action.owner : Action → Option Owner
  | main => none
  | mgr _ => some .manager
  | create h _ => some (.handler h)
  | lock h => some (.handler h)
  | add h => some (.handler h)
  | unlock h => some (.handler h)
  | test h _ => some (.handler h)
  | copy h _ => some (.handler h)

/-- The pointers of the queue, and those between the records, are as they were. -/
structure QueueKept (p q : Process) : Prop where
  list : q.mgr.requestQueueList = p.mgr.requestQueueList
  tail : q.mgr.requestQueueTail = p.mgr.requestQueueTail
  next : ∀ r, p.mgr.requests.Live r →
    (q.mgr.requests.content r).next = (p.mgr.requests.content r).next

/-- The mutex tells which thread is inside. -/
structure Guarded (p : Process) : Prop where
  owner : ∀ owner, p.Inside owner ↔ p.mutex = some owner
  thread : p.mainPc = .startDaemon ∨ p.mainPc = .createThread → p.mgrPc = .notCreated

section Steps

variable {p q : Process}

theorem QueueKept.of_mgr (list : q.mgr.requestQueueList = p.mgr.requestQueueList)
    (tail : q.mgr.requestQueueTail = p.mgr.requestQueueTail)
    (requests : q.mgr.requests = p.mgr.requests) : QueueKept p q := by
  refine ⟨list, tail, ?_⟩
  intro r _
  rw [requests]

theorem set_next (requests : Heap RequestQueueItem) {r : Nat} {item : RequestQueueItem}
    (same : item.next = (requests.content r).next) (s : Nat) :
    ((requests.set r item).content s).next = (requests.content s).next := by
  by_cases here : s = r
  · rw [here, Heap.set_content_same, same]
  · rw [Heap.set_content_ne _ _ here]

/-- A thread that goes from outside to outside, or stays inside, leaves the mutex alone. -/
theorem Guarded.stay (guarded : Guarded p) (mutex : q.mutex = p.mutex)
    (inside : ∀ owner, q.Inside owner ↔ p.Inside owner)
    (thread : q.mainPc = .startDaemon ∨ q.mainPc = .createThread → q.mgrPc = .notCreated) :
    Guarded q := by
  refine ⟨fun owner => ?_, thread⟩
  rw [inside owner, mutex]
  exact guarded.owner owner

theorem Guarded.enter {owner : Owner} (guarded : Guarded p) (free : p.mutex = none)
    (taken : q.mutex = some owner) (inside : q.Inside owner)
    (others : ∀ other, other ≠ owner → (q.Inside other ↔ p.Inside other))
    (thread : q.mainPc = .startDaemon ∨ q.mainPc = .createThread → q.mgrPc = .notCreated) :
    Guarded q := by
  refine ⟨fun other => ?_, thread⟩
  rw [taken]
  by_cases same : other = owner
  · subst other
    exact ⟨fun _ => rfl, fun _ => inside⟩
  · have outside : ¬p.Inside other := by
      rw [guarded.owner other, free]
      simp
    rw [others other same]
    constructor
    · exact fun within => absurd within outside
    · exact fun held => absurd (Option.some.inj held).symm same

theorem Guarded.leave {owner : Owner} (guarded : Guarded p) (inside : p.Inside owner)
    (released : q.mutex = none) (outside : ¬q.Inside owner)
    (others : ∀ other, other ≠ owner → (q.Inside other ↔ p.Inside other))
    (thread : q.mainPc = .startDaemon ∨ q.mainPc = .createThread → q.mgrPc = .notCreated) :
    Guarded q := by
  refine ⟨fun other => ?_, thread⟩
  rw [released]
  constructor
  · intro within
    by_cases same : other = owner
    · exact absurd (same ▸ within) outside
    · rw [others other same, guarded.owner other, (guarded.owner owner).mp inside] at within
      exact absurd (Option.some.inj within).symm same
  · intro held
    cases held

theorem Guarded.mainMove (guarded : Guarded p) (move : MainMove p q) : Guarded q := by
  obtain ⟨owner, thread⟩ := guarded
  cases move with
  | startDaemon pc => exact ⟨owner, fun _ => thread (Or.inl pc)⟩
  | getchar pc => exact ⟨owner, by simp⟩
  | later late =>
      refine ⟨owner, ?_⟩
      rintro (start | create)
      · exact absurd start late.1
      · exact absurd create late.2
  | createThread pc =>
      refine ⟨fun other => ?_, by simp⟩
      rw [← owner other]
      cases other with
      | manager => simp [Process.Inside, thread (Or.inr pc), MgrPc.Locked]
      | handler h => exact Iff.rfl

theorem Guarded.mgrMove {locals : MgrLocals} (guarded : Guarded p) (move : MgrMove p locals q) :
    Guarded q := by
  have thread : q.mainPc = .startDaemon ∨ q.mainPc = .createThread → q.mgrPc = .notCreated := by
    rw [move.outside.main]
    exact fun early => absurd (guarded.thread early) move.created
  have same {pc : MgrPc} (here : p.mgrPc = pc) (place : q.mgrPc.Locked ↔ pc.Locked)
      (handlers : q.handlers = p.handlers) (owner : Owner) : q.Inside owner ↔ p.Inside owner := by
    cases owner with
    | manager =>
        rw [Process.Inside, Process.Inside, here]
        exact place
    | handler h => rw [Process.Inside, Process.Inside, handlers]
  have others (handlers : q.handlers = p.handlers) (owner : Owner) (different : owner ≠ .manager) :
      q.Inside owner ↔ p.Inside owner := by
    cases owner with
    | manager => exact absurd rfl different
    | handler h => rw [Process.Inside, Process.Inside, handlers]
  have within {pc : MgrPc} (here : p.mgrPc = pc) (place : pc.Locked) : p.Inside .manager := by
    rw [Process.Inside, here]
    exact place
  cases move with
  | lock pc free => exact guarded.enter free rfl trivial (others rfl) thread
  | unlockNone pc => exact guarded.leave (within pc trivial) rfl id (others rfl) thread
  | unlockSome pc => exact guarded.leave (within pc trivial) rfl id (others rfl) thread
  | dequeue pc checked => exact guarded.stay rfl (same pc Iff.rfl rfl) thread
  | loop pc =>
      refine guarded.stay rfl (same pc ?_ rfl) thread
      simp only
      split <;> exact Iff.rfl
  | _ pc => exact guarded.stay rfl (same pc Iff.rfl rfl) thread

theorem Guarded.handlerMove {action : Action} (guarded : Guarded p)
    (move : HandlerMove p action q) : Guarded q := by
  have thread : q.mainPc = .startDaemon ∨ q.mainPc = .createThread → q.mgrPc = .notCreated := by
    rw [move.main, move.aside.pc]
    exact guarded.thread
  have place {h : Nat} {pc : HandlerPc} : (p.setHandler h pc h) = pc := Function.update_self ..
  have others {h : Nat} {pc : HandlerPc} (handlers : q.handlers = p.setHandler h pc)
      (manager : q.mgrPc = p.mgrPc) (owner : Owner) (different : owner ≠ .handler h) :
      q.Inside owner ↔ p.Inside owner := by
    cases owner with
    | manager => rw [Process.Inside, Process.Inside, manager]
    | handler k =>
        have apart : k ≠ h := fun equal => different (congrArg Owner.handler equal)
        rw [Process.Inside, Process.Inside, handlers, Process.setHandler,
          Function.update_of_ne apart]
  have same {h : Nat} {pc before : HandlerPc} (handlers : q.handlers = p.setHandler h pc)
      (manager : q.mgrPc = p.mgrPc) (here : p.handlers h = before)
      (level : pc.Locked ↔ before.Locked) (owner : Owner) : q.Inside owner ↔ p.Inside owner := by
    by_cases own : owner = .handler h
    · rw [own, Process.Inside, Process.Inside, handlers, place, here]
      exact level
    · exact others handlers manager owner own
  have within {h : Nat} {pc : HandlerPc} (here : p.handlers h = pc) (level : pc.Locked) :
      p.Inside (.handler h) := by
    rw [Process.Inside, here]
    exact level
  cases move with
  | create here holds unready => exact guarded.stay rfl (same rfl rfl here Iff.rfl) thread
  | @lock h record request here free =>
      refine guarded.enter free rfl ?_ (others rfl rfl) thread
      simp only [Process.Inside, place, HandlerPc.Locked]
  | add here added => exact guarded.stay rfl (same rfl rfl here Iff.rfl) thread
  | @unlock h record here =>
      refine guarded.leave (within here trivial) rfl ?_ (others rfl rfl) thread
      simp only [Process.Inside, place, HandlerPc.Locked, not_false_eq_true]
  | testReady here live ready => exact guarded.stay rfl (same rfl rfl here Iff.rfl) thread
  | testAgain here live => exact guarded
  | testStale here dead => exact guarded.stay rfl (same rfl rfl here Iff.rfl) thread
  | testStaleAgain here dead => exact guarded.stay rfl (fun _ => Iff.rfl) thread
  | copy here live read => exact guarded.stay rfl (same rfl rfl here Iff.rfl) thread
  | copyStale here dead => exact guarded.stay rfl (same rfl rfl here Iff.rfl) thread

theorem Guarded.step {action : Action} (guarded : Guarded p) (done : p.step action = .ok q) :
    Guarded q := by
  cases action with
  | main => exact guarded.mainMove (mainStep_moves done)
  | mgr locals => exact guarded.mgrMove (mgrStep_moves done)
  | _ => exact guarded.handlerMove (handlerStep_moves (by simp [Action.handler]) done)

/-! Which steps touch the queue. -/

theorem MgrMove.queueKept {locals : MgrLocals} (move : MgrMove p locals q)
    (outside : ¬p.mgrPc.Locked) (lists : ¬p.mgrPc.Rewrites) : QueueKept p q := by
  cases move with
  | init pc => exact absurd (by rw [pc]; trivial) lists
  | initTail pc => exact absurd (by rw [pc]; trivial) lists
  | freeNext pc list live => exact absurd (by rw [pc]; trivial) lists
  | dequeue pc checked => exact absurd (by rw [pc]; trivial) outside
  | freeLists pc freed =>
      obtain ⟨requests, list, tail, _⟩ := freeTerminals_frame freed
      exact QueueKept.of_mgr list tail requests
  | serve pc served =>
      obtain ⟨_, ⟨json, requests⟩, list, tail, _⟩ := handleRequest_frame served
      refine ⟨list, tail, fun s _ => ?_⟩
      simp only [requests]
      exact set_next p.mgr.requests (by rfl) s
  | setReady pc live => exact ⟨rfl, rfl, fun s _ => set_next p.mgr.requests (by rfl) s⟩
  | free pc live => exact ⟨rfl, rfl, fun _ _ => rfl⟩
  | freeReq pc live => exact ⟨rfl, rfl, fun _ _ => rfl⟩
  | _ => exact QueueKept.of_mgr rfl rfl rfl

theorem HandlerMove.queueKept {action : Action} (move : HandlerMove p action q)
    (outside : ∀ owner, action.owner = some owner → ¬p.Inside owner) : QueueKept p q := by
  cases move with
  | create here holds unready =>
      exact ⟨rfl, rfl, fun s live =>
        congrArg RequestQueueItem.next (Heap.set_content_ne _ _ live.ne_brk)⟩
  | @add h record request mgr here added =>
      refine absurd ?_ (outside (.handler h) rfl)
      rw [Process.Inside, here]
      trivial
  | _ => exact QueueKept.of_mgr rfl rfl rfl

theorem Guarded.handlerMutex {action : Action} (guarded : Guarded p)
    (move : HandlerMove p action q) : q.mutex = p.mutex ∨ p.mutex = none ∧ q.mutex = action.owner ∨
      p.mutex = action.owner ∧ q.mutex = none := by
  cases move with
  | lock here free => exact Or.inr (Or.inl ⟨free, rfl⟩)
  | @unlock h record here =>
      have inside : p.Inside (.handler h) := by
        rw [Process.Inside, here]
        trivial
      exact Or.inr (Or.inr ⟨(guarded.owner (.handler h)).mp inside, rfl⟩)
  | _ => exact Or.inl rfl

/-- A thread takes the mutex only when it is free, and gives it up only as its holder. -/
theorem Guarded.mutex {action : Action} (guarded : Guarded p) (done : p.step action = .ok q) :
    q.mutex = p.mutex ∨ p.mutex = none ∧ q.mutex = action.owner ∨
      p.mutex = action.owner ∧ q.mutex = none := by
  have holder {pc : MgrPc} (here : p.mgrPc = pc) (place : pc.Locked) : p.mutex = some .manager := by
    apply (guarded.owner .manager).mp
    rw [Process.Inside, here]
    exact place
  cases action with
  | main =>
      have move := mainStep_moves done
      cases move <;> exact Or.inl rfl
  | mgr locals =>
      have move := mgrStep_moves done
      cases move with
      | lock pc free => exact Or.inr (Or.inl ⟨free, rfl⟩)
      | unlockNone pc => exact Or.inr (Or.inr ⟨holder pc trivial, rfl⟩)
      | unlockSome pc => exact Or.inr (Or.inr ⟨holder pc trivial, rfl⟩)
      | _ => exact Or.inl rfl
  | _ => exact guarded.handlerMutex (handlerStep_moves (by simp [Action.handler]) done)

theorem Guarded.handlerQueue {action : Action} (guarded : Guarded p)
    (move : HandlerMove p action q) :
    QueueKept p q ∨ action.owner ≠ none ∧ p.mutex = action.owner := by
  by_cases inside : ∃ owner, action.owner = some owner ∧ p.Inside owner
  · obtain ⟨owner, acts, within⟩ := inside
    refine Or.inr ⟨by simp [acts], ?_⟩
    rw [acts]
    exact (guarded.owner owner).mp within
  · exact Or.inl (move.queueKept fun owner acts within => inside ⟨owner, acts, within⟩)

theorem Guarded.queue {action : Action} (guarded : Guarded p) (done : p.step action = .ok q) :
    QueueKept p q ∨ action.owner ≠ none ∧ p.mutex = action.owner ∨
      action.owner = some .manager ∧ p.mgrPc.Rewrites := by
  cases action with
  | main =>
      have move := mainStep_moves done
      cases move <;> exact Or.inl (QueueKept.of_mgr rfl rfl rfl)
  | mgr locals =>
      by_cases inside : p.mgrPc.Locked
      · exact Or.inr (Or.inl ⟨by simp [Action.owner], (guarded.owner .manager).mp inside⟩)
      · by_cases lists : p.mgrPc.Rewrites
        · exact Or.inr (Or.inr ⟨rfl, lists⟩)
        · exact Or.inl ((mgrStep_moves done).queueKept inside lists)
  | _ =>
      rcases guarded.handlerQueue (handlerStep_moves (by simp [Action.handler]) done) with
        kept | holds
      · exact Or.inl kept
      · exact Or.inr (Or.inl holds)

end Steps

theorem Guarded.boot : Guarded Process.boot := by
  refine ⟨fun owner => ?_, fun _ => rfl⟩
  cases owner <;> simp [Process.Inside, Process.boot, MgrPc.Locked, HandlerPc.Locked]

theorem guarded_of_run {actions : List Action} {p : Process}
    (reached : runFrom Process.step Process.boot actions = .ok p) : Guarded p :=
  runFrom_invariant (fun _ _ _ guarded _ done => Guarded.step guarded done) Guarded.boot
    along_true reached

/-- In every state of every run at most one thread is inside its critical section, the mutex
changes hands only through its holder, and whoever changes the queue holds it, unless it is
the manager in `mgrInit` or `freeNodeList`. -/
theorem queue_guarded {actions : List Action} {p : Process}
    (reached : runFrom Process.step Process.boot actions = .ok p) :
    (∀ first second, p.Inside first → p.Inside second → first = second) ∧
      ∀ action q, p.step action = .ok q →
        (q.mutex = p.mutex ∨ p.mutex = none ∧ q.mutex = action.owner ∨
          p.mutex = action.owner ∧ q.mutex = none) ∧
        (QueueKept p q ∨ action.owner ≠ none ∧ p.mutex = action.owner ∨
          action.owner = some .manager ∧ p.mgrPc.Rewrites) := by
  have guarded := guarded_of_run reached
  refine ⟨?_, fun action q done => ⟨guarded.mutex done, guarded.queue done⟩⟩
  intro first second firstIn secondIn
  have held := (guarded.owner first).mp firstIn
  rw [(guarded.owner second).mp secondIn] at held
  exact (Option.some.inj held).symm

theorem queue_guarded_taken :
    ∃ p, runFrom Process.step Process.boot [.main, .create 0 (.post (lit "a")), .lock 0] = .ok p ∧
      p.mutex = some (.handler 0) ∧
      ∀ action q, p.step action = .ok q → q.mutex ≠ p.mutex → action.owner = some (.handler 0) := by
  have taken : (runFrom Process.step Process.boot
      [.main, .create 0 (.post (lit "a")), .lock 0]).map (fun p => p.mutex) =
        .ok (some (.handler 0)) := by decide +kernel
  obtain ⟨p, reached, mutex⟩ := map_eq_ok taken
  refine ⟨p, reached, mutex, fun action q done changed => ?_⟩
  rcases ((queue_guarded reached).2 action q done).1 with same | ⟨free, _⟩ | ⟨holder, _⟩
  · exact absurd same changed
  · rw [mutex] at free
    cases free
  · rw [← holder, mutex]

end SmartPay
