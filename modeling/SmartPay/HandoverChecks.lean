import SmartPay.RefinementChecks

/-!
The hand-over of a reply. The manager releases a record right after it has marked
it ready, so a handler reads its own record only if it gets there in between.
-/

namespace SmartPay

open CLib

/-- The manager releases a record only when no handler waits for it or copies from it. -/
def Patient (p : Process) : Action → Prop
  | .mgr _ => ∀ r ∈ p.mgrPc.closing, ∀ h, (p.handlers h).awaited ≠ some r
  | _ => True

/-- Every read was one of a live record, and every reply sent is the one that was written. -/
structure RepliesTaken (q : Process) : Prop where
  fresh : q.log.stale = []
  copied : ∀ entry ∈ q.log.sent,
    ∃ json, (entry.1, json) ∈ q.log.written ∧ json.cstr = .ok entry.2

/-- While the process is in service, the records that handlers wait for are live. -/
structure Attended (p : Process) : Prop where
  inService : InService p
  alive : ∀ h r, (p.handlers h).awaited = some r → p.mgr.requests.Live r
  taken : RepliesTaken p

theorem Attended.steady {mgr : EquipmentMgr} (running : mgr.sigEqMgrFlag = true) :
    Attended (Process.steady mgr) :=
  ⟨InService.steady running, by simp [Process.steady, HandlerPc.awaited], rfl,
    by simp [Process.steady, Log.empty]⟩

section Steps

variable {p q : Process}

theorem MgrPc.Looping.freeReq_ne {pc : MgrPc} (looping : pc.Looping) (headReq : Option Nat) :
    pc ≠ .freeReq headReq := by
  rintro rfl
  exact looping

theorem Attended.mgrMove {locals : MgrLocals} (attended : Attended p)
    (patient : Patient p (.mgr locals)) (move : MgrMove p locals q) : Attended q := by
  obtain ⟨inService, alive, fresh, copied⟩ := attended
  have outside := move.outside
  refine ⟨inService.mgrMove move, ?_, outside.stale.trans fresh, ?_⟩
  · intro h r awaited
    rw [move.handlers] at awaited
    apply outside.live r (alive h r awaited)
    · intro freeing
      exact patient r (by rw [freeing]; simp [MgrPc.closing]) h awaited
    · exact inService.looping.freeReq_ne (some r)
  · intro entry member
    rw [outside.sent] at member
    obtain ⟨json, written, read⟩ := copied entry member
    exact ⟨json, outside.written.subset written, read⟩

theorem Attended.go {action : Action} {h : Nat} {pc : HandlerPc} (attended : Attended p)
    (move : HandlerMove p action q) (moved : q.handlers = p.setHandler h pc)
    (own : ∀ r, pc.awaited = some r → p.mgr.requests.Live r) (taken : RepliesTaken q) :
    Attended q := by
  have aside := move.aside
  refine ⟨attended.inService.handlerMove move, ?_, taken⟩
  intro k r awaited
  rw [moved, Process.setHandler] at awaited
  by_cases same : k = h
  · rw [same, Function.update_self] at awaited
    exact (aside.records r (own r awaited)).1 (own r awaited)
  · rw [Function.update_of_ne same] at awaited
    have live := attended.alive k r awaited
    exact (aside.records r live).1 live

theorem Attended.handlerMove {action : Action} (attended : Attended p)
    (move : HandlerMove p action q) : Attended q := by
  obtain ⟨hand, waiting, owned⟩ := attended.inService.owned
  obtain ⟨fresh, copied⟩ := attended.taken
  have going := move
  have own {h : Nat} {pc : HandlerPc} {record : Nat} (here : p.handlers h = pc)
      (awaits : pc.awaited = some record) : p.mgr.requests.Live record :=
    attended.alive h record (by rw [here, awaits])
  cases move with
  | create here holds unready =>
      exact attended.go going rfl (by simp [HandlerPc.awaited]) ⟨fresh, copied⟩
  | lock here free => exact attended.go going rfl (by simp [HandlerPc.awaited]) ⟨fresh, copied⟩
  | @add h record request mgr here added =>
      have pending := owned.handlers.pending h (record, request) (by rw [here]; rfl)
      refine attended.go going rfl ?_ ⟨fresh, copied⟩
      intro r same
      cases same
      exact pending.1.live
  | unlock here =>
      refine attended.go going rfl ?_ ⟨fresh, copied⟩
      intro r same
      cases same
      exact own here rfl
  | testReady here live ready =>
      refine attended.go going rfl ?_ ⟨fresh, copied⟩
      intro r same
      cases same
      exact live
  | testAgain here live => exact attended
  | testStale here dead => exact absurd (own here rfl) dead
  | testStaleAgain here dead => exact absurd (own here rfl) dead
  | @copy h record junk json here live read =>
      have member := owned.handlers.awaited h record (by rw [here]; rfl)
      have written := owned.records.ready record member live
        (owned.handlers.copying h record here live)
      refine attended.go going rfl (by simp [HandlerPc.awaited]) ⟨fresh, ?_⟩
      intro entry sent
      rcases List.mem_append.mp sent with old | new
      · exact copied entry old
      · rw [List.mem_singleton.mp new]
        exact ⟨_, written, read⟩
  | copyStale here dead => exact absurd (own here rfl) dead

theorem Attended.step {action : Action} (attended : Attended p) (inLoop : action ≠ .main)
    (patient : Patient p action) (done : p.step action = .ok q) : Attended q := by
  cases action with
  | main => exact absurd rfl inLoop
  | mgr locals => exact attended.mgrMove patient (mgrStep_moves done)
  | _ => exact attended.handlerMove (handlerStep_moves (by simp [Action.handler]) done)

end Steps

/-- Handlers that are faster than the manager's next step read live records only, and send
what the manager has written. -/
theorem replies_taken_of_patient (mgr : EquipmentMgr) (actions : List Action) (q : Process)
    (running : mgr.sigEqMgrFlag = true) (inLoop : ∀ action ∈ actions, action ≠ .main)
    (patient : Along Process.step Patient (Process.steady mgr) actions)
    (reached : runFrom Process.step (Process.steady mgr) actions = .ok q) : RepliesTaken q := by
  have noMain : Along Process.step (fun _ action => action ≠ .main) (Process.steady mgr) actions :=
    along_of_forall inLoop _
  have preserved (p : Process) (action : Action) (q : Process) (attended : Attended p)
      (allowed : action ≠ .main ∧ Patient p action) (done : p.step action = .ok q) : Attended q :=
    attended.step allowed.1 allowed.2 done
  have attended := runFrom_invariant preserved (Attended.steady running)
    (along_and.mpr ⟨noMain, patient⟩) reached
  exact attended.taken

theorem testStep_stale {p : Process} {h r : Nat} (waits : p.handlers h = .wait r)
    (dead : ¬p.mgr.requests.Live r) :
    ∃ q, p.step (.test h false) = .ok q ∧ r ∈ q.log.stale := by
  refine ⟨{ p with log := { p.log with stale := p.log.stale ++ [r] } }, ?_, by simp⟩
  simp only [Process.step, Process.testStep, waits, if_neg dead]
  rfl

theorem copyStep_stale {p : Process} {h r : Nat} (junk : Text) (copies : p.handlers h = .copy r)
    (dead : ¬p.mgr.requests.Live r) :
    ∃ q, p.step (.copy h junk) = .ok q ∧ r ∈ q.log.stale := by
  refine ⟨{ p with
    handlers := p.setHandler h .idle
    busy := p.busy - 1
    log := { p.log with
      sent := p.log.sent ++ [(r, junk)]
      stale := p.log.stale ++ [r] } }, ?_, by simp⟩
  simp only [Process.step, Process.copyStep, copies, if_neg dead]

/-- Without that, the handler's next read is one of a released record. -/
theorem stale_of_impatient {p q : Process} {hand waiting : List (Nat × Request)}
    {locals : MgrLocals} {r h : Nat} (owned : Owned p hand waiting) (freeing : p.mgrPc = .free r)
    (awaited : (p.handlers h).awaited = some r) (done : p.mgrStep locals = .ok q) :
    ∃ actions final, (∀ action ∈ actions, action.handler = some h) ∧
      runFrom Process.step q actions = .ok final ∧ r ∈ final.log.stale := by
  have same := (mgrStep_moves done).handlers
  have dead : ¬q.mgr.requests.Live r := by
    obtain ⟨live, _⟩ := owned.records.free freeing
    simp only [Process.mgrStep, freeing, freeRequest_ok live] at done
    cases done
    exact fun alive => ((Heap.live_release _ _ _ live).mp alive).2 rfl
  rw [← same] at awaited
  cases here : q.handlers h with
  | idle => simp [here, HandlerPc.awaited] at awaited
  | lock record request => simp [here, HandlerPc.awaited] at awaited
  | add record request => simp [here, HandlerPc.awaited] at awaited
  | unlock record =>
      obtain rfl : record = r := by simpa [here, HandlerPc.awaited] using awaited
      let waits := { q with
        mutex := none
        handlers := q.setHandler h (.wait record)
        log := { q.log with accepted := q.log.accepted ++ [record] } }
      have unlocked : q.step (.unlock h) = .ok waits := by
        simp only [Process.step, Process.unlockStep, here, waits]
      obtain ⟨final, tested, stale⟩ :=
        testStep_stale (show waits.handlers h = .wait record from Function.update_self ..) dead
      refine ⟨[.unlock h, .test h false], final, by simp [Action.handler], ?_, stale⟩
      simp only [runFrom, unlocked, tested, bind, Except.bind]
  | wait record =>
      obtain rfl : record = r := by simpa [here, HandlerPc.awaited] using awaited
      obtain ⟨final, tested, stale⟩ := testStep_stale here dead
      refine ⟨[.test h false], final, by simp [Action.handler], ?_, stale⟩
      simp only [runFrom, tested, bind, Except.bind]
  | copy record =>
      obtain rfl : record = r := by simpa [here, HandlerPc.awaited] using awaited
      obtain ⟨final, copied, stale⟩ := copyStep_stale (lit "") here dead
      refine ⟨[.copy h (lit "")], final, by simp [Action.handler], ?_, stale⟩
      simp only [runFrom, copied, bind, Except.bind]

def loneGet : List Action :=
  [.create 0 (.get 1 (lit "")), .lock 0, .add 0, .unlock 0, .mgr MgrLocals.blank,
    .mgr MgrLocals.blank, .mgr MgrLocals.blank, .mgr MgrLocals.blank, .mgr MgrLocals.blank,
    .mgr MgrLocals.blank]

theorem replies_taken_of_patient_lone :
    ∃ q, runFrom Process.step (Process.steady EquipmentMgr.blank)
        (loneGet ++ [.test 0 true, .copy 0 (lit ""), .mgr MgrLocals.blank]) = .ok q ∧
      q.log.sent = [(0, notFoundReply)] ∧ RepliesTaken q := by
  have sent : (runFrom Process.step (Process.steady EquipmentMgr.blank)
      (loneGet ++ [.test 0 true, .copy 0 (lit ""), .mgr MgrLocals.blank])).map
      (fun q => q.log.sent) = .ok [(0, notFoundReply)] := by decide +kernel
  obtain ⟨q, reached, sent⟩ := map_eq_ok sent
  refine ⟨q, reached, sent, ?_⟩
  apply replies_taken_of_patient EquipmentMgr.blank _ q rfl (by simp [loneGet]) ?_ reached
  -- no other handler takes part, so that the condition can be evaluated for this one only
  have first : Along Process.step
      (fun p action => action.handler = some 0 ∨
        action.handler = none ∧ ∀ r ∈ p.mgrPc.closing, (p.handlers 0).awaited ≠ some r)
      (Process.steady EquipmentMgr.blank)
      (loneGet ++ [.test 0 true, .copy 0 (lit ""), .mgr MgrLocals.blank]) := by decide +kernel
  have others (p : Process) (action : Action) (q : Process)
      (idle : ∀ h, h ≠ 0 → p.handlers h = .idle)
      (alone : action.handler = some 0 ∨
        action.handler = none ∧ ∀ r ∈ p.mgrPc.closing, (p.handlers 0).awaited ≠ some r)
      (done : p.step action = .ok q) : ∀ h, h ≠ 0 → q.handlers h = .idle := by
    intro h other
    rw [step_elsewhere done, idle h other]
    rcases alone with zero | ⟨none, _⟩
    · rw [zero]
      exact fun same => other (Option.some.inj same).symm
    · simp [none]
  refine along_imp others ?_ (fun _ _ => rfl) first
  intro p action idle alone
  cases action with
  | mgr locals =>
      intro r closing h
      rcases alone with zero | ⟨_, copied⟩
      · cases zero
      by_cases same : h = 0
      · rw [same]
        exact copied r closing
      · simp [idle h same, HandlerPc.awaited]
  | _ => trivial

/-- The manager takes its next step first: the handler tests a released record, and sends
what it finds there. -/
theorem reply_read_after_release :
    ∃ q, runFrom Process.step (Process.steady EquipmentMgr.blank)
        (loneGet ++ [.mgr MgrLocals.blank, .test 0 true, .copy 0 (lit "x")]) = .ok q ∧
      q.log.stale = [0, 0] ∧ q.log.sent = [(0, lit "x")] ∧ ¬RepliesTaken q := by
  have log : (runFrom Process.step (Process.steady EquipmentMgr.blank)
      (loneGet ++ [.mgr MgrLocals.blank, .test 0 true, .copy 0 (lit "x")])).map
      (fun q => (q.log.stale, q.log.sent)) = .ok ([0, 0], [(0, lit "x")]) := by decide +kernel
  obtain ⟨q, reached, log⟩ := map_eq_ok log
  obtain ⟨stale, sent⟩ := Prod.mk.inj log
  refine ⟨q, reached, stale, sent, ?_⟩
  intro taken
  rw [taken.fresh] at stale
  cases stale

end SmartPay
