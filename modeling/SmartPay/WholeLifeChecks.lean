import SmartPay.RefinementChecks
import SmartPay.LeavingChecks

/-!
The whole life of the process, under no condition on its runs. What waits in the
queue when the manager resets it is lost, and so is what an addition without a tail
pointer overwrites; what waits there at the end is released with the queue. Whatever
is served is served in the order of the queue.
-/

namespace SmartPay

open CLib

/-- Serving, where it succeeds, is one step of the service. -/
theorem handleRequest_served {mgr served : EquipmentMgr} {texts : List Text} {r : Nat}
    {request : Request} {locals : MgrLocals} (store : Stores mgr texts)
    (own : Unserved mgr.requests (r, request))
    (handled : handleRequest mgr locals r = .ok served) : Served mgr served r texts request := by
  by_cases answerable : Answerable texts request
  · obtain ⟨after, done, result⟩ := handleRequest_ok store own.live own.holds locals answerable
    cases done.symm.trans handled
    exact result
  · cases (handleRequest_overflow store own.live own.holds locals answerable).symm.trans handled

/-- What holds of the records in every state, whatever has become of the queue. -/
structure Accounted (p : Process) : Prop where
  handlers : HandlersOwned p.mgr.requests p.handlers (p.log.queued.map Prod.fst)
  once : (p.log.queued.map Prod.fst).Nodup
  allocated : ∀ r ∈ p.log.queued.map Prod.fst, r < p.mgr.requests.brk
  order : p.log.served.Sublist p.log.queued
  ready : ∀ r ∈ p.log.queued.map Prod.fst, p.mgr.requests.Live r →
    (p.mgr.requests.content r).isResponseReady = true →
      (r, (p.mgr.requests.content r).json) ∈ p.log.written

/-- The tail pointer is where that of the queue is, or, in the middle of `mgrInit`, still at a lost
record. -/
def TailKnown (p : Process) (lost waiting : List (Nat × Request)) : Prop :=
  TailFits p.mgr waiting ∨
    p.mgrPc = .initTail ∧ waiting = [] ∧ ∃ t ∈ lost.map Prod.fst, p.mgr.requestQueueTail = some t

/-- Where each record is until the manager gives up its lists. The records in `lost` were
queued and are in no list any more. -/
structure Held (p : Process) (lost kept hand waiting : List (Nat × Request)) : Prop where
  queued : p.log.queued.Perm (lost ++ kept)
  order : kept.Sublist p.log.queued
  tail : TailKnown p lost waiting
  records : RecordsOwned p.mgr p.mgrPc { p.log with queued := kept } hand waiting
  handlers : HandlersOwned p.mgr.requests p.handlers (p.log.queued.map Prod.fst)
  once : (p.log.queued.map Prod.fst).Nodup
  forgotten : ∀ entry ∈ lost, Unserved p.mgr.requests entry

section Holding

variable {p q : Process} {action : Action} {lost kept hand waiting : List (Nat × Request)}

theorem Accounted.handlerMove (accounted : Accounted p) (move : HandlerMove p action q) :
    Accounted q := by
  obtain ⟨handlers, once, allocated, order, ready⟩ := accounted
  have next := handlers.handlerMove allocated move
  have old (r : Nat) (member : r ∈ p.log.queued.map Prod.fst) (live : q.mgr.requests.Live r)
      (marked : (q.mgr.requests.content r).isResponseReady = true) :
      (r, (q.mgr.requests.content r).json) ∈ q.log.written := by
    obtain ⟨before, readySame, jsonSame⟩ := move.readBack (allocated r member) live
    rw [jsonSame, move.aside.written]
    exact ready r member before (readySame.symm.trans marked)
  rcases move.queued with same | ⟨h, entry, found, grown⟩
  · refine ⟨next, ?_, ?_, ?_, ?_⟩
    · rwa [same]
    · rw [same]
      exact fun r member => (move.older (allocated r member)).1
    · rwa [same, move.aside.served]
    · rwa [same]
  · obtain ⟨unserved, fresh⟩ := handlers.pending h entry found
    refine ⟨next, ?_, ?_, ?_, ?_⟩
    · rw [grown, List.map_append]
      exact once.append (List.nodup_singleton _) (List.disjoint_singleton.mpr fresh)
    · rw [grown, List.map_append]
      intro r member
      rcases List.mem_append.mp member with before | new
      · exact (move.older (allocated r before)).1
      · rw [List.mem_singleton.mp new]
        exact (move.older unserved.live.1).1
    · rw [grown, move.aside.served]
      exact order.trans (List.sublist_append_left _ _)
    · rw [grown, List.map_append]
      intro r member live marked
      rcases List.mem_append.mp member with before | new
      · exact old r before live marked
      · rw [List.mem_singleton.mp new] at live marked
        obtain ⟨_, readySame, _⟩ := move.readBack unserved.live.1 live
        rw [readySame, unserved.unready] at marked
        cases marked

theorem Held.mem_queued (held : Held p lost kept hand waiting) (r : Nat) :
    r ∈ p.log.queued.map Prod.fst ↔ r ∈ lost.map Prod.fst ∨ r ∈ kept.map Prod.fst := by
  rw [(held.queued.map Prod.fst).mem_iff, List.map_append, List.mem_append]

theorem Held.kept_queued (held : Held p lost kept hand waiting) {r : Nat}
    (member : r ∈ kept.map Prod.fst) : r ∈ p.log.queued.map Prod.fst :=
  (held.mem_queued r).mpr (Or.inr member)

theorem Held.lost_ne (held : Held p lost kept hand waiting) {entry : Nat × Request} {r : Nat}
    (member : entry ∈ lost) (inside : r ∈ kept.map Prod.fst) : entry.1 ≠ r := by
  have once := (held.queued.map Prod.fst).nodup_iff.mp held.once
  rw [List.map_append] at once
  intro same
  exact List.disjoint_of_nodup_append once (List.mem_map_of_mem member) (same ▸ inside)

theorem Held.allocated (held : Held p lost kept hand waiting) :
    ∀ r ∈ p.log.queued.map Prod.fst, r < p.mgr.requests.brk := by
  intro r member
  rcases (held.mem_queued r).mp member with before | after
  · obtain ⟨entry, inside, rfl⟩ := List.mem_map.mp before
    exact (held.forgotten entry inside).live.1
  · exact held.records.allocated r after

theorem Held.accounted (held : Held p lost kept hand waiting) : Accounted p := by
  refine ⟨held.handlers, held.once, held.allocated, ?_, ?_⟩
  · have accounts : kept = p.log.served ++ hand ++ waiting := held.records.accounts
    have order := held.order
    rw [accounts, List.append_assoc] at order
    exact (List.sublist_append_left _ _).trans order
  · intro r member live marked
    rcases (held.mem_queued r).mp member with before | after
    · obtain ⟨entry, inside, rfl⟩ := List.mem_map.mp before
      rw [(held.forgotten entry inside).unready] at marked
      cases marked
    · exact held.records.ready r after live marked

theorem Held.waiting_queued (held : Held p lost kept hand waiting) {r : Nat}
    (member : r ∈ waiting.map Prod.fst) : r ∈ p.log.queued.map Prod.fst := by
  obtain ⟨entry, inside, rfl⟩ := List.mem_map.mp member
  exact held.kept_queued (held.records.entry_queued (List.mem_append_right _ inside))

/-- The tail pointer leads to a record that is live. -/
theorem Held.tailLive (held : Held p lost kept hand waiting) :
    ∀ t, p.mgr.requestQueueTail = some t → p.mgr.requests.Live t := by
  intro t found
  rcases held.tail with (reset | last) | ⟨_, _, r, inside, other⟩
  · rw [reset] at found
    cases found
  · exact held.records.queue.live t (List.mem_of_getLast? (last.symm.trans found))
  · obtain ⟨entry, member, rfl⟩ := List.mem_map.mp inside
    rw [found] at other
    rw [Option.some.inj other]
    exact (held.forgotten entry member).live

theorem Held.last (held : Held p lost kept hand waiting) :
    ∀ t ∈ waiting.map Prod.fst, p.mgr.requestQueueTail = some t →
      (waiting.map Prod.fst).getLast? = some t := by
  rcases held.tail with fits | ⟨_, nothing, _⟩
  · exact TailFits.last fits
  · rw [nothing]
    simp

/-- An addition appends the record to the queue, or overwrites a queue without a tail pointer, or
links the record behind a lost one. -/
theorem Held.add {h record : Nat} {request : Request} {mgr : EquipmentMgr}
    (held : Held p lost kept hand waiting) (here : p.handlers h = .add record request)
    (added : addRequestToQueue p.mgr record = .ok mgr) (move : HandlerMove p (.add h) { p with
      mgr
      handlers := p.setHandler h (.unlock record)
      log := { p.log with queued := p.log.queued ++ [(record, request)] } }) :
    ∃ more after rest, Held { p with
      mgr
      handlers := p.setHandler h (.unlock record)
      log := { p.log with queued := p.log.queued ++ [(record, request)] } }
        (lost ++ more) after hand rest := by
  have next := held.accounted.handlerMove move
  have records := held.records
  have accounts : kept = p.log.served ++ hand ++ waiting := records.accounts
  have unserved : Unserved p.mgr.requests (record, request) ∧
      record ∉ p.log.queued.map Prod.fst :=
    held.handlers.pending h (record, request) (by rw [here]; rfl)
  have older : ∀ r ∈ waiting.map Prod.fst, r ≠ record := by
    intro r member same
    exact unserved.2 (same ▸ held.waiting_queued member)
  have recordsKept := addRequestToQueue_kept added
  have last := addRequestToQueue_tail added
  have queue := addRequestToQueue_chain records.queue (fun inside => older record inside rfl)
    held.last added
  have forgotten {more : List (Nat × Request)}
      (also : ∀ entry ∈ more, Unserved p.mgr.requests entry) (entry : Nat × Request)
      (inside : entry ∈ lost ++ more) : Unserved mgr.requests entry := by
    rcases List.mem_append.mp inside with old | new
    · exact (held.forgotten entry old).untouched (recordsKept.untouched entry.1)
    · exact (also entry new).untouched (recordsKept.untouched entry.1)
  cases tailEq : p.mgr.requestQueueTail with
  | none =>
      rw [tailEq] at queue
      have order : (p.log.served ++ hand ++ [(record, request)]).Sublist
          (p.log.queued ++ [(record, request)]) := by
        refine List.Sublist.append ?_ (List.Sublist.refl _)
        have before := held.order
        rw [accounts] at before
        exact (List.sublist_append_left _ _).trans before
      refine ⟨waiting, _, [(record, request)], ?_, order, Or.inl (Or.inr last),
        records.requeue recordsKept queue (List.Nodup.sublist (order.map Prod.fst) next.once) ?_,
        next.handlers, next.once, forgotten fun entry inside => ?_⟩
      · have same := held.queued.append_right [(record, request)]
        rw [accounts] at same
        refine same.trans ?_
        simp only [List.append_assoc]
        refine List.Perm.append_left lost ?_
        rw [← List.append_assoc, ← List.append_assoc, ← List.append_assoc, ← List.append_assoc]
        refine List.Perm.append_right _ ?_
        rw [List.append_assoc waiting]
        exact List.perm_append_comm
      · intro entry inside
        rw [List.mem_singleton.mp inside]
        exact unserved.1
      · exact records.unserved entry (List.mem_append_right _ inside)
  | some t =>
      rw [tailEq] at queue
      by_cases inside : t ∈ waiting.map Prod.fst
      · rw [queueAfter, if_pos inside] at queue
        refine ⟨[], kept ++ [(record, request)], waiting ++ [(record, request)], ?_,
          held.order.append (List.Sublist.refl _), Or.inl (Or.inr ?_),
          records.add unserved.1 (fun member => unserved.2 (held.kept_queued member)) recordsKept ?_,
          next.handlers, next.once, forgotten (by simp)⟩
        · rw [List.append_nil, ← List.append_assoc]
          exact held.queued.append_right _
        · rw [last, List.map_append]
          simp
        · rw [List.map_append]
          exact queue
      · rw [queueAfter, if_neg inside] at queue
        have lostTail : p.mgrPc = .initTail ∧ waiting = [] := by
          rcases held.tail with (reset | fits) | ⟨pc, nothing, _⟩
          · rw [tailEq] at reset
            cases reset
          · exact absurd (List.mem_of_getLast? (fits.symm.trans tailEq)) inside
          · exact ⟨pc, nothing⟩
        obtain ⟨pc, rfl⟩ := lostTail
        have whole : kept = p.log.served ++ hand ++ [] := accounts
        have once : (kept.map Prod.fst).Nodup := records.nodup
        rw [whole] at once
        have unchanged : RecordsOwned mgr p.mgrPc
            { p.log with queued := p.log.served ++ hand ++ [] } hand [] :=
          records.requeue recordsKept queue once (by simp)
        refine ⟨[(record, request)], kept, [], ?_,
          held.order.trans (List.sublist_append_left _ _), Or.inr ⟨pc, rfl, record, ?_, last⟩, ?_,
          next.handlers, next.once, forgotten fun entry new => ?_⟩
        · refine (held.queued.append_right [(record, request)]).trans ?_
          rw [List.append_assoc, List.append_assoc]
          exact List.Perm.append_left lost List.perm_append_comm
        · simp
        · rw [whole]
          exact unchanged
        · rw [List.mem_singleton.mp new]
          exact unserved.1

theorem Held.handlerMove (held : Held p lost kept hand waiting) (move : HandlerMove p action q) :
    ∃ more after rest, Held q (lost ++ more) after hand rest := by
  have next := held.accounted.handlerMove move
  have same (queued : q.log.queued = p.log.queued)
      (tail : q.mgr.requestQueueTail = p.mgr.requestQueueTail)
      (records : RecordsOwned q.mgr q.mgrPc { q.log with queued := kept } hand waiting) :
      ∃ more after rest, Held q (lost ++ more) after hand rest := by
    refine ⟨[], kept, waiting, ?_, ?_, ?_, records, next.handlers, next.once, ?_⟩
    · rw [List.append_nil, queued]
      exact held.queued
    · rw [queued]
      exact held.order
    · rw [List.append_nil, TailKnown, TailFits, tail, move.aside.pc]
      exact held.tail
    · intro entry inside
      rw [List.append_nil] at inside
      have before := held.forgotten entry inside
      exact before.untouched (move.aside.records entry.1 before.live)
  have records := held.records
  cases move with
  | create here holds unready => exact same rfl rfl (records.create _)
  | lock here free => exact same rfl rfl (records.congr rfl rfl rfl rfl rfl)
  | add here added => exact held.add here added (HandlerMove.add here added)
  | unlock here => exact same rfl rfl (records.logged rfl rfl rfl)
  | testReady here live ready => exact same rfl rfl records
  | testAgain here live => exact same rfl rfl records
  | testStale here dead => exact same rfl rfl (records.logged rfl rfl rfl)
  | testStaleAgain here dead => exact same rfl rfl (records.logged rfl rfl rfl)
  | copy here live read => exact same rfl rfl (records.logged rfl rfl rfl)
  | copyStale here dead => exact same rfl rfl (records.logged rfl rfl rfl)

/-- The reset forgets whatever was queued before the manager had served anything. -/
theorem Held.init (held : Held p lost kept hand waiting) (pc : p.mgrPc = .init)
    (served : p.log.served = []) :
    Held { p with mgr := initLists p.mgr, mgrPc := .initTail } (lost ++ kept) [] [] [] := by
  have records := held.records
  have written : p.log.written = [] := by
    have answered : p.log.served.map Prod.fst = p.log.written.map Prod.fst ++ p.mgrPc.answered :=
      records.answered
    rw [served] at answered
    exact List.map_eq_nil_iff.mp (List.append_eq_nil_iff.mp answered.symm).1
  have nothing : hand = [] := by
    have taken := records.taken
    rw [pc] at taken
    exact List.map_eq_nil_iff.mp taken
  have accounts : kept = p.log.served ++ hand ++ waiting := records.accounts
  rw [served, nothing, List.append_nil, List.nil_append] at accounts
  subst accounts nothing
  refine ⟨?_, List.nil_sublist _, ?_, ?_, held.handlers, held.once, ?_⟩
  · rw [List.append_nil]
    exact held.queued
  · rcases held.tail with (reset | last) | ⟨other, _⟩
    · exact Or.inl (Or.inl reset)
    · cases tailEq : p.mgr.requestQueueTail with
      | none => exact Or.inl (Or.inl tailEq)
      | some t =>
          have inside : t ∈ kept.map Prod.fst := List.mem_of_getLast? (last.symm.trans tailEq)
          refine Or.inr ⟨rfl, rfl, t, ?_, tailEq⟩
          rw [List.map_append]
          exact List.mem_append_right _ inside
    · rw [pc] at other
      cases other
  · refine ⟨?_, List.nodup_nil, rfl, ?_, by simp [MgrPc.closing], rfl, by simp,
      by simp [MgrPc.answered], by simp, by simp⟩
    · simp [served]
    · simp [served, written, MgrPc.answered]
  · intro entry member
    rcases List.mem_append.mp member with old | new
    · exact held.forgotten entry old
    · exact records.unserved entry new

theorem Held.mgrMove {locals : MgrLocals} (held : Held p lost kept hand waiting)
    (early : p.mgrPc = .init → p.log.served = []) (move : MgrMove p locals q)
    (ending : p.mgrPc ≠ .freeLists ∧ ¬p.mgrPc.Ended) :
    ∃ more rest first later, Held q (lost ++ more) rest first later := by
  have records := held.records
  have handlers := held.handlers
  have fits (pc : p.mgrPc ≠ .initTail) : TailFits p.mgr waiting :=
    held.tail.resolve_right fun other => pc other.1
  have stays {r : Nat} (member : r ∈ kept.map Prod.fst) {after : Heap RequestQueueItem}
      (others : ∀ s, s ≠ r → Untouched p.mgr.requests after s) (entry : Nat × Request)
      (inside : entry ∈ lost ++ []) : Unserved after entry := by
    rw [List.append_nil] at inside
    exact (held.forgotten entry inside).untouched (others entry.1 (held.lost_ne inside member))
  have queued : p.log.queued.Perm (lost ++ [] ++ kept) := by
    rw [List.append_nil]
    exact held.queued
  have same (next : RecordsOwned q.mgr q.mgrPc { q.log with queued := kept } hand waiting)
      (tail : TailFits q.mgr waiting) (requests : q.mgr.requests = p.mgr.requests)
      (place : q.handlers = p.handlers) (log : q.log.queued = p.log.queued) :
      ∃ more rest first later, Held q (lost ++ more) rest first later := by
    refine ⟨[], kept, hand, waiting, ?_, ?_, Or.inl tail, next, ?_, ?_, ?_⟩
    · rw [log]
      exact queued
    · rw [log]
      exact held.order
    · rw [requests, place, log]
      exact handlers
    · rw [log]
      exact held.once
    · rw [List.append_nil, requests]
      exact held.forgotten
  cases move with
  | init pc => exact ⟨kept, [], [], [], held.init pc (early pc)⟩
  | initTail pc =>
      rw [pc] at records
      exact same (records.congr rfl rfl rfl rfl rfl) (Or.inl rfl) rfl rfl rfl
  | loop pc =>
      have tail := fits (by simp [pc])
      rw [pc] at records
      refine same ?_ tail rfl rfl rfl
      simp only
      split
      · exact records.congr rfl rfl rfl rfl rfl
      · exact records.congr rfl rfl rfl rfl rfl
  | lock pc free =>
      have tail := fits (by simp [pc])
      rw [pc] at records
      exact same (records.congr rfl rfl rfl rfl rfl) tail rfl rfl rfl
  | unlockNone pc =>
      have tail := fits (by simp [pc])
      rw [pc] at records
      exact same (records.congr rfl rfl rfl rfl rfl) tail rfl rfl rfl
  | unlockSome pc =>
      have tail := fits (by simp [pc])
      rw [pc] at records
      exact same (records.congr rfl rfl rfl rfl rfl) tail rfl rfl rfl
  | dequeue pc checked =>
      obtain ⟨first, later, next, tail⟩ := records.dequeue pc (fits (by simp [pc])) checked
      have requests := (checkQueueAndGetRequest_frame checked).1
      refine ⟨[], kept, first, later, queued, held.order, Or.inl tail, next, ?_, held.once, ?_⟩
      · simp only [requests]
        exact handlers
      · simp only [List.append_nil, requests]
        exact held.forgotten
  | @serve mgr r pc served =>
      obtain ⟨live, ⟨json, requests⟩, list, lastKept, _⟩ := handleRequest_frame served
      obtain ⟨request, rfl, read, next⟩ := records.serve pc requests list
      have inside : (r, request) ∈ [(r, request)] ++ waiting := by simp
      have member := records.entry_queued inside
      have tail := fits (by simp [pc])
      rw [TailFits, ← lastKept] at tail
      refine ⟨[], kept, [], waiting, queued, held.order, Or.inl tail, ?_, ?_, held.once, ?_⟩
      · rw [read]
        exact next
      · simp only [requests]
        exact handlers.write (held.kept_queued member) id
      · refine stays member fun s other => ?_
        rw [requests]
        exact Untouched.of_eq id (Heap.set_content_ne _ _ other)
  | @setReady r pc live =>
      obtain ⟨_, member, next⟩ := records.setReady pc
      refine ⟨[], kept, hand, waiting, queued, held.order, Or.inl (fits (by simp [pc])), next, ?_,
        held.once, ?_⟩
      · exact handlers.write (held.kept_queued member) fun _ => rfl
      · exact stays member fun s other => Untouched.of_eq id (Heap.set_content_ne _ _ other)
  | @free r pc live =>
      obtain ⟨_, member, next⟩ := records.free pc
      refine ⟨[], kept, hand, waiting, queued, held.order, Or.inl (fits (by simp [pc])), next, ?_,
        held.once, ?_⟩
      · exact handlers.release live (held.kept_queued member)
      · refine stays member fun s other => Untouched.of_eq ?_ rfl
        exact fun alive => (Heap.live_release _ _ _ live).mpr ⟨alive, other⟩
  | freeLists pc freed => exact absurd pc ending.1
  | _ pc => exact absurd (by rw [pc]; trivial) ending.2

/-- While the lists are in use, no step of the manager releases a record that waits. -/
theorem Held.waitingLive {locals : MgrLocals} (held : Held p lost kept hand waiting)
    (going : ¬p.mgrPc.Ended) (move : MgrMove p locals q) :
    ∀ r ∈ waiting.map Prod.fst, q.mgr.requests.Live r := by
  intro r member
  refine move.outside.live r (held.records.queue.live r member) (fun freeing => ?_) fun freeing => ?_
  · obtain ⟨_, written⟩ := held.records.closing r (by rw [freeing]; simp [MgrPc.closing])
    obtain ⟨entry, inside, same⟩ := List.mem_map.mp member
    exact held.records.served_ne (List.mem_append_left _ written)
      (List.mem_append_right _ inside) same
  · exact going (by rw [freeing]; trivial)

end Holding

/-! The invariant of the whole life. -/

structure Lives (p : Process) : Prop where
  accounted : Accounted p
  marked : p.log.served.map Prod.fst = p.log.written.map Prod.fst ++ p.mgrPc.answered
  replies : List.Forall₂ (fun json reply => json.cstr = .ok reply) p.answers
    (serviceReplies [] p.servedRequests)
  serving : ¬p.mgrPc.Ended → Stores p.mgr (postedTexts p.servedRequests) ∧
    ∃ lost kept hand waiting, Held p lost kept hand waiting
  leaving : p.mgrPc.Ended → ∃ nodes, Leaving p nodes
  early : p.mgrPc = .notCreated ∨ p.mgrPc = .init → p.log.served = []
  thread : p.mainPc = .startDaemon ∨ p.mainPc = .createThread → p.mgrPc = .notCreated

section Living

variable {p q : Process}

theorem MgrPc.Ended.answered {pc : MgrPc} (ended : pc.Ended) : pc.answered = [] := by
  cases pc <;> first | rfl | exact ended.elim

theorem MgrPc.Ended.begun {pc : MgrPc} (ended : pc.Ended) : pc ≠ .notCreated ∧ pc ≠ .init := by
  cases pc <;> first | exact ended.elim | simp

theorem Lives.mainMove (lives : Lives p) (move : MainMove p q) : Lives q := by
  obtain ⟨accounted, marked, replies, serving, leaving, early, thread⟩ := lives
  have keep (mainPc : MainPc) (flag : Bool)
      (thread : mainPc = .startDaemon ∨ mainPc = .createThread → p.mgrPc = .notCreated) :
      Lives { p with mainPc, mgr := { p.mgr with sigEqMgrFlag := flag } } := by
    obtain ⟨handlers, once, allocated, order, ready⟩ := accounted
    refine ⟨⟨handlers, once, allocated, order, ready⟩, marked, replies, ?_, ?_, early, thread⟩
    · intro going
      obtain ⟨⟨⟨nodes, linked, holds⟩, counter, bounded⟩, lost, kept, hand, waiting, held⟩ :=
        serving going
      exact ⟨⟨⟨nodes, linked, holds⟩, counter, bounded⟩, lost, kept, hand, waiting, held.queued,
        held.order, held.tail, held.records.congr rfl rfl rfl rfl rfl, handlers, once,
        held.forgotten⟩
    · intro ended
      obtain ⟨nodes, walk⟩ := leaving ended
      exact ⟨nodes, walk.flag mainPc flag⟩
  cases move with
  | startDaemon pc => exact keep .createThread _ fun _ => thread (Or.inl pc)
  | getchar pc => exact keep .waitFlag false (by simp)
  | @later next late =>
      refine keep next _ ?_
      rintro (start | create)
      · exact absurd start late.1
      · exact absurd create late.2
  | createThread pc =>
      have nothing := thread (Or.inr pc)
      have unanswered : p.mgrPc.answered = [] := by rw [nothing]; rfl
      have going : ¬p.mgrPc.Ended := by simp [nothing, MgrPc.Ended]
      obtain ⟨handlers, once, allocated, order, ready⟩ := accounted
      refine ⟨⟨handlers, once, allocated, order, ready⟩, ?_, ?_, ?_, False.elim, ?_, by simp⟩
      · rw [unanswered] at marked
        exact marked
      · rw [Process.answers, unanswered] at replies
        exact replies
      · obtain ⟨store, lost, kept, hand, waiting, held⟩ := serving going
        refine fun _ => ⟨store, lost, kept, hand, waiting, held.queued, held.order, ?_, ?_,
          handlers, once, held.forgotten⟩
        · exact Or.inl (held.tail.resolve_right fun other => by simp [nothing] at other)
        · refine held.records.congr rfl rfl ?_ ?_ ?_
          all_goals rw [nothing]; rfl
      · exact fun _ => early (Or.inl nothing)

theorem Lives.handlerMove {action : Action} (lives : Lives p) (move : HandlerMove p action q) :
    Lives q := by
  obtain ⟨accounted, marked, replies, serving, leaving, early, thread⟩ := lives
  have aside := move.aside
  have requests : q.servedRequests = p.servedRequests := by
    rw [Process.servedRequests, aside.served]
    rfl
  have answers : q.answers = p.answers := by
    rw [Process.answers, Process.answers, aside.written, aside.pc]
    congr 1
    apply List.map_congr_left
    intro r member
    by_cases ended : p.mgrPc.Ended
    · rw [ended.answered] at member
      cases member
    · obtain ⟨_, lost, kept, hand, waiting, held⟩ := serving ended
      exact (aside.records r (held.records.unready r member).1).json
  refine ⟨accounted.handlerMove move, ?_, ?_, ?_, ?_, ?_, ?_⟩
  · rw [aside.served, aside.written, aside.pc]
    exact marked
  · rw [answers, requests]
    exact replies
  · rw [aside.pc]
    intro going
    obtain ⟨store, lost, kept, hand, waiting, held⟩ := serving going
    obtain ⟨more, after, rest, next⟩ := held.handlerMove move
    rw [requests]
    exact ⟨store.congr aside.store, _, after, hand, rest, next⟩
  · rw [aside.pc]
    intro ended
    obtain ⟨nodes, walk⟩ := leaving ended
    obtain ⟨after, next, _⟩ := walk.handlerMove accounted.handlers move
    exact ⟨after, next⟩
  · rw [aside.pc, aside.served]
    exact early
  · rw [move.main, aside.pc]
    exact thread

/-- A step that serves no request and marks none ready. -/
theorem Lives.between (lives : Lives p) (accounted : Accounted q)
    (serving : ¬q.mgrPc.Ended → Stores q.mgr (postedTexts p.servedRequests) ∧
      ∃ lost kept hand waiting, Held q lost kept hand waiting)
    (leaving : q.mgrPc.Ended → ∃ nodes, Leaving q nodes) (main : q.mainPc = p.mainPc)
    (served : q.log.served = p.log.served)
    (written : q.log.written = p.log.written) (before : p.mgrPc.answered = [])
    (after : q.mgrPc.answered = []) (created : p.mgrPc ≠ .notCreated)
    (begun : q.mgrPc ≠ .notCreated ∧ q.mgrPc ≠ .init) : Lives q := by
  have requests : q.servedRequests = p.servedRequests := by
    rw [Process.servedRequests, served]
    rfl
  refine ⟨accounted, ?_, ?_, ?_, leaving, ?_, ?_⟩
  · rw [served, written, after, ← before]
    exact lives.marked
  · have replies := lives.replies
    rw [Process.answers, before] at replies
    rw [Process.answers, written, after, requests]
    exact replies
  · rw [requests]
    exact serving
  · rintro (notCreated | init)
    · exact absurd notCreated begun.1
    · exact absurd init begun.2
  · rw [main]
    exact fun early => absurd (lives.thread early) created

theorem Lives.serve {locals : MgrLocals} {r : Nat} {mgr : EquipmentMgr} (lives : Lives p)
    (pc : p.mgrPc = .serve r) (handled : handleRequest p.mgr locals r = .ok mgr) :
    Lives { p with
      mgr
      mgrPc := .setReady r
      log := { p.log with
        served := p.log.served ++ [(r, (p.mgr.requests.content r).request)] } } := by
  obtain ⟨accounted, marked, replies, serving, _, early, thread⟩ := lives
  have going : ¬p.mgrPc.Ended := by simp [pc, MgrPc.Ended]
  obtain ⟨store, lost, kept, hand, waiting, held⟩ := serving going
  have unbegun : p.mgrPc ≠ .init := by simp [pc]
  obtain ⟨more, rest, first, later, next⟩ :=
    held.mgrMove (fun init => absurd init unbegun) (MgrMove.serve pc handled)
      ⟨by simp [pc], going⟩
  obtain ⟨request, rfl⟩ := held.records.inHand pc
  have own := held.records.unserved (r, request) (by simp)
  have result := handleRequest_served store own handled
  obtain ⟨json, reply, requests⟩ := result.requests
  have log : (p.log.served ++ [(r, (p.mgr.requests.content r).request)]).map Prod.snd =
      p.servedRequests ++ [request] := by
    rw [own.holds.request_eq, List.map_append]
    rfl
  have before : p.answers = p.log.written.map Prod.snd := by
    rw [Process.answers, pc]
    exact List.append_nil _
  rw [before] at replies
  refine ⟨next.accounted, ?_, ?_, ?_, False.elim, by simp, ?_⟩
  · rw [pc] at marked
    simp [marked, MgrPc.answered]
  · simp only [Process.servedRequests, log, Process.answers, serviceReplies_snoc,
      MgrPc.answered, List.map_cons, List.map_nil, requests, Heap.set_content_same]
    exact List.rel_append replies (List.Forall₂.cons reply List.Forall₂.nil)
  · refine fun _ => ⟨?_, _, rest, first, later, next⟩
    have stored := result.store
    rw [serviceStep_texts] at stored
    simp only [Process.servedRequests, log]
    rw [postedTexts, List.filterMap_append]
    exact stored
  · intro soon
    rw [thread soon] at pc
    cases pc

theorem Accounted.congr (accounted : Accounted p) (requests : q.mgr.requests = p.mgr.requests)
    (handlers : q.handlers = p.handlers) (log : q.log = p.log) : Accounted q := by
  obtain ⟨owned, once, allocated, order, ready⟩ := accounted
  refine ⟨?_, ?_, ?_, ?_, ?_⟩
  · rwa [requests, handlers, log]
  · rwa [log]
  · rwa [requests, log]
  · rwa [log]
  · rwa [requests, log]

/-- `freeNodeList` releases a record that is in no list any more. -/
theorem Accounted.release {r : Nat} (accounted : Accounted p) (live : p.mgr.requests.Live r)
    (member : r ∈ p.log.queued.map Prod.fst) :
    Accounted { p with
      mgr := { p.mgr with requests := p.mgr.requests.release r live }
      mgrPc := .freeMove } := by
  obtain ⟨owned, once, allocated, order, ready⟩ := accounted
  refine ⟨owned.release live member, once, allocated, order, ?_⟩
  intro s inside alive
  exact ready s inside ((Heap.live_release _ _ _ live).mp alive).1

/-- From the release of the terminals on the manager serves nothing, and walks the queue. -/
theorem Lives.endMove {locals : MgrLocals} (lives : Lives p) (ended : p.mgrPc.Ended)
    (move : MgrMove p locals q) : Lives q := by
  obtain ⟨nodes, leaving⟩ := lives.leaving ended
  obtain ⟨next, stays, _⟩ := leaving.mgrMove ended move
  have later (accounted : Accounted q) (served : q.log.served = p.log.served)
      (written : q.log.written = p.log.written) : Lives q :=
    lives.between accounted (fun going => absurd stays going) (fun _ => ⟨_, next⟩) move.outside.main
      served written ended.answered stays.answered ended.begun.1 stays.begun
  cases move with
  | @freeReq r pc live =>
      have member := (leaving.held r (by rw [pc]; simp [MgrPc.releasing])).2.1
      exact later (lives.accounted.release live member) rfl rfl
  | freeReqsEnd pc empty => exact later (lives.accounted.congr rfl rfl rfl) rfl rfl
  | freeReqsMore pc more => exact later (lives.accounted.congr rfl rfl rfl) rfl rfl
  | freeNext pc list live => exact later (lives.accounted.congr rfl rfl rfl) rfl rfl
  | freeReqNull pc => exact later (lives.accounted.congr rfl rfl rfl) rfl rfl
  | freeMove pc => exact later (lives.accounted.congr rfl rfl rfl) rfl rfl
  | signal pc => exact later (lives.accounted.congr rfl rfl rfl) rfl rfl
  | returning pc => exact later (lives.accounted.congr rfl rfl rfl) rfl rfl
  | _ pc => exact absurd ended (by rw [pc]; exact id)

theorem Lives.mgrMove {locals : MgrLocals} (lives : Lives p) (move : MgrMove p locals q) :
    Lives q := by
  by_cases ended : p.mgrPc.Ended
  · exact lives.endMove ended move
  have created := move.created
  have outside := move.outside
  have early (init : p.mgrPc = .init) : p.log.served = [] := lives.early (Or.inr init)
  -- while the lists are in use, a step that leaves the store alone leaves the service as it was
  have next (ending : p.mgrPc ≠ .freeLists) (store : Stores q.mgr (postedTexts p.servedRequests)) :
      Stores q.mgr (postedTexts p.servedRequests) ∧
        ∃ lost kept hand waiting, Held q lost kept hand waiting := by
    obtain ⟨_, lost, kept, hand, waiting, held⟩ := lives.serving ended
    obtain ⟨more, rest, first, later, after⟩ := held.mgrMove early move ⟨ending, ended⟩
    exact ⟨store, _, rest, first, later, after⟩
  have same (ending : p.mgrPc ≠ .freeLists) (store : StoreSame p.mgr q.mgr) :=
    next ending ((lives.serving ended).1.congr store)
  have between (serving : Stores q.mgr (postedTexts p.servedRequests) ∧
      ∃ lost kept hand waiting, Held q lost kept hand waiting)
      (served : q.log.served = p.log.served) (written : q.log.written = p.log.written)
      (before : p.mgrPc.answered = []) (after : q.mgrPc.answered = []) (going : ¬q.mgrPc.Ended)
      (begun : q.mgrPc ≠ .notCreated ∧ q.mgrPc ≠ .init) : Lives q := by
    obtain ⟨lost, kept, hand, waiting, held⟩ := serving.2
    exact lives.between held.accounted (fun _ => serving) (fun given => absurd given going)
      outside.main served written before after created begun
  cases move with
  | init pc =>
      have nothing : p.servedRequests = [] := by rw [Process.servedRequests, early pc]; rfl
      refine between (next (by simp [pc]) ?_) rfl rfl (by rw [pc]; rfl) rfl id (by simp)
      rw [nothing]
      exact (Stores.mgrInit p.mgr).congr ⟨rfl, rfl, rfl, rfl, rfl⟩
  | initTail pc =>
      exact between (same (by simp [pc]) ⟨rfl, rfl, rfl, rfl, rfl⟩) rfl rfl (by rw [pc]; rfl) rfl id
        (by simp)
  | loop pc =>
      have after : (if p.mgr.sigEqMgrFlag then MgrPc.lock else .freeLists).answered = [] ∧
          ¬(if p.mgr.sigEqMgrFlag then MgrPc.lock else .freeLists).Ended ∧
          (if p.mgr.sigEqMgrFlag then MgrPc.lock else .freeLists) ≠ .notCreated ∧
          (if p.mgr.sigEqMgrFlag then MgrPc.lock else .freeLists) ≠ .init := by
        split <;> simp [MgrPc.answered, MgrPc.Ended]
      exact between (same (by simp [pc]) ⟨rfl, rfl, rfl, rfl, rfl⟩) rfl rfl (by rw [pc]; rfl)
        after.1 after.2.1 after.2.2
  | lock pc free =>
      exact between (same (by simp [pc]) ⟨rfl, rfl, rfl, rfl, rfl⟩) rfl rfl (by rw [pc]; rfl) rfl id
        (by simp)
  | dequeue pc checked =>
      exact between (same (by simp [pc]) (checkQueueAndGetRequest_frame checked).2) rfl rfl
        (by rw [pc]; rfl) rfl id (by simp)
  | unlockNone pc =>
      exact between (same (by simp [pc]) ⟨rfl, rfl, rfl, rfl, rfl⟩) rfl rfl (by rw [pc]; rfl) rfl id
        (by simp)
  | unlockSome pc =>
      exact between (same (by simp [pc]) ⟨rfl, rfl, rfl, rfl, rfl⟩) rfl rfl (by rw [pc]; rfl) rfl id
        (by simp)
  | serve pc handled => exact lives.serve pc handled
  | @setReady r pc live =>
      obtain ⟨store, lost, kept, hand, waiting, held⟩ := same (by simp [pc]) ⟨rfl, rfl, rfl, rfl, rfl⟩
      have marked := lives.marked
      have replies := lives.replies
      rw [pc] at marked
      rw [Process.answers, pc] at replies
      refine ⟨held.accounted, ?_, ?_, fun _ => ⟨store, lost, kept, hand, waiting, held⟩, False.elim,
        by simp, ?_⟩
      · simpa [MgrPc.answered] using marked
      · simpa [Process.answers, MgrPc.answered, Process.servedRequests] using replies
      · exact fun soon => absurd (lives.thread soon) created
  | free pc live =>
      exact between (same (by simp [pc]) ⟨rfl, rfl, rfl, rfl, rfl⟩) rfl rfl (by rw [pc]; rfl) rfl id
        (by simp)
  | @freeLists mgr pc freed =>
      obtain ⟨_, lost, kept, hand, waiting, held⟩ := lives.serving ended
      have accounted : Accounted { p with mgr, mgrPc := .freeReqs p.mgr.requestQueueList } :=
        held.accounted.congr (freeTerminals_frame freed).1 rfl rfl
      exact lives.between accounted (fun going => absurd trivial going)
        (fun _ => ⟨_, Leaving.begin held.records.queue (fun _ inside => held.waiting_queued inside)
          held.last freed⟩) rfl rfl rfl (by rw [pc]; rfl) rfl created (by simp)
  | _ pc => exact absurd (by rw [pc]; trivial) ended

theorem Lives.step {action : Action} (lives : Lives p) (done : p.step action = .ok q) :
    Lives q := by
  cases action with
  | main => exact lives.mainMove (mainStep_moves done)
  | mgr locals => exact lives.mgrMove (mgrStep_moves done)
  | _ => exact lives.handlerMove (handlerStep_moves (by simp [Action.handler]) done)

end Living

theorem Lives.boot : Lives Process.boot := by
  have handlers := HandlersOwned.idle Process.boot.mgr.requests []
  refine ⟨⟨handlers, List.nodup_nil, by simp [Process.boot, Log.empty], List.Sublist.refl _, ?_⟩,
    rfl, List.Forall₂.nil, ?_, False.elim, fun _ => rfl, fun _ => rfl⟩
  · simp [Process.boot, Log.empty]
  · refine fun _ => ⟨⟨⟨[], Linked.empty, List.Forall₂.nil⟩, rfl, by decide⟩, [], [], [], [],
      List.Perm.refl _, List.Sublist.refl _, Or.inl (Or.inl rfl),
      Log.empty_owned rfl rfl rfl rfl, handlers, List.nodup_nil, by simp⟩

theorem along_true {σ α ε : Type} {step : σ → α → Except ε σ} {state : σ} {actions : List α} :
    Along step (fun _ _ => True) state actions :=
  along_of_forall (fun _ _ => trivial) state

/-- In every state of every run, from the start of the process on. -/
theorem lives_of_run {actions : List Action} {q : Process}
    (reached : runFrom Process.step Process.boot actions = .ok q) : Lives q :=
  runFrom_invariant (fun _ _ _ lives _ done => Lives.step lives done) Lives.boot along_true reached

end SmartPay
