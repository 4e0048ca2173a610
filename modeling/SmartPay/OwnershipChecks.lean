import SmartPay.ProtocolCore
import SmartPay.ManagerChecks

/-!
Who owns a request record. A record belongs to the handler that created it until
it is queued, then to the queue, and then to the manager, which takes it out,
serves it, marks it ready and releases it.
-/

namespace SmartPay

open CLib

namespace MgrPc

/-- The record taken from the queue and not served yet. -/
def taken : MgrPc → List Nat
  | unlock (some newRequest) => [newRequest]
  | serve newRequest => [newRequest]
  | _ => []

/-- The record served and not marked ready yet. -/
def answered : MgrPc → List Nat
  | setReady newRequest => [newRequest]
  | _ => []

/-- The record marked ready and not released yet. -/
def closing : MgrPc → List Nat
  | free newRequest => [newRequest]
  | _ => []

/-- The record that `freeNodeList` points to with `headReq`. -/
def releasing : MgrPc → List Nat
  | freeReqs headReq => headReq.toList
  | freeNext headReq => headReq.toList
  | freeReq headReq => headReq.toList
  | _ => []

/-- The manager has begun to give up its lists. -/
def Ended : MgrPc → Prop
  | freeReqs _ => True
  | freeNext _ => True
  | freeReq _ => True
  | freeMove => True
  | signal => True
  | returning => True
  | finished => True
  | _ => False

/-- `freeNodeList` has found a record in the queue. -/
def Releasing : MgrPc → Prop
  | freeNext _ => True
  | freeReq _ => True
  | freeMove => True
  | _ => False

end MgrPc

namespace HandlerPc

/-- The record created and not queued yet. -/
def pending : HandlerPc → Option (Nat × Request)
  | lock record request => some (record, request)
  | add record request => some (record, request)
  | _ => none

/-- The record queued and not copied yet. -/
def awaited : HandlerPc → Option Nat
  | unlock record => some record
  | wait record => some record
  | copy record => some record
  | _ => none

end HandlerPc

/-- A record that still holds its request and is not marked ready. -/
structure Unserved (requests : Heap RequestQueueItem) (entry : Nat × Request) : Prop where
  live : requests.Live entry.1
  holds : RecordHolds (requests.content entry.1) entry.2
  unready : (requests.content entry.1).isResponseReady = false

structure RecordsOwned (mgr : EquipmentMgr) (pc : MgrPc) (log : Log)
    (hand waiting : List (Nat × Request)) : Prop where
  accounts : log.queued = log.served ++ hand ++ waiting
  nodup : (log.queued.map Prod.fst).Nodup
  taken : hand.map Prod.fst = pc.taken
  answered : log.served.map Prod.fst = log.written.map Prod.fst ++ pc.answered
  closing : ∀ r ∈ pc.closing, mgr.requests.Live r ∧ r ∈ log.written.map Prod.fst
  queue : Chain mgr.requests RequestQueueItem.next mgr.requestQueueList (waiting.map Prod.fst)
  unserved : ∀ entry ∈ hand ++ waiting, Unserved mgr.requests entry
  unready : ∀ r ∈ pc.answered,
    mgr.requests.Live r ∧ (mgr.requests.content r).isResponseReady = false
  ready : ∀ r ∈ log.queued.map Prod.fst, mgr.requests.Live r →
    (mgr.requests.content r).isResponseReady = true →
      (r, (mgr.requests.content r).json) ∈ log.written
  allocated : ∀ r ∈ log.queued.map Prod.fst, r < mgr.requests.brk

structure HandlersOwned (requests : Heap RequestQueueItem) (handlers : Nat → HandlerPc)
    (queued : List Nat) : Prop where
  pending : ∀ h entry, (handlers h).pending = some entry →
    Unserved requests entry ∧ entry.1 ∉ queued
  distinct : ∀ h k first second, (handlers h).pending = some first →
    (handlers k).pending = some second → first.1 = second.1 → h = k
  awaited : ∀ h r, (handlers h).awaited = some r → r ∈ queued
  copying : ∀ h r, handlers h = .copy r → requests.Live r →
    (requests.content r).isResponseReady = true

/-- The tail pointer is at the last record of the queue, or it has been reset. -/
def TailFits (mgr : EquipmentMgr) (waiting : List (Nat × Request)) : Prop :=
  mgr.requestQueueTail = none ∨ mgr.requestQueueTail = (waiting.map Prod.fst).getLast?

theorem TailFits.last {tail : Option Nat} {nodes : List Nat}
    (fits : tail = none ∨ tail = nodes.getLast?) :
    ∀ t ∈ nodes, tail = some t → nodes.getLast? = some t := by
  intro t _ found
  rcases fits with reset | last
  · rw [reset] at found
    cases found
  · rw [← last, found]

structure Owned (p : Process) (hand waiting : List (Nat × Request)) : Prop where
  records : RecordsOwned p.mgr p.mgrPc p.log hand waiting
  tail : TailFits p.mgr waiting
  handlers : HandlersOwned p.mgr.requests p.handlers (p.log.queued.map Prod.fst)
  thread : p.mainPc = .startDaemon ∨ p.mainPc = .createThread → p.mgrPc = .notCreated

/-! Records that a step leaves alone. -/

def Untouched (before after : Heap RequestQueueItem) (r : Nat) : Prop :=
  (before.Live r → after.Live r) ∧ ∃ next, after.content r = { before.content r with next }

theorem Untouched.of_eq {before after : Heap RequestQueueItem} {r : Nat}
    (live : before.Live r → after.Live r) (same : after.content r = before.content r) :
    Untouched before after r :=
  ⟨live, (before.content r).next, same⟩

theorem RecordsKept.untouched {before after : Heap RequestQueueItem}
    (kept : RecordsKept before after) (r : Nat) : Untouched before after r :=
  ⟨(FieldOnly.live kept r).mpr, kept.data r⟩

theorem Untouched.ready {before after : Heap RequestQueueItem} {r : Nat}
    (untouched : Untouched before after r) :
    (after.content r).isResponseReady = (before.content r).isResponseReady := by
  obtain ⟨_, next, same⟩ := untouched
  rw [same]

theorem Untouched.json {before after : Heap RequestQueueItem} {r : Nat}
    (untouched : Untouched before after r) : (after.content r).json = (before.content r).json := by
  obtain ⟨_, next, same⟩ := untouched
  rw [same]

theorem Unserved.untouched {before after : Heap RequestQueueItem} {entry : Nat × Request}
    (unserved : Unserved before entry) (untouched : Untouched before after entry.1) :
    Unserved after entry := by
  have ready := untouched.ready
  obtain ⟨live, next, same⟩ := untouched
  obtain ⟨method, json, termId⟩ := unserved.holds
  refine ⟨live unserved.live, ?_, ready.trans unserved.unready⟩
  rw [same]
  exact ⟨method, json, termId⟩

theorem HandlersOwned.untouched {before after : Heap RequestQueueItem}
    {handlers : Nat → HandlerPc} {queued : List Nat}
    (owned : HandlersOwned before handlers queued)
    (pending : ∀ h entry, (handlers h).pending = some entry → Untouched before after entry.1)
    (copying : ∀ r ∈ queued, after.Live r → (before.content r).isResponseReady = true →
      (after.content r).isResponseReady = true)
    (older : ∀ r ∈ queued, after.Live r → before.Live r) :
    HandlersOwned after handlers queued := by
  refine ⟨?_, owned.distinct, owned.awaited, ?_⟩
  · intro h entry found
    obtain ⟨unserved, fresh⟩ := owned.pending h entry found
    exact ⟨unserved.untouched (pending h entry found), fresh⟩
  · intro h r found live
    have member := owned.awaited h r (by rw [found]; rfl)
    exact copying r member live (owned.copying h r found (older r member live))

theorem HandlersOwned.set {requests : Heap RequestQueueItem} {handlers : Nat → HandlerPc}
    {queued : List Nat} (owned : HandlersOwned requests handlers queued) {h : Nat} {pc : HandlerPc}
    (pending : ∀ entry, pc.pending = some entry → Unserved requests entry ∧ entry.1 ∉ queued ∧
      ∀ k other, k ≠ h → (handlers k).pending = some other → other.1 ≠ entry.1)
    (awaited : ∀ r, pc.awaited = some r → r ∈ queued)
    (copying : ∀ r, pc = .copy r → requests.Live r →
      (requests.content r).isResponseReady = true) :
    HandlersOwned requests (Function.update handlers h pc) queued := by
  refine ⟨?_, ?_, ?_, ?_⟩
  · intro k entry found
    by_cases same : k = h
    · subst k
      rw [Function.update_self] at found
      exact ⟨(pending entry found).1, (pending entry found).2.1⟩
    · rw [Function.update_of_ne same] at found
      exact owned.pending k entry found
  · intro k l first second kFound lFound equal
    by_cases kSame : k = h
    · by_cases lSame : l = h
      · rw [kSame, lSame]
      · rw [kSame, Function.update_self] at kFound
        rw [Function.update_of_ne lSame] at lFound
        exact absurd equal.symm ((pending first kFound).2.2 l second lSame lFound)
    · rw [Function.update_of_ne kSame] at kFound
      by_cases lSame : l = h
      · rw [lSame, Function.update_self] at lFound
        exact absurd equal ((pending second lFound).2.2 k first kSame kFound)
      · rw [Function.update_of_ne lSame] at lFound
        exact owned.distinct k l first second kFound lFound equal
  · intro k r found
    by_cases same : k = h
    · rw [same, Function.update_self] at found
      exact awaited r found
    · rw [Function.update_of_ne same] at found
      exact owned.awaited k r found
  · intro k r found
    by_cases same : k = h
    · rw [same, Function.update_self] at found
      exact copying r found
    · rw [Function.update_of_ne same] at found
      exact owned.copying k r found

theorem HandlersOwned.copies {requests : Heap RequestQueueItem} {handlers : Nat → HandlerPc}
    {queued : List Nat} (owned : HandlersOwned requests handlers queued) {h record : Nat}
    (member : record ∈ queued)
    (ready : requests.Live record → (requests.content record).isResponseReady = true) :
    HandlersOwned requests (Function.update handlers h (.copy record)) queued := by
  refine owned.set (by simp [HandlerPc.pending]) ?_ ?_
  · intro r same
    cases same
    exact member
  · intro r same live
    cases same
    exact ready live

theorem HandlersOwned.queue {requests : Heap RequestQueueItem} {handlers : Nat → HandlerPc}
    {queued : List Nat} (owned : HandlersOwned requests handlers queued) {h : Nat}
    {entry : Nat × Request} (found : (handlers h).pending = some entry) :
    HandlersOwned requests (Function.update handlers h (.unlock entry.1)) (queued ++ [entry.1]) := by
  have elsewhere {k : Nat} {other : Nat × Request} (different : k ≠ h)
      (held : (handlers k).pending = some other) : other.1 ≠ entry.1 :=
    fun same => different (owned.distinct k h other entry held found same)
  refine ⟨?_, ?_, ?_, ?_⟩
  · intro k other held
    by_cases same : k = h
    · rw [same, Function.update_self] at held
      cases held
    · rw [Function.update_of_ne same] at held
      obtain ⟨unserved, fresh⟩ := owned.pending k other held
      refine ⟨unserved, ?_⟩
      simp only [List.mem_append, List.mem_singleton, not_or]
      exact ⟨fresh, elsewhere same held⟩
  · intro k l first second kHeld lHeld equal
    by_cases kSame : k = h
    · rw [kSame, Function.update_self] at kHeld
      cases kHeld
    · by_cases lSame : l = h
      · rw [lSame, Function.update_self] at lHeld
        cases lHeld
      · rw [Function.update_of_ne kSame] at kHeld
        rw [Function.update_of_ne lSame] at lHeld
        exact owned.distinct k l first second kHeld lHeld equal
  · intro k r held
    by_cases same : k = h
    · rw [same, Function.update_self] at held
      cases held
      simp
    · rw [Function.update_of_ne same] at held
      exact List.mem_append_left _ (owned.awaited k r held)
  · intro k r held
    by_cases same : k = h
    · rw [same, Function.update_self] at held
      cases held
    · rw [Function.update_of_ne same] at held
      exact owned.copying k r held

theorem HandlersOwned.write {requests : Heap RequestQueueItem} {handlers : Nat → HandlerPc}
    {queued : List Nat} (owned : HandlersOwned requests handlers queued) {r : Nat}
    {item : RequestQueueItem} (member : r ∈ queued)
    (ready : (requests.content r).isResponseReady = true → item.isResponseReady = true) :
    HandlersOwned (requests.set r item) handlers queued := by
  refine owned.untouched ?_ ?_ fun _ _ alive => alive
  · intro h entry found
    have other : entry.1 ≠ r := fun same => (owned.pending h entry found).2 (same ▸ member)
    exact Untouched.of_eq id (Heap.set_content_ne _ _ other)
  · intro s _ _ before
    by_cases here : s = r
    · subst s
      rw [Heap.set_content_same]
      exact ready before
    · rwa [Heap.set_content_ne _ _ here]

theorem HandlersOwned.release {requests : Heap RequestQueueItem} {handlers : Nat → HandlerPc}
    {queued : List Nat} (owned : HandlersOwned requests handlers queued) {r : Nat}
    (live : requests.Live r) (member : r ∈ queued) :
    HandlersOwned (requests.release r live) handlers queued := by
  refine owned.untouched ?_ (fun _ _ _ before => before) ?_
  · intro h entry found
    have other : entry.1 ≠ r := fun same => (owned.pending h entry found).2 (same ▸ member)
    exact Untouched.of_eq (fun alive => (Heap.live_release _ _ _ live).mpr ⟨alive, other⟩) rfl
  · intro s _ alive
    exact ((Heap.live_release _ _ _ live).mp alive).1

theorem HandlersOwned.create {requests : Heap RequestQueueItem} {handlers : Nat → HandlerPc}
    {queued : List Nat} (owned : HandlersOwned requests handlers queued)
    (allocated : ∀ r ∈ queued, r < requests.brk) (item : RequestQueueItem) :
    HandlersOwned (requests.malloc.1.set requests.brk item) handlers queued := by
  have live (r : Nat) : (requests.malloc.1.set requests.brk item).Live r ↔
      requests.Live r ∨ r = requests.brk := requests.live_malloc r
  have same (r : Nat) (older : r < requests.brk) :
      (requests.malloc.1.set requests.brk item).content r = requests.content r :=
    Heap.set_content_ne _ _ (Nat.ne_of_lt older)
  refine owned.untouched ?_ ?_ ?_
  · intro h entry found
    have before := (owned.pending h entry found).1.live
    exact Untouched.of_eq (fun alive => (live entry.1).mpr (Or.inl alive)) (same entry.1 before.1)
  · intro r member _ ready
    rwa [same r (allocated r member)]
  · intro r member alive
    rcases (live r).mp alive with before | new
    · exact before
    · exact absurd new (Nat.ne_of_lt (allocated r member))

theorem HandlersOwned.idle (requests : Heap RequestQueueItem) (queued : List Nat) :
    HandlersOwned requests (fun _ => .idle) queued :=
  ⟨by simp [HandlerPc.pending], by simp [HandlerPc.pending], by simp [HandlerPc.awaited], by simp⟩

/-! Steps on the queue and on the record in the manager's hand. -/

section Records

variable {mgr : EquipmentMgr} {pc : MgrPc} {log : Log} {hand waiting : List (Nat × Request)}

theorem RecordsOwned.congr {other : EquipmentMgr} {next : MgrPc}
    (owned : RecordsOwned mgr pc log hand waiting) (requests : other.requests = mgr.requests)
    (list : other.requestQueueList = mgr.requestQueueList) (taken : next.taken = pc.taken)
    (answered : next.answered = pc.answered) (closing : next.closing = pc.closing) :
    RecordsOwned other next log hand waiting := by
  obtain ⟨accounts, nodup, handTaken, served, closed, queue, unserved, unready, ready, allocated⟩ :=
    owned
  rw [← taken] at handTaken
  rw [← answered] at served unready
  rw [← closing] at closed
  refine ⟨accounts, nodup, handTaken, served, ?_, ?_, ?_, ?_, ?_, ?_⟩
  · rwa [requests]
  · rwa [requests, list]
  · rwa [requests]
  · rwa [requests]
  · rwa [requests]
  · rwa [requests]

theorem RecordsOwned.logged {other : Log} (owned : RecordsOwned mgr pc log hand waiting)
    (queued : other.queued = log.queued) (served : other.served = log.served)
    (written : other.written = log.written) : RecordsOwned mgr pc other hand waiting := by
  obtain ⟨queuedLog, accepted, servedLog, writtenLog, sent, stale⟩ := other
  cases queued
  cases served
  cases written
  exact ⟨owned.accounts, owned.nodup, owned.taken, owned.answered, owned.closing, owned.queue,
    owned.unserved, owned.unready, owned.ready, owned.allocated⟩

theorem RecordsOwned.entry_queued (owned : RecordsOwned mgr pc log hand waiting)
    {entry : Nat × Request} (member : entry ∈ hand ++ waiting) :
    entry.1 ∈ log.queued.map Prod.fst := by
  apply List.mem_map_of_mem
  rw [owned.accounts, List.append_assoc]
  exact List.mem_append_right _ member

theorem RecordsOwned.written_queued (owned : RecordsOwned mgr pc log hand waiting) {r : Nat}
    (member : r ∈ log.written.map Prod.fst ++ pc.answered) : r ∈ log.queued.map Prod.fst := by
  rw [← owned.answered] at member
  rw [owned.accounts, List.map_append, List.map_append]
  exact List.mem_append_left _ (List.mem_append_left _ member)

theorem RecordsOwned.served_ne (owned : RecordsOwned mgr pc log hand waiting) {r : Nat}
    (member : r ∈ log.written.map Prod.fst ++ pc.answered) {entry : Nat × Request}
    (inside : entry ∈ hand ++ waiting) : entry.1 ≠ r := by
  have nodup := owned.nodup
  rw [← owned.answered] at member
  rw [owned.accounts, List.append_assoc, List.map_append] at nodup
  intro same
  exact List.disjoint_of_nodup_append nodup member (same ▸ List.mem_map_of_mem inside)

theorem RecordsOwned.create (owned : RecordsOwned mgr pc log hand waiting)
    (item : RequestQueueItem) :
    RecordsOwned { mgr with requests := mgr.requests.malloc.1.set mgr.requests.brk item } pc log
      hand waiting := by
  let requests := mgr.requests.malloc.1.set mgr.requests.brk item
  have live (r : Nat) : requests.Live r ↔ mgr.requests.Live r ∨ r = mgr.requests.brk :=
    mgr.requests.live_malloc r
  have same (r : Nat) (older : r < mgr.requests.brk) :
      requests.content r = mgr.requests.content r :=
    Heap.set_content_ne _ _ (Nat.ne_of_lt older)
  have untouched (r : Nat) (older : r < mgr.requests.brk) :
      Untouched mgr.requests requests r :=
    Untouched.of_eq (fun alive => (live r).mpr (Or.inl alive)) (same r older)
  refine ⟨owned.accounts, owned.nodup, owned.taken, owned.answered, ?_, ?_, ?_, ?_, ?_, ?_⟩
  · intro r member
    exact ⟨(live r).mpr (Or.inl (owned.closing r member).1), (owned.closing r member).2⟩
  · exact owned.queue.setFresh item
  · intro entry member
    have unserved := owned.unserved entry member
    exact unserved.untouched (untouched entry.1 unserved.live.1)
  · intro r member
    obtain ⟨alive, unready⟩ := owned.unready r member
    exact ⟨(live r).mpr (Or.inl alive), (untouched r alive.1).ready.trans unready⟩
  · intro r member alive ready
    have older := owned.allocated r member
    change (r, (requests.content r).json) ∈ log.written
    change (requests.content r).isResponseReady = true at ready
    rw [same r older] at ready ⊢
    refine owned.ready r member ?_ ready
    rcases (live r).mp alive with before | new
    · exact before
    · omega
  · intro r member
    exact Nat.lt_succ_of_lt (owned.allocated r member)

/-- The queue may lose records and gain ones that are not served yet. -/
theorem RecordsOwned.requeue {next : EquipmentMgr} {rest : List (Nat × Request)}
    (owned : RecordsOwned mgr pc log hand waiting) (kept : RecordsKept mgr.requests next.requests)
    (queue : Chain next.requests RequestQueueItem.next next.requestQueueList (rest.map Prod.fst))
    (nodup : ((log.served ++ hand ++ rest).map Prod.fst).Nodup)
    (unserved : ∀ entry ∈ rest, Unserved mgr.requests entry) :
    RecordsOwned next pc { log with queued := log.served ++ hand ++ rest } hand rest := by
  have untouched := RecordsKept.untouched kept
  have older : ∀ r ∈ (log.served ++ hand).map Prod.fst, r ∈ log.queued.map Prod.fst := by
    intro r member
    rw [owned.accounts, List.map_append]
    exact List.mem_append_left _ member
  refine ⟨rfl, nodup, owned.taken, owned.answered, ?_, queue, ?_, ?_, ?_, ?_⟩
  · intro r member
    exact ⟨(untouched r).1 (owned.closing r member).1, (owned.closing r member).2⟩
  · intro entry member
    rcases List.mem_append.mp member with taken | waits
    · exact (owned.unserved entry (List.mem_append_left _ taken)).untouched (untouched entry.1)
    · exact (unserved entry waits).untouched (untouched entry.1)
  · intro r member
    obtain ⟨alive, unready⟩ := owned.unready r member
    exact ⟨(untouched r).1 alive, (untouched r).ready.trans unready⟩
  · intro r member alive ready
    have before := (untouched r).ready.symm.trans ready
    change (r, (next.requests.content r).json) ∈ log.written
    rw [(untouched r).json]
    rw [List.map_append] at member
    rcases List.mem_append.mp member with old | waits
    · exact owned.ready r (older r old) ((FieldOnly.live kept r).mp alive) before
    · obtain ⟨entry, inside, rfl⟩ := List.mem_map.mp waits
      rw [(unserved entry inside).unready] at before
      cases before
  · intro r member
    rw [kept.brk]
    rw [List.map_append] at member
    rcases List.mem_append.mp member with old | waits
    · exact owned.allocated r (older r old)
    · obtain ⟨entry, inside, rfl⟩ := List.mem_map.mp waits
      exact (unserved entry inside).live.1

theorem RecordsOwned.add (owned : RecordsOwned mgr pc log hand waiting) {entry : Nat × Request}
    {next : EquipmentMgr} (unserved : Unserved mgr.requests entry)
    (fresh : entry.1 ∉ log.queued.map Prod.fst) (kept : RecordsKept mgr.requests next.requests)
    (queue : Chain next.requests RequestQueueItem.next next.requestQueueList
      ((waiting ++ [entry]).map Prod.fst)) :
    RecordsOwned next pc { log with queued := log.queued ++ [entry] } hand
      (waiting ++ [entry]) := by
  have accounts : log.served ++ hand ++ (waiting ++ [entry]) = log.queued ++ [entry] := by
    simp [owned.accounts]
  rw [← accounts]
  refine owned.requeue kept queue ?_ ?_
  · rw [accounts, List.map_append]
    exact owned.nodup.append (List.nodup_singleton _) (List.disjoint_singleton.mpr fresh)
  · intro other member
    rcases List.mem_append.mp member with old | new
    · exact owned.unserved other (List.mem_append_right _ old)
    · rw [List.mem_singleton.mp new]
      exact unserved

theorem RecordsOwned.dequeue {next : EquipmentMgr} {record : Option Nat}
    (owned : RecordsOwned mgr pc log hand waiting) (idle : pc = .dequeue)
    (fits : TailFits mgr waiting) (done : checkQueueAndGetRequest mgr = .ok (next, record)) :
    ∃ first rest, RecordsOwned next (.unlock record) log first rest ∧ TailFits next rest := by
  have nothing : hand = [] := by
    have taken := owned.taken
    rw [idle] at taken
    exact List.map_eq_nil_iff.mp taken
  subst hand pc
  cases waiting with
  | nil =>
      have empty : mgr.requestQueueList = none := owned.queue
      simp only [checkQueueAndGetRequest, empty] at done
      cases done
      exact ⟨[], [], owned.congr rfl rfl rfl rfl rfl, fits⟩
  | cons entry rest =>
      obtain ⟨head, tail, checked, shorter, reset, last⟩ := checkQueueAndGetRequest_chain owned.queue
      cases checked.symm.trans done
      refine ⟨[entry], rest, ⟨?_, owned.nodup, rfl, owned.answered, owned.closing, shorter, ?_,
        owned.unready, owned.ready, owned.allocated⟩, fits.imp reset last⟩
      · simpa using owned.accounts
      · exact owned.unserved

theorem RecordHolds.request_eq {item : RequestQueueItem} {request : Request}
    (holds : RecordHolds item request) : item.request = request := by
  have read {size : Nat} {buf : Buf size} {text : Text} (ok : buf.cstr = .ok text) :
      Text.ofBytes buf.bytes = text := by
    simp only [Buf.cstr] at ok
    split at ok
    · exact Except.ok.inj ok
    · cases ok
  rw [RequestQueueItem.request, read holds.method, read holds.json, holds.termId]
  cases request with
  | get termId leftover => rfl
  | post text => exact if_neg get_ne_post

theorem RecordsOwned.inHand {r : Nat} (owned : RecordsOwned mgr pc log hand waiting)
    (serving : pc = .serve r) : ∃ request, hand = [(r, request)] := by
  have taken := owned.taken
  rw [serving] at taken
  obtain ⟨⟨record, request⟩, single, same⟩ := List.map_eq_singleton_iff.mp taken
  cases same
  exact ⟨request, single⟩

theorem RecordsOwned.serve {next : EquipmentMgr} {r : Nat} {json : Buf dataSize}
    (owned : RecordsOwned mgr pc log hand waiting) (serving : pc = .serve r)
    (requests : next.requests = mgr.requests.set r { mgr.requests.content r with json })
    (list : next.requestQueueList = mgr.requestQueueList) :
    ∃ request, hand = [(r, request)] ∧ (mgr.requests.content r).request = request ∧
      RecordsOwned next (.setReady r) { log with served := log.served ++ [(r, request)] } []
        waiting := by
  obtain ⟨request, rfl⟩ := owned.inHand serving
  subst pc
  have own := owned.unserved (r, request) (by simp)
  have different : ∀ s ∈ waiting.map Prod.fst, s ≠ r := by
    have nodup := owned.nodup
    rw [owned.accounts, List.append_assoc, List.map_append] at nodup
    have tailNodup := (List.nodup_append.mp nodup).2.1
    simp only [List.singleton_append, List.map_cons, List.nodup_cons] at tailNodup
    intro s member equal
    exact tailNodup.1 (equal ▸ member)
  have kept (s : Nat) (other : s ≠ r) : next.requests.content s = mgr.requests.content s := by
    rw [requests]
    exact Heap.set_content_ne _ _ other
  have live (s : Nat) : next.requests.Live s ↔ mgr.requests.Live s := by
    rw [requests, Heap.live_set]
  refine ⟨request, rfl, own.holds.request_eq, ?_, owned.nodup, rfl, ?_, by simp [MgrPc.closing], ?_,
    ?_, ?_, ?_, ?_⟩
  · simpa using owned.accounts
  · rw [List.map_append, owned.answered]
    simp [MgrPc.answered]
  · rw [list]
    refine owned.queue.congr ?_ ?_
    · intro s member
      exact (live s).mpr (owned.queue.live s member)
    · intro s member
      rw [kept s (different s member)]
  · intro entry member
    have unserved := owned.unserved entry (by simpa using Or.inr member)
    have other := different entry.1 (List.mem_map_of_mem member)
    exact unserved.untouched (Untouched.of_eq (live entry.1).mpr (kept entry.1 other))
  · intro s member
    rw [List.mem_singleton.mp member]
    refine ⟨(live r).mpr own.live, ?_⟩
    rw [requests, Heap.set_content_same]
    exact own.unready
  · intro s member alive ready
    by_cases here : s = r
    · subst here
      rw [requests, Heap.set_content_same] at ready
      rw [own.unready] at ready
      cases ready
    · rw [kept s here] at ready ⊢
      exact owned.ready s member ((live s).mp alive) ready
  · rw [requests]
    exact owned.allocated

theorem RecordsOwned.setReady {r : Nat} (owned : RecordsOwned mgr pc log hand waiting)
    (marking : pc = .setReady r) :
    mgr.requests.Live r ∧ r ∈ log.queued.map Prod.fst ∧
      RecordsOwned { mgr with
          requests := mgr.requests.set r { mgr.requests.content r with isResponseReady := true } }
        (.free r)
        { log with written := log.written ++ [(r, (mgr.requests.content r).json)] } hand waiting := by
  subst pc
  have own := owned.unready r (by simp [MgrPc.answered])
  have served : r ∈ log.written.map Prod.fst ++ MgrPc.answered (.setReady r) := by
    simp [MgrPc.answered]
  let requests := mgr.requests.set r { mgr.requests.content r with isResponseReady := true }
  have kept (s : Nat) (other : s ≠ r) : requests.content s = mgr.requests.content s :=
    Heap.set_content_ne _ _ other
  have different (entry : Nat × Request) (member : entry ∈ hand ++ waiting) : entry.1 ≠ r :=
    owned.served_ne served member
  refine ⟨own.1, owned.written_queued served, owned.accounts, owned.nodup, owned.taken, ?_, ?_, ?_,
    ?_, by simp [MgrPc.answered], ?_, owned.allocated⟩
  · rw [owned.answered]
    simp [MgrPc.answered]
  · intro s member
    rw [List.mem_singleton.mp member]
    exact ⟨own.1, by simp⟩
  · refine owned.queue.congr (fun s member => owned.queue.live s member) ?_
    intro s member
    obtain ⟨entry, inside, rfl⟩ := List.mem_map.mp member
    exact congrArg RequestQueueItem.next
      (kept entry.1 (different entry (List.mem_append_right _ inside)))
  · intro entry member
    have unserved := owned.unserved entry member
    exact unserved.untouched (Untouched.of_eq id (kept entry.1 (different entry member)))
  · intro s member alive ready
    change (s, (requests.content s).json) ∈ _
    change (requests.content s).isResponseReady = true at ready
    by_cases here : s = r
    · subst here
      simp [requests]
    · rw [kept s here] at ready ⊢
      exact List.mem_append_left _ (owned.ready s member alive ready)

theorem RecordsOwned.free {r : Nat} (owned : RecordsOwned mgr pc log hand waiting)
    (closing : pc = .free r) :
    ∃ live : mgr.requests.Live r, r ∈ log.queued.map Prod.fst ∧
      RecordsOwned { mgr with requests := mgr.requests.release r live } .loop log hand waiting := by
  subst pc
  obtain ⟨live, written⟩ := owned.closing r (by simp [MgrPc.closing])
  have served := List.mem_append_left (MgrPc.answered (.free r)) written
  have alive (s : Nat) (other : s ≠ r) (before : mgr.requests.Live s) :
      (mgr.requests.release r live).Live s :=
    (Heap.live_release _ _ _ live).mpr ⟨before, other⟩
  have different (entry : Nat × Request) (member : entry ∈ hand ++ waiting) : entry.1 ≠ r :=
    owned.served_ne served member
  refine ⟨live, owned.written_queued served, owned.accounts, owned.nodup, owned.taken,
    owned.answered, by simp [MgrPc.closing], ?_, ?_, by simp [MgrPc.answered], ?_, owned.allocated⟩
  · refine owned.queue.congr ?_ (fun _ _ => rfl)
    intro s member
    obtain ⟨entry, inside, rfl⟩ := List.mem_map.mp member
    exact alive entry.1 (different entry (List.mem_append_right _ inside))
      (owned.queue.live _ member)
  · intro entry member
    have unserved := owned.unserved entry member
    exact unserved.untouched (Untouched.of_eq (alive entry.1 (different entry member)) rfl)
  · intro s member aliveAfter ready
    exact owned.ready s member ((Heap.live_release _ _ _ live).mp aliveAfter).1 ready

end Records

theorem Log.empty_owned {mgr : EquipmentMgr} {pc : MgrPc} (taken : pc.taken = [])
    (answered : pc.answered = []) (closing : pc.closing = [])
    (queue : mgr.requestQueueList = none) : RecordsOwned mgr pc Log.empty [] [] := by
  refine ⟨rfl, List.nodup_nil, taken.symm, ?_, ?_, queue, by simp, ?_, ?_, ?_⟩
  · rw [answered]
    rfl
  · simp [closing]
  · simp [answered]
  · simp [Log.empty]
  · simp [Log.empty]

end SmartPay
