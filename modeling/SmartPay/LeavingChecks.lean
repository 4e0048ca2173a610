import SmartPay.ProtocolChecks

/-!
The second loop of `freeNodeList` against the handlers. It walks the queue without
the lock, while records may still be added to it; what it walks stays a list of live
records, and `headReq` is either out of it or its first one.
-/

namespace SmartPay

open CLib

/-- The queue and `headReq` from the release of the terminals to the end of the manager. -/
structure Leaving (p : Process) (nodes : List Nat) : Prop where
  queue : Chain p.mgr.requests RequestQueueItem.next p.mgr.requestQueueList nodes
  queued : ∀ r ∈ nodes, r ∈ p.log.queued.map Prod.fst
  last : ∀ t ∈ nodes, p.mgr.requestQueueTail = some t → nodes.getLast? = some t
  held : ∀ r ∈ p.mgrPc.releasing,
    p.mgr.requests.Live r ∧ r ∈ p.log.queued.map Prod.fst ∧ (r ∈ nodes → nodes.head? = some r)
  unlinked : ∀ r, p.mgrPc = .freeReq (some r) → r ∉ nodes

section Steps

variable {p q : Process} {nodes : List Nat}

theorem Leaving.of_same (leaving : Leaving p nodes) (mgr : q.mgr = p.mgr)
    (log : q.log.queued = p.log.queued) (releasing : q.mgrPc.releasing ⊆ p.mgrPc.releasing)
    (unlinked : ∀ r, q.mgrPc = .freeReq (some r) → r ∉ nodes) : Leaving q nodes := by
  refine ⟨?_, ?_, ?_, ?_, unlinked⟩
  · rw [mgr]
    exact leaving.queue
  · rw [log]
    exact leaving.queued
  · rw [mgr]
    exact leaving.last
  · rw [mgr, log]
    exact fun r member => leaving.held r (releasing member)

theorem Leaving.begin {mgr : EquipmentMgr}
    (queue : Chain p.mgr.requests RequestQueueItem.next p.mgr.requestQueueList nodes)
    (queued : ∀ r ∈ nodes, r ∈ p.log.queued.map Prod.fst)
    (last : ∀ t ∈ nodes, p.mgr.requestQueueTail = some t → nodes.getLast? = some t)
    (freed : freeTerminals p.mgr = .ok mgr) :
    Leaving { p with mgr, mgrPc := .freeReqs p.mgr.requestQueueList } nodes := by
  obtain ⟨requests, list, tail, _⟩ := freeTerminals_frame freed
  refine ⟨?_, queued, ?_, ?_, by simp⟩
  · simp only [requests, list]
    exact queue
  · simp only [tail]
    exact last
  · simp only [MgrPc.releasing, requests, Option.mem_toList]
    intro r head
    have first : nodes.head? = some r := queue.head_eq.trans head
    have inside := List.mem_of_head? first
    exact ⟨queue.live r inside, queued r inside, fun _ => first⟩

/-- What the manager's next step leaves in the queue. -/
def MgrPc.keeps (pc : MgrPc) (nodes : List Nat) : List Nat :=
  match pc with
  | .freeNext _ => nodes.tail
  | _ => nodes

theorem MgrPc.mem_keeps {pc : MgrPc} {r : Nat} (member : r ∈ pc.keeps nodes) : r ∈ nodes := by
  cases pc with
  | freeNext headReq => exact List.mem_of_mem_tail member
  | _ => exact member

/-- A round of the loop takes the first record out of the queue, and then releases `headReq`. -/
theorem Leaving.mgrMove {locals : MgrLocals} (leaving : Leaving p nodes) (ended : p.mgrPc.Ended)
    (move : MgrMove p locals q) :
    Leaving q (p.mgrPc.keeps nodes) ∧ q.mgrPc.Ended ∧
      ∀ r ∈ q.mgrPc.releasing, r ∈ p.mgrPc.releasing ∨ r ∈ nodes := by
  cases move with
  | freeReqsEnd pc empty =>
      rw [pc]
      exact ⟨leaving.of_same rfl rfl (List.nil_subset _) (by simp), trivial,
        fun _ member => absurd member List.not_mem_nil⟩
  | freeReqsMore pc more =>
      rw [pc]
      refine ⟨leaving.of_same rfl rfl ?_ (by simp), trivial, fun _ member => Or.inl member⟩
      rw [pc]
      exact List.Subset.refl _
  | @freeNext headReq r pc list live =>
      obtain ⟨queue, queued, last, held, _⟩ := leaving
      rw [pc] at held
      simp only [pc, MgrPc.keeps]
      cases nodes with
      | nil => cases list.symm.trans queue
      | cons first rest =>
          rw [List.tail_cons]
          obtain ⟨head, _, later⟩ := queue
          cases list.symm.trans head
          have fresh : r ∉ rest := (List.nodup_cons.mp (Chain.nodup ⟨head, live, later⟩)).1
          have apart (s : Nat) (inside : s ∈ MgrPc.releasing (.freeNext headReq)) : s ∉ rest := by
            intro member
            have first := (held s inside).2.2 (List.mem_cons_of_mem _ member)
            cases first
            exact fresh member
          refine ⟨⟨later, fun s member => queued s (List.mem_cons_of_mem _ member), ?_, ?_, ?_⟩,
            trivial, fun _ member => Or.inl member⟩
          · intro t member found
            have final := last t (List.mem_cons_of_mem _ member) found
            rwa [List.getLast?_cons_of_ne_nil (List.ne_nil_of_mem member)] at final
          · intro s inside
            exact ⟨(held s inside).1, (held s inside).2.1, fun member => absurd member (apart s inside)⟩
          · intro s same
            cases same
            exact apart s (by simp [MgrPc.releasing])
  | freeReqNull pc =>
      rw [pc]
      exact ⟨leaving.of_same rfl rfl (List.nil_subset _) (by simp), trivial,
        fun _ member => absurd member List.not_mem_nil⟩
  | @freeReq r pc live =>
      have outside := leaving.unlinked r pc
      rw [pc]
      refine ⟨⟨?_, leaving.queued, leaving.last, by simp [MgrPc.releasing], by simp⟩, trivial,
        fun _ member => absurd member List.not_mem_nil⟩
      refine leaving.queue.congr ?_ fun _ _ => rfl
      intro s member
      refine (Heap.live_release _ _ _ live).mpr ⟨leaving.queue.live s member, ?_⟩
      rintro rfl
      exact outside member
  | freeMove pc =>
      obtain ⟨queue, queued, last, _, _⟩ := leaving
      have head (r : Nat) (member : r ∈ p.mgr.requestQueueList.toList) : nodes.head? = some r :=
        queue.head_eq.trans (Option.mem_toList.mp member)
      rw [pc]
      refine ⟨⟨queue, queued, last, fun r member => ?_, by simp⟩, trivial, fun r member => ?_⟩
      · have inside := List.mem_of_head? (head r member)
        exact ⟨queue.live r inside, queued r inside, fun _ => head r member⟩
      · exact Or.inr (List.mem_of_head? (head r member))
  | signal pc =>
      obtain ⟨queue, queued, last, _, _⟩ := leaving
      rw [pc]
      exact ⟨⟨queue, queued, last, by simp [MgrPc.releasing], by simp⟩, trivial,
        fun _ member => absurd member List.not_mem_nil⟩
  | returning pc =>
      rw [pc]
      exact ⟨leaving.of_same rfl rfl (List.nil_subset _) (by simp), trivial,
        fun _ member => absurd member List.not_mem_nil⟩
  | _ pc => simp [pc, MgrPc.Ended] at ended

theorem mem_queueAfter {tail : Option Nat} {record r : Nat}
    (member : r ∈ queueAfter tail nodes record) : r ∈ nodes ∨ r = record := by
  simp only [queueAfter] at member
  split at member
  · exact Or.inr (List.mem_singleton.mp member)
  · split at member
    · rcases List.mem_append.mp member with old | new
      · exact Or.inl old
      · exact Or.inr (List.mem_singleton.mp new)
    · exact Or.inl member

theorem queueAfter_length (tail : Option Nat) (nodes : List Nat) (record : Nat) :
    (queueAfter tail nodes record).length ≤ nodes.length + 1 := by
  simp only [queueAfter]
  split
  · simp
  · split
    · simp
    · omega

/-- In a queue that is added to, the first record stays the first unless it is overwritten. -/
theorem queueAfter_head {tail : Option Nat} {record r : Nat} (other : r ≠ record)
    (first : r ∈ nodes → nodes.head? = some r)
    (member : r ∈ queueAfter tail nodes record) :
    (queueAfter tail nodes record).head? = some r := by
  cases tail with
  | none => exact absurd (List.mem_singleton.mp member) other
  | some t =>
      by_cases inside : t ∈ nodes
      · simp only [queueAfter, if_pos inside] at member ⊢
        rcases List.mem_append.mp member with old | new
        · rw [List.head?_append, first old]
          rfl
        · exact absurd (List.mem_singleton.mp new) other
      · simp only [queueAfter, if_neg inside] at member ⊢
        exact first member

theorem queueAfter_last {tail : Option Nat} {record : Nat} (fresh : record ∉ nodes)
    (member : record ∈ queueAfter tail nodes record) :
    (queueAfter tail nodes record).getLast? = some record := by
  cases tail with
  | none => rfl
  | some t =>
      by_cases inside : t ∈ nodes
      · simp [queueAfter, inside]
      · simp only [queueAfter, if_neg inside] at member
        exact absurd member fresh

/-- A handler adds one record at most, and only one that was in no list before. -/
theorem Leaving.handlerMove {action : Action} (leaving : Leaving p nodes)
    (owned : HandlersOwned p.mgr.requests p.handlers (p.log.queued.map Prod.fst))
    (move : HandlerMove p action q) :
    ∃ after, Leaving q after ∧ (∀ r ∈ p.log.queued.map Prod.fst, r ∉ nodes → r ∉ after) ∧
      (after.length ≤ nodes.length ∨
        (∃ h, action = .add h) ∧ after.length ≤ nodes.length + 1) := by
  have same (mgr : q.mgr = p.mgr) (log : q.log.queued = p.log.queued)
      (pc : q.mgrPc = p.mgrPc) : ∃ after, Leaving q after ∧
        (∀ r ∈ p.log.queued.map Prod.fst, r ∉ nodes → r ∉ after) ∧
        (after.length ≤ nodes.length ∨
          (∃ h, action = .add h) ∧ after.length ≤ nodes.length + 1) := by
    refine ⟨nodes, leaving.of_same mgr log ?_ ?_, fun _ _ outside => outside,
      Or.inl (Nat.le_refl _)⟩
    · rw [pc]
      exact List.Subset.refl _
    · rw [pc]
      exact leaving.unlinked
  cases move with
  | @create h request item here holds unready =>
      refine ⟨nodes, ⟨leaving.queue.setFresh item, leaving.queued, leaving.last, ?_,
        leaving.unlinked⟩, fun _ _ outside => outside, Or.inl (Nat.le_refl _)⟩
      intro r member
      obtain ⟨live, queued, first⟩ := leaving.held r member
      exact ⟨(p.mgr.requests.live_malloc r).mpr (Or.inl live), queued, first⟩
  | @add h record request mgr here added =>
      obtain ⟨_, fresh⟩ := owned.pending h (record, request) (by rw [here]; rfl)
      have outside : record ∉ nodes := fun member => fresh (leaving.queued record member)
      have kept := addRequestToQueue_kept added
      refine ⟨_, ⟨addRequestToQueue_chain leaving.queue outside leaving.last added, ?_, ?_, ?_, ?_⟩,
        ?_, Or.inr ⟨⟨h, rfl⟩, queueAfter_length _ nodes record⟩⟩
      · intro r member
        rw [List.map_append]
        rcases mem_queueAfter member with old | rfl
        · exact List.mem_append_left _ (leaving.queued r old)
        · simp
      · intro t member found
        have last := addRequestToQueue_tail added
        cases last.symm.trans found
        exact queueAfter_last outside member
      · intro r member
        obtain ⟨live, queued, first⟩ := leaving.held r member
        have other : r ≠ record := fun equal => fresh (equal ▸ queued)
        refine ⟨(kept.untouched r).1 live, ?_, queueAfter_head other first⟩
        rw [List.map_append]
        exact List.mem_append_left _ queued
      · intro r pc member
        have queued := (leaving.held r (by rw [pc]; simp [MgrPc.releasing])).2.1
        rcases mem_queueAfter member with old | rfl
        · exact leaving.unlinked r pc old
        · exact fresh queued
      · intro r queued unlisted member
        rcases mem_queueAfter member with old | rfl
        · exact unlisted old
        · exact fresh queued
  | _ => exact same rfl rfl rfl

theorem Leaving.flag (leaving : Leaving p nodes) (mainPc : MainPc) (flag : Bool) :
    Leaving { p with mainPc, mgr := { p.mgr with sigEqMgrFlag := flag } } nodes :=
  ⟨leaving.queue, leaving.queued, leaving.last, leaving.held, leaving.unlinked⟩

end Steps

end SmartPay
