import SmartPay.Linearizability
import SmartPay.WholeLifeChecks
import SmartPay.ReplyBounds
import SmartPay.ReplyDecoding

/-!
What the clients see. A request is invoked when its record is created and answered
when its reply is copied out of the record; in between, it takes effect when the
manager serves it. Of a record that has been released a handler copies whatever is
there; but for such replies, the history of every run is that of one sequential
service.
-/

namespace SmartPay

open CLib

open scoped List

/-- What a step shows of the sent replies that `counts` lets through. -/
def Process.shows (counts : Process → Nat → Bool) (p : Process) (action : Action) (q : Process) :
    List (Event Nat Request Text) :=
  match action with
  | .create h _ =>
      match q.handlers h with
      | .lock record request => [.invoke record request]
      | _ => []
  | .copy _ _ =>
      ((q.log.sent.drop p.log.sent.length).filter fun entry => counts p entry.1).map
        fun entry => .respond entry.1 entry.2
  | _ => []

/-- What a step shows to the clients: a request created, or a reply sent. -/
def Process.seen : Process → Action → Process → List (Event Nat Request Text) :=
  Process.shows fun _ _ => true

/-- What a step shows without the replies copied from released records. -/
def Process.seenFresh : Process → Action → Process → List (Event Nat Request Text) :=
  Process.shows fun p r => p.mgr.requests.Live r

def history (actions : List Action) : List (Event Nat Request Text) :=
  historyFrom Process.step Process.seen Process.boot actions

def freshHistory (actions : List Action) : List (Event Nat Request Text) :=
  historyFrom Process.step Process.seenFresh Process.boot actions

/-- The requests served, in the order of serving, each with the reply of the service. -/
def Process.order (p : Process) : List (Nat × Request × Text) :=
  (p.log.served.zip (serviceReplies [] p.servedRequests)).map fun entry =>
    (entry.1.1, entry.1.2, entry.2)

theorem serviceReplies_length (texts : List Text) (requests : List Request) :
    (serviceReplies texts requests).length = requests.length := by
  induction requests generalizing texts with
  | nil => rfl
  | cons request rest ih => simp only [serviceReplies, List.length_cons, ih]

theorem stateAfter_service (texts : List Text) (requests : List Request) :
    stateAfter serviceStep texts requests = texts ++ postedTexts requests := by
  induction requests generalizing texts with
  | nil => simp [stateAfter, postedTexts]
  | cons request rest ih =>
      have next : stateAfter serviceStep texts (request :: rest) =
          stateAfter serviceStep (serviceStep texts request).1 rest := rfl
      rw [next, ih, serviceStep_texts, List.append_assoc, postedTexts, postedTexts,
        ← List.filterMap_append]
      rfl

section Orders

variable {p q : Process}

theorem Process.order_lengths (p : Process) :
    p.log.served.length = (serviceReplies [] p.servedRequests).length := by
  rw [serviceReplies_length, Process.servedRequests, List.length_map]

theorem Process.order_records (p : Process) :
    p.order.map Prod.fst = p.log.served.map Prod.fst := by
  have first : (p.log.served.zip (serviceReplies [] p.servedRequests)).map Prod.fst =
      p.log.served := List.map_fst_zip (Nat.le_of_eq p.order_lengths)
  rw [Process.order, List.map_map]
  conv_rhs => rw [← first, List.map_map]
  rfl

theorem Process.order_requests (p : Process) :
    p.order.map (fun entry => entry.2.1) = p.servedRequests := by
  have first : (p.log.served.zip (serviceReplies [] p.servedRequests)).map Prod.fst =
      p.log.served := List.map_fst_zip (Nat.le_of_eq p.order_lengths)
  rw [Process.order, List.map_map]
  conv_rhs => rw [Process.servedRequests, ← first, List.map_map]
  rfl

theorem Process.order_same (served : q.log.served = p.log.served) : q.order = p.order := by
  rw [Process.order, Process.order, Process.servedRequests, Process.servedRequests, served]

theorem Process.order_snoc {entry : Nat × Request}
    (served : q.log.served = p.log.served ++ [entry]) :
    q.order = p.order ++ [(entry.1, entry.2,
      (serviceStep (stateAfter serviceStep [] (p.order.map fun item => item.2.1)) entry.2).2)] := by
  have requests : q.servedRequests = p.servedRequests ++ [entry.2] := by
    rw [Process.servedRequests, served, List.map_append]
    rfl
  rw [Process.order_requests, stateAfter_service, Process.order, Process.order, requests, served,
    serviceReplies_snoc, List.zip_append p.order_lengths, List.map_append]
  rfl

/-- A reply that the manager has written is the reply of the service in its place. -/
theorem Lives.written_order (lives : Lives p) {r : Nat} {json : Buf dataSize}
    (member : (r, json) ∈ p.log.written) :
    ∃ request reply, json.cstr = .ok reply ∧ (r, request, reply) ∈ p.order := by
  obtain ⟨k, below, found⟩ := List.getElem_of_mem member
  have marked := lives.marked
  have lengths := p.order_lengths
  have replies := lives.replies
  obtain ⟨_, related⟩ := List.forall₂_iff_get.mp replies
  have total : p.log.served.length = p.log.written.length + p.mgrPc.answered.length := by
    have same := congrArg List.length marked
    simpa using same
  have served : k < p.log.served.length := by omega
  have record : (p.log.served[k]).1 = r := by
    have same : (p.log.served.map Prod.fst)[k]? =
        (p.log.written.map Prod.fst ++ p.mgrPc.answered)[k]? := by rw [marked]
    rw [List.getElem?_append_left (by simpa using below)] at same
    simpa [served, below, found] using same
  have answer : k < p.answers.length := by
    simp only [Process.answers, List.length_append, List.length_map]
    omega
  have reads : (p.answers.get ⟨k, answer⟩) = json := by
    simp [Process.answers, List.getElem_append_left, below, found]
  have replied : k < (serviceReplies [] p.servedRequests).length := by omega
  have text := related k answer replied
  rw [reads] at text
  have paired : (p.log.served[k], (serviceReplies [] p.servedRequests)[k]) ∈
      p.log.served.zip (serviceReplies [] p.servedRequests) :=
    List.mem_iff_getElem.mpr ⟨k, by simpa using ⟨served, replied⟩, List.getElem_zip⟩
  refine ⟨(p.log.served[k]).2, _, text, List.mem_map.mpr ⟨_, paired, ?_⟩⟩
  rw [← record]
  rfl

end Orders

/-! The history of a run. -/

/-- The history so far is explained by the order of serving, and has the records in it. -/
structure Explained (past : List (Event Nat Request Text)) (p : Process) : Prop where
  lives : Lives p
  linearized : LinearizedBy serviceStep [] past p.order
  known : ∀ r ∈ past.filterMap Event.invoked?, r ∈ p.log.queued.map Prod.fst ∨
    ∃ h request, (p.handlers h).pending = some (r, request)
  created : ∀ h entry, (p.handlers h).pending = some entry → .invoke entry.1 entry.2 ∈ past
  queued : ∀ entry ∈ p.log.queued, .invoke entry.1 entry.2 ∈ past

section Steps

variable {p q : Process} {past : List (Event Nat Request Text)}

theorem Explained.fresh (explained : Explained past p) :
    p.mgr.requests.brk ∉ past.filterMap Event.invoked? := by
  intro member
  have accounted := explained.lives.accounted
  rcases explained.known _ member with queued | ⟨h, request, pending⟩
  · exact Nat.lt_irrefl _ (accounted.allocated _ queued)
  · exact Nat.lt_irrefl _ (accounted.handlers.pending h _ pending).1.live.1

/-- Serving is where a request joins the order. -/
theorem Explained.mgrMove {locals : MgrLocals} (explained : Explained past p)
    (move : MgrMove p locals q) : Explained past q := by
  have lives := explained.lives.mgrMove move
  have outside := move.outside
  obtain ⟨_, linearized, known, created, queued⟩ := explained
  have order : LinearizedBy serviceStep [] past q.order := by
    have grown : q.log.served = p.log.served ∨ ∃ entry, q.log.served = p.log.served ++ [entry] := by
      cases move with
      | serve pc handled => exact Or.inr ⟨_, rfl⟩
      | _ => exact Or.inl rfl
    rcases grown with same | ⟨entry, more⟩
    · rw [p.order_same same]
      exact linearized
    · have inside : entry ∈ q.log.queued := lives.accounted.order.subset (by simp [more])
      rw [outside.queued] at inside
      have once := (lives.accounted.order.map Prod.fst).nodup lives.accounted.once
      rw [more, List.map_append] at once
      have absent : entry.1 ∉ p.order.map Prod.fst := by
        rw [Process.order_records]
        exact List.disjoint_singleton.mp (List.disjoint_of_nodup_append once)
      rw [Process.order_snoc more]
      exact linearized.point (queued entry inside) absent
  refine ⟨lives, order, ?_, ?_, ?_⟩
  · rw [outside.queued, move.handlers]
    exact known
  · rw [move.handlers]
    exact created
  · rw [outside.queued]
    exact queued

theorem Explained.mainMove (explained : Explained past p) (move : MainMove p q) :
    Explained past q := by
  have lives := explained.lives.mainMove move
  obtain ⟨_, linearized, known, created, queued⟩ := explained
  cases move with
  | startDaemon pc => exact ⟨lives, linearized, known, created, queued⟩
  | createThread pc => exact ⟨lives, linearized, known, created, queued⟩
  | getchar pc => exact ⟨lives, linearized, known, created, queued⟩
  | later late => exact ⟨lives, linearized, known, created, queued⟩

/-- A handler's step shows an invocation, a response, or nothing. -/
inductive Shows (p q : Process) : List (Event Nat Request Text) → Prop
  | invoke {h : Nat} {request : Request}
      (pending : (q.handlers h).pending = some (p.mgr.requests.brk, request))
      (others : ∀ k, k ≠ h → q.handlers k = p.handlers k) (idle : (p.handlers h).pending = none)
      (queued : q.log.queued = p.log.queued) : Shows p q [.invoke p.mgr.requests.brk request]
  | respond {r : Nat} {json : Buf dataSize} {reply : Text} (written : (r, json) ∈ p.log.written)
      (read : json.cstr = .ok reply) (pending : ∀ k, (q.handlers k).pending = (p.handlers k).pending)
      (queued : q.log.queued = p.log.queued) : Shows p q [.respond r reply]
  | add {h : Nat} {entry : Nat × Request} (pending : (p.handlers h).pending = some entry)
      (others : ∀ k, k ≠ h → q.handlers k = p.handlers k) (moved : (q.handlers h).pending = none)
      (queued : q.log.queued = p.log.queued ++ [entry]) : Shows p q []
  | nothing (pending : ∀ k, (q.handlers k).pending = (p.handlers k).pending)
      (queued : q.log.queued = p.log.queued) : Shows p q []

theorem pending_setHandler {h : Nat} {pc : HandlerPc} (same : pc.pending = (p.handlers h).pending)
    (k : Nat) : (p.setHandler h pc k).pending = (p.handlers k).pending := by
  by_cases here : k = h
  · rw [here, Process.setHandler, Function.update_self, same]
  · rw [Process.setHandler, Function.update_of_ne here]

theorem HandlerMove.shows {action : Action} (accounted : Accounted p)
    (move : HandlerMove p action q) : Shows p q (p.seenFresh action q) := by
  have others {h : Nat} {pc : HandlerPc} (k : Nat) (different : k ≠ h) :
      p.setHandler h pc k = p.handlers k := Function.update_of_ne different ..
  cases move with
  | @create h request item here holds unready =>
      have own : p.setHandler h (.lock p.mgr.requests.brk request) h =
          .lock p.mgr.requests.brk request := Function.update_self ..
      simp only [Process.seenFresh, Process.shows, own]
      exact Shows.invoke (congrArg HandlerPc.pending own) others (by rw [here]; rfl) rfl
  | @lock h record request here free =>
      exact Shows.nothing (pending_setHandler (by rw [here]; rfl)) rfl
  | @add h record request mgr here added =>
      refine Shows.add (h := h) (by rw [here]; rfl) others ?_ rfl
      exact congrArg HandlerPc.pending (Function.update_self h (.unlock record) p.handlers)
  | unlock here => exact Shows.nothing (pending_setHandler (by rw [here]; rfl)) rfl
  | testReady here live ready => exact Shows.nothing (pending_setHandler (by rw [here]; rfl)) rfl
  | testAgain here live => exact Shows.nothing (fun _ => rfl) rfl
  | testStale here dead => exact Shows.nothing (pending_setHandler (by rw [here]; rfl)) rfl
  | testStaleAgain here dead => exact Shows.nothing (fun _ => rfl) rfl
  | @copy h record junk json here live read =>
      have member := accounted.handlers.awaited h record (by rw [here]; rfl)
      have written := accounted.ready record member live
        (accounted.handlers.copying h record here live)
      simp only [Process.seenFresh, Process.shows, List.drop_left', List.filter_cons, live,
        decide_true, if_true, List.filter_nil, List.map_cons, List.map_nil]
      exact Shows.respond written read (pending_setHandler (by rw [here]; rfl)) rfl
  | copyStale here dead =>
      simp only [Process.seenFresh, Process.shows, List.drop_left', List.filter_cons, dead, decide_false,
        Bool.false_eq_true, if_false, List.filter_nil, List.map_nil]
      exact Shows.nothing (pending_setHandler (by rw [here]; rfl)) rfl

theorem Explained.shown {shown : List (Event Nat Request Text)} (explained : Explained past p)
    (lives : Lives q) (served : q.log.served = p.log.served) (shows : Shows p q shown) :
    Explained (past ++ shown) q := by
  have fresh := explained.fresh
  obtain ⟨before, linearized, known, created, queued⟩ := explained
  have order := p.order_same served
  cases shows with
  | @invoke h request pending others idle same =>
      refine ⟨lives, ?_, ?_, ?_, ?_⟩
      · rw [order]
        exact linearized.invoke fresh request
      · intro r member
        rw [List.filterMap_append] at member
        rcases List.mem_append.mp member with old | new
        · rcases known r old with inQueue | ⟨k, other, found⟩
          · exact Or.inl (same ▸ inQueue)
          · have different : k ≠ h := by
              rintro rfl
              rw [idle] at found
              cases found
            exact Or.inr ⟨k, other, by rw [others k different, found]⟩
        · rw [List.mem_singleton.mp new]
          exact Or.inr ⟨h, request, pending⟩
      · intro k entry found
        by_cases here : k = h
        · rw [here, pending] at found
          cases found
          simp
        · rw [others k here] at found
          exact List.mem_append_left _ (created k entry found)
      · rw [same]
        exact fun entry member => List.mem_append_left _ (queued entry member)
  | respond written read pending same =>
      obtain ⟨request, reply, text, inside⟩ := before.written_order written
      cases text.symm.trans read
      refine ⟨lives, ?_, ?_, ?_, ?_⟩
      · rw [order]
        exact linearized.respond inside
      · intro r member
        rw [List.filterMap_append] at member
        simp only [pending, same]
        exact known r (by simpa [Event.invoked?] using member)
      · simp only [pending]
        exact fun k entry found => List.mem_append_left _ (created k entry found)
      · rw [same]
        exact fun entry member => List.mem_append_left _ (queued entry member)
  | @add h entry pending others moved grown =>
      rw [List.append_nil]
      refine ⟨lives, by rwa [order], ?_, ?_, ?_⟩
      · intro r member
        rw [grown, List.map_append]
        rcases known r member with inQueue | ⟨k, other, found⟩
        · exact Or.inl (List.mem_append_left _ inQueue)
        · by_cases here : k = h
          · rw [here, pending] at found
            cases found
            exact Or.inl (by simp)
          · exact Or.inr ⟨k, other, by rw [others k here, found]⟩
      · intro k other found
        by_cases here : k = h
        · rw [here, moved] at found
          cases found
        · rw [others k here] at found
          exact created k other found
      · rw [grown]
        intro other member
        rcases List.mem_append.mp member with old | new
        · exact queued other old
        · rw [List.mem_singleton.mp new]
          exact created h entry pending
  | nothing pending same =>
      rw [List.append_nil]
      refine ⟨lives, by rwa [order], ?_, ?_, ?_⟩
      · simp only [pending, same]
        exact known
      · simp only [pending]
        exact created
      · rw [same]
        exact queued

theorem Explained.step {action : Action} (explained : Explained past p)
    (done : p.step action = .ok q) : Explained (past ++ p.seenFresh action q) q := by
  cases action with
  | main =>
      simp only [Process.seenFresh, Process.shows, List.append_nil]
      exact explained.mainMove (mainStep_moves done)
  | mgr locals =>
      simp only [Process.seenFresh, Process.shows, List.append_nil]
      exact explained.mgrMove (mgrStep_moves done)
  | _ =>
      have move := handlerStep_moves (by simp [Action.handler]) done
      exact explained.shown (explained.lives.handlerMove move) move.aside.served
        (move.shows explained.lives.accounted)

end Steps

theorem Explained.boot : Explained [] Process.boot :=
  ⟨Lives.boot, LinearizedBy.nil, by simp, by simp [Process.boot, HandlerPc.pending],
    by simp [Process.boot, Log.empty]⟩

theorem explained_history (actions : List Action) : ∃ final, Explained (freshHistory actions) final := by
  have follows (past : List (Event Nat Request Text)) (p : Process) (action : Action) (q : Process)
      (explained : Explained past p) (_ : True) (done : p.step action = .ok q) :
      Explained (past ++ p.seenFresh action q) q := explained.step done
  exact historyFrom_related follows Explained.boot along_true

theorem HandlerMove.seen {p q : Process} {action : Action} (move : HandlerMove p action q)
    (fresh : q.log.stale = []) :
    p.log.stale = [] ∧ p.seen action q = p.seenFresh action q := by
  cases move with
  | testStale here dead => simp at fresh
  | testStaleAgain here dead => simp at fresh
  | copyStale here dead => simp at fresh
  | copy here live read =>
      exact ⟨fresh, by simp [Process.seen, Process.seenFresh, Process.shows, live]⟩
  | _ => exact ⟨fresh, rfl⟩

theorem step_seen {p q : Process} {action : Action} (done : p.step action = .ok q)
    (fresh : q.log.stale = []) :
    p.log.stale = [] ∧ p.seen action q = p.seenFresh action q := by
  cases action with
  | main =>
      have move := mainStep_moves done
      cases move <;> exact ⟨fresh, rfl⟩
  | mgr locals => exact ⟨(mgrStep_moves done).outside.stale.symm.trans fresh, rfl⟩
  | _ => exact (handlerStep_moves (by simp [Action.handler]) done).seen fresh

/-- While no handler reads a released record, the clients see fresh replies only. -/
theorem history_fresh {actions : List Action} {q : Process}
    (reached : runFrom Process.step Process.boot actions = .ok q) (fresh : q.log.stale = []) :
    history actions = freshHistory actions :=
  historyFrom_agree (fun _ _ _ => step_seen) reached fresh

/-- Whatever the threads do and in whatever order, from the start of the process to its end,
what the clients see of live records is what one sequential service would show them. -/
theorem history_linearizable (actions : List Action) :
    Linearizable serviceStep [] (freshHistory actions) ∧
      ∀ q, runFrom Process.step Process.boot actions = .ok q → q.log.stale = [] →
        history actions = freshHistory actions := by
  obtain ⟨final, explained⟩ := explained_history actions
  exact ⟨⟨final.order, explained.linearized⟩, fun _ reached fresh => history_fresh reached fresh⟩

end SmartPay
