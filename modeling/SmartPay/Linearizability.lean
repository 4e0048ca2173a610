import SmartPay.Runs

/-!
Histories of an object that many clients use at once. A history is linearizable
when its operations can be put in one order which the sequential object allows
and which respects real time. Such an order is built along a run, each operation
joining it at one step between its invocation and its response.
-/

namespace CLib

open scoped List

/-- What is seen of an operation from outside. -/
inductive Event (ι Op Ret : Type)
  | invoke (id : ι) (op : Op)
  | respond (id : ι) (ret : Ret)
  deriving DecidableEq

def Event.invoked? {ι Op Ret : Type} : Event ι Op Ret → Option ι
  | invoke id _ => some id
  | respond _ _ => none

section Objects

variable {ι Op Ret σ : Type} (object : σ → Op → σ × Ret)

/-- The state of an object after operations that it runs one after the other. -/
def stateAfter (start : σ) (ops : List Op) : σ :=
  ops.foldl (fun state op => (object state op).1) start

def returns : σ → List Op → List Ret
  | _, [] => []
  | state, op :: rest => (object state op).2 :: returns (object state op).1 rest

/-- An order of operations that explains a history: the object returns what it says, every
operation in it was invoked, every response seen is in it, and an operation that was
answered before another one was invoked comes before it. -/
structure LinearizedBy (start : σ) (history : List (Event ι Op Ret))
    (order : List (ι × Op × Ret)) : Prop where
  unique : (history.filterMap Event.invoked?).Nodup
  legal : order.map (fun entry => entry.2.2) =
    returns object start (order.map fun entry => entry.2.1)
  once : (order.map Prod.fst).Nodup
  invoked : ∀ id op ret, (id, op, ret) ∈ order → .invoke id op ∈ history
  answered : ∀ id ret, .respond id ret ∈ history → ∃ op, (id, op, ret) ∈ order
  realTime : ∀ first ret second op, [.respond first ret, .invoke second op] <+ history →
    second ∈ order.map Prod.fst → [first, second] <+ order.map Prod.fst

def Linearizable (start : σ) (history : List (Event ι Op Ret)) : Prop :=
  ∃ order, LinearizedBy object start history order

variable {object} {start : σ} {history : List (Event ι Op Ret)} {order : List (ι × Op × Ret)}

theorem returns_snoc (start : σ) (ops : List Op) (op : Op) :
    returns object start (ops ++ [op]) =
      returns object start ops ++ [(object (stateAfter object start ops) op).2] := by
  induction ops generalizing start with
  | nil => rfl
  | cons first rest ih => simp only [List.cons_append, returns, ih, stateAfter, List.foldl_cons]

theorem pair_sublist_snoc {α : Type} {first second last : α} {items : List α}
    (ordered : [first, second] <+ items ++ [last]) :
    [first, second] <+ items ∨ first ∈ items ∧ second = last := by
  have reversed := ordered.reverse
  simp only [List.reverse_cons, List.reverse_nil, List.nil_append, List.reverse_append,
    List.singleton_append] at reversed
  cases reversed with
  | cons _ later => exact Or.inl (by simpa using later.reverse)
  | cons_cons _ later =>
      exact Or.inr ⟨by simpa using List.singleton_sublist.mp later, rfl⟩

theorem mem_of_pair_sublist {α : Type} {first second : α} {items : List α}
    (ordered : [first, second] <+ items) : first ∈ items ∧ second ∈ items :=
  ⟨ordered.subset (by simp), ordered.subset (by simp)⟩

/-! The rule of linearization points. -/

theorem LinearizedBy.nil : LinearizedBy object start ([] : List (Event ι Op Ret)) [] :=
  ⟨by simp, rfl, by simp, by simp, by simp, by simp⟩

theorem LinearizedBy.invoke {id : ι} (linearized : LinearizedBy object start history order)
    (fresh : id ∉ history.filterMap Event.invoked?) (op : Op) :
    LinearizedBy object start (history ++ [.invoke id op]) order := by
  have absent : id ∉ order.map Prod.fst := by
    intro member
    obtain ⟨⟨_, op, ret⟩, inside, rfl⟩ := List.mem_map.mp member
    exact fresh (List.mem_filterMap.mpr ⟨_, linearized.invoked _ op ret inside, rfl⟩)
  refine ⟨?_, linearized.legal, linearized.once, ?_, ?_, ?_⟩
  · rw [List.filterMap_append]
    exact linearized.unique.append (List.nodup_singleton id) (List.disjoint_singleton.mpr fresh)
  · intro other op ret member
    exact List.mem_append_left _ (linearized.invoked other op ret member)
  · intro other ret member
    exact linearized.answered other ret (by simpa using member)
  · intro first ret second op ordered member
    rcases pair_sublist_snoc ordered with before | ⟨_, last⟩
    · exact linearized.realTime first ret second op before member
    · injection last with same
      exact absurd (same ▸ member) absent

theorem LinearizedBy.point {id : ι} {op : Op} (linearized : LinearizedBy object start history order)
    (invoked : .invoke id op ∈ history) (absent : id ∉ order.map Prod.fst) :
    LinearizedBy object start history
      (order ++ [(id, op,
        (object (stateAfter object start (order.map fun entry => entry.2.1)) op).2)]) := by
  refine ⟨linearized.unique, ?_, ?_, ?_, ?_, ?_⟩
  · rw [List.map_append, linearized.legal, List.map_append, List.map_singleton, List.map_singleton,
      returns_snoc]
  · rw [List.map_append]
    exact linearized.once.append (List.nodup_singleton id) (List.disjoint_singleton.mpr absent)
  · intro other op ret member
    rcases List.mem_append.mp member with old | new
    · exact linearized.invoked other op ret old
    · cases List.mem_singleton.mp new
      exact invoked
  · intro other ret member
    obtain ⟨op, inside⟩ := linearized.answered other ret member
    exact ⟨op, List.mem_append_left _ inside⟩
  · intro first ret second op ordered member
    rw [List.map_append] at member ⊢
    rcases List.mem_append.mp member with old | new
    · exact (linearized.realTime first ret second op ordered old).trans
        (List.sublist_append_left _ _)
    · -- what has been answered is in the order already, so it comes before the new operation
      rw [List.mem_singleton.mp new]
      obtain ⟨firstOp, inside⟩ := linearized.answered first ret (mem_of_pair_sublist ordered).1
      have before : [first] <+ order.map Prod.fst :=
        List.singleton_sublist.mpr (List.mem_map_of_mem inside)
      exact before.append (List.Sublist.refl [id])

theorem LinearizedBy.respond {id : ι} {op : Op} {ret : Ret}
    (linearized : LinearizedBy object start history order) (inside : (id, op, ret) ∈ order) :
    LinearizedBy object start (history ++ [.respond id ret]) order := by
  refine ⟨?_, linearized.legal, linearized.once, ?_, ?_, ?_⟩
  · have same : (history ++ [Event.respond id ret]).filterMap Event.invoked? =
        history.filterMap Event.invoked? := by
      rw [List.filterMap_append]
      exact List.append_nil _
    rw [same]
    exact linearized.unique
  · intro other op ret member
    exact List.mem_append_left _ (linearized.invoked other op ret member)
  · intro other otherRet member
    rcases List.mem_append.mp member with old | new
    · exact linearized.answered other otherRet old
    · cases List.mem_singleton.mp new
      exact ⟨op, inside⟩
  · intro first firstRet second op ordered member
    rcases pair_sublist_snoc ordered with before | ⟨_, last⟩
    · exact linearized.realTime first firstRet second op before member
    · cases last

/-! What an order tells about the operations in it. -/

theorem returns_append (start : σ) (before after : List Op) :
    returns object start (before ++ after) =
      returns object start before ++ returns object (stateAfter object start before) after := by
  induction before generalizing start with
  | nil => rfl
  | cons op rest ih => simp only [List.cons_append, returns, ih, stateAfter, List.foldl_cons]

theorem returns_length (start : σ) (ops : List Op) :
    (returns object start ops).length = ops.length := by
  induction ops generalizing start with
  | nil => rfl
  | cons op rest ih => simp only [returns, List.length_cons, ih]

/-- An operation returns what the object says after the operations before it. -/
theorem LinearizedBy.returned {before after : List (ι × Op × Ret)} {id : ι} {op : Op} {ret : Ret}
    (linearized : LinearizedBy object start history (before ++ (id, op, ret) :: after)) :
    ret = (object (stateAfter object start (before.map fun entry => entry.2.1)) op).2 := by
  have legal := linearized.legal
  simp only [List.map_append, List.map_cons, returns_append, returns] at legal
  exact (List.cons.inj (List.append_inj_right legal (by simp [returns_length]))).1

theorem invoked_unique {events : List (Event ι Op Ret)} {id : ι} {first second : Op}
    (unique : (events.filterMap Event.invoked?).Nodup) (firstIn : .invoke id first ∈ events)
    (secondIn : .invoke id second ∈ events) : first = second := by
  induction events with
  | nil => cases firstIn
  | cons event rest ih =>
      have absent {op : Op} (head : event = .invoke id op) {other : Op}
          (member : .invoke id other ∈ rest) : False := by
        rw [head] at unique
        exact (List.nodup_cons.mp unique).1 (List.mem_filterMap.mpr ⟨_, member, rfl⟩)
      rcases List.mem_cons.mp firstIn with firstHead | firstLater
      · rcases List.mem_cons.mp secondIn with secondHead | secondLater
        · cases firstHead.trans secondHead.symm
          rfl
        · exact (absent firstHead.symm secondLater).elim
      · rcases List.mem_cons.mp secondIn with secondHead | secondLater
        · exact (absent secondHead.symm firstLater).elim
        · refine ih ?_ firstLater secondLater
          exact unique.sublist ((List.sublist_cons_self event rest).filterMap _)

theorem LinearizedBy.placed {id : ι} {op : Op} {ret : Ret}
    (linearized : LinearizedBy object start history order) (asked : .invoke id op ∈ history)
    (answered : .respond id ret ∈ history) : (id, op, ret) ∈ order := by
  obtain ⟨other, inside⟩ := linearized.answered id ret answered
  have invoked := linearized.invoked id other ret inside
  rwa [invoked_unique linearized.unique asked invoked]

theorem LinearizedBy.split {first second : ι × Op × Ret}
    (linearized : LinearizedBy object start history order) (firstIn : first ∈ order)
    (secondIn : second ∈ order) (ordered : [first.1, second.1] <+ order.map Prod.fst) :
    ∃ before between after, order = before ++ first :: (between ++ second :: after) := by
  have same {entry other : ι × Op × Ret} (inside : entry ∈ order) (member : other ∈ order)
      (equal : entry.1 = other.1) : entry = other :=
    List.inj_on_of_nodup_map linearized.once inside member equal
  obtain ⟨front, back, split, inFront, inBack⟩ := List.cons_sublist_iff.mp ordered
  obtain ⟨early, late, rfl, rfl, rfl⟩ := List.map_eq_append_iff.mp split
  obtain ⟨one, oneIn, oneIs⟩ := List.mem_map.mp inFront
  obtain ⟨two, twoIn, twoIs⟩ := List.mem_map.mp (List.singleton_sublist.mp inBack)
  obtain rfl := same (List.mem_append_left _ oneIn) firstIn oneIs
  obtain rfl := same (List.mem_append_right _ twoIn) secondIn twoIs
  obtain ⟨before, rest, rfl⟩ := List.append_of_mem oneIn
  obtain ⟨middle, after, rfl⟩ := List.append_of_mem twoIn
  exact ⟨before, rest ++ middle, after, by simp⟩

/-- An operation that was answered before another one was invoked comes before it. -/
theorem LinearizedBy.later {first second : ι} {firstOp secondOp : Op} {firstRet secondRet : Ret}
    (linearized : LinearizedBy object start history order)
    (asked : .invoke first firstOp ∈ history)
    (ordered : [.respond first firstRet, .invoke second secondOp] <+ history)
    (answered : .respond second secondRet ∈ history) :
    ∃ before between after, order = before ++ (first, firstOp, firstRet) ::
      (between ++ (second, secondOp, secondRet) :: after) := by
  obtain ⟨firstSeen, secondSeen⟩ := mem_of_pair_sublist ordered
  have firstIn := linearized.placed asked firstSeen
  have secondIn := linearized.placed secondSeen answered
  exact linearized.split firstIn secondIn
    (linearized.realTime first firstRet second secondOp ordered (List.mem_map_of_mem secondIn))

end Objects

/-! Histories of runs. -/

section Histories

variable {σ α ε τ : Type}

def historyFrom (step : σ → α → Except ε σ) (observe : σ → α → σ → List τ) :
    σ → List α → List τ
  | _, [] => []
  | state, action :: rest =>
      match step state action with
      | .ok next => observe state action next ++ historyFrom step observe next rest
      | .error _ => []

/-- A run shows what its steps show, up to the first one that cannot be taken. -/
theorem historyFrom_related {step : σ → α → Except ε σ} {observe : σ → α → σ → List τ}
    {allowed : σ → α → Prop} {related : List τ → σ → Prop}
    (follows : ∀ history state action next, related history state → allowed state action →
      step state action = .ok next → related (history ++ observe state action next) next)
    {history : List τ} {state : σ} {actions : List α} (begins : related history state)
    (conditions : Along step allowed state actions) :
    ∃ final, related (history ++ historyFrom step observe state actions) final := by
  induction actions generalizing history state with
  | nil =>
      rw [historyFrom, List.append_nil]
      exact ⟨state, begins⟩
  | cons action rest ih =>
      simp only [historyFrom]
      split
      · rename_i next taken
        rw [← List.append_assoc]
        exact ih (follows history state action next begins conditions.1 taken)
          (conditions.2 next taken)
      · rw [List.append_nil]
        exact ⟨state, begins⟩

/-- Two ways to look at a run show the same, where they agree on every step into a good state and
a good state is only reached from good ones. -/
theorem historyFrom_agree {step : σ → α → Except ε σ} {observe other : σ → α → σ → List τ}
    {good : σ → Prop} (agree : ∀ state action next, step state action = .ok next → good next →
      good state ∧ observe state action next = other state action next)
    {state final : σ} {actions : List α} (reached : runFrom step state actions = .ok final)
    (ends : good final) :
    historyFrom step observe state actions = historyFrom step other state actions := by
  have both : good state ∧
      historyFrom step observe state actions = historyFrom step other state actions := by
    induction actions generalizing state with
    | nil =>
        simp only [runFrom, Except.ok.injEq] at reached
        exact ⟨reached ▸ ends, rfl⟩
    | cons action rest ih =>
        obtain ⟨next, taken, later⟩ := bind_eq_ok.mp reached
        obtain ⟨goodNext, tails⟩ := ih later
        obtain ⟨goodHere, heads⟩ := agree state action next taken goodNext
        refine ⟨goodHere, ?_⟩
        simp only [historyFrom, taken, heads, tails]
  exact both.2

end Histories

end CLib
