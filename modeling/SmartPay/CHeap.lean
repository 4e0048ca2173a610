import SmartPay.CText
import SmartPay.Runs

/-!
A heap of cells whose initial contents are arbitrary, and singly linked lists
with a head and a tail pointer on it. An address is never handed out twice, so
an access to a released cell is always visible as a fault.
-/

namespace CLib

structure Heap (α : Type) where
  content : Nat → α
  brk : Nat
  freed : List Nat
  freed_lt : ∀ p ∈ freed, p < brk

namespace Heap

variable {α : Type}

def blank (value : α) : Heap α := ⟨fun _ => value, 0, [], by simp⟩

def Live (heap : Heap α) (p : Nat) : Prop := p < heap.brk ∧ p ∉ heap.freed

instance (heap : Heap α) (p : Nat) : Decidable (heap.Live p) :=
  inferInstanceAs (Decidable (_ ∧ _))

def malloc (heap : Heap α) : Heap α × Nat :=
  ({ heap with
      brk := heap.brk + 1
      freed_lt := fun p member => Nat.lt_succ_of_lt (heap.freed_lt p member) }, heap.brk)

def set (heap : Heap α) (p : Nat) (value : α) : Heap α :=
  { heap with content := Function.update heap.content p value }

def release (heap : Heap α) (p : Nat) (live : heap.Live p) : Heap α :=
  { heap with
    freed := heap.freed ++ [p]
    freed_lt := by
      intro q member
      rcases List.mem_append.mp member with old | new
      · exact heap.freed_lt q old
      · rw [List.mem_singleton.mp new]
        exact live.1 }

def load (heap : Heap α) (p : Nat) : Except Fault α :=
  if heap.Live p then .ok (heap.content p) else .error .useAfterFree

def store (heap : Heap α) (p : Nat) (value : α) : Except Fault (Heap α) :=
  if heap.Live p then .ok (heap.set p value) else .error .useAfterFree

def free (heap : Heap α) : Option Nat → Except Fault (Heap α)
  | none => .ok heap
  | some p => if live : heap.Live p then .ok (heap.release p live) else .error .useAfterFree

theorem load_ok {heap : Heap α} {p : Nat} (live : heap.Live p) :
    heap.load p = .ok (heap.content p) := if_pos live

theorem load_eq_ok {heap : Heap α} {p : Nat} {value : α} (loaded : heap.load p = .ok value) :
    heap.Live p ∧ heap.content p = value := by
  simp only [load] at loaded
  split at loaded
  · rename_i live
    exact ⟨live, by simpa using loaded⟩
  · simp at loaded

theorem store_ok {heap : Heap α} {p : Nat} {value : α} (live : heap.Live p) :
    heap.store p value = .ok (heap.set p value) := if_pos live

theorem store_eq_ok {heap stored : Heap α} {p : Nat} {value : α}
    (done : heap.store p value = .ok stored) : heap.Live p ∧ heap.set p value = stored := by
  simp only [store] at done
  split at done
  · rename_i live
    exact ⟨live, by simpa using done⟩
  · simp at done

theorem free_ok {heap : Heap α} {p : Nat} (live : heap.Live p) :
    heap.free (some p) = .ok (heap.release p live) := dif_pos live

theorem free_eq_ok {heap freed : Heap α} {p : Nat} (done : heap.free (some p) = .ok freed) :
    ∃ live : heap.Live p, heap.release p live = freed := by
  simp only [free] at done
  split at done
  · rename_i live
    exact ⟨live, by simpa using done⟩
  · simp at done

@[simp] theorem set_content_same (heap : Heap α) (p : Nat) (value : α) :
    (heap.set p value).content p = value := Function.update_self ..

theorem set_content_ne (heap : Heap α) {p q : Nat} (value : α) (different : q ≠ p) :
    (heap.set p value).content q = heap.content q := Function.update_of_ne different ..

@[simp] theorem set_set (heap : Heap α) (p : Nat) (first second : α) :
    (heap.set p first).set p second = heap.set p second := by
  simp [set]

@[simp] theorem live_set (heap : Heap α) (p q : Nat) (value : α) :
    (heap.set p value).Live q ↔ heap.Live q := Iff.rfl

@[simp] theorem malloc_content (heap : Heap α) : heap.malloc.1.content = heap.content := rfl

@[simp] theorem malloc_address (heap : Heap α) : heap.malloc.2 = heap.brk := rfl

theorem live_malloc (heap : Heap α) (p : Nat) :
    heap.malloc.1.Live p ↔ heap.Live p ∨ p = heap.brk := by
  have fresh : heap.brk ∉ heap.freed := fun member => Nat.lt_irrefl _ (heap.freed_lt _ member)
  change p < heap.brk + 1 ∧ p ∉ heap.freed ↔ (p < heap.brk ∧ p ∉ heap.freed) ∨ p = heap.brk
  constructor
  · rintro ⟨below, kept⟩
    by_cases last : p = heap.brk
    · exact Or.inr last
    · exact Or.inl ⟨by omega, kept⟩
  · rintro (⟨below, kept⟩ | rfl)
    · exact ⟨by omega, kept⟩
    · exact ⟨by omega, fresh⟩

theorem Live.ne_brk {heap : Heap α} {p : Nat} (live : heap.Live p) : p ≠ heap.brk :=
  Nat.ne_of_lt live.1

@[simp] theorem release_content (heap : Heap α) (p : Nat) (live : heap.Live p) :
    (heap.release p live).content = heap.content := rfl

theorem live_release (heap : Heap α) (p q : Nat) (live : heap.Live p) :
    (heap.release p live).Live q ↔ heap.Live q ∧ q ≠ p := by
  change q < heap.brk ∧ q ∉ heap.freed ++ [p] ↔ (q < heap.brk ∧ q ∉ heap.freed) ∧ q ≠ p
  simp only [List.mem_append, List.mem_singleton, not_or]
  exact and_assoc.symm

end Heap

/-! Writes to one field. -/

section Fields

variable {α β : Type}

/-- Two heaps whose cells differ at most in the field that `put` writes. -/
structure FieldOnly (put : β → α → α) (before after : Heap α) : Prop where
  brk : after.brk = before.brk
  freed : after.freed = before.freed
  data : ∀ q, ∃ value, after.content q = put value (before.content q)

variable {put : β → α → α} {before after : Heap α}

theorem FieldOnly.live (only : FieldOnly put before after) (q : Nat) :
    after.Live q ↔ before.Live q := by
  rw [Heap.Live, Heap.Live, only.brk, only.freed]

theorem FieldOnly.keeps {γ : Type} (only : FieldOnly put before after) (field : α → γ)
    (blind : ∀ value x, field (put value x) = field x) (q : Nat) :
    field (after.content q) = field (before.content q) := by
  obtain ⟨value, same⟩ := only.data q
  rw [same, blind]

theorem FieldOnly.trans {last : Heap α} (first : FieldOnly put before after)
    (second : FieldOnly put after last) (absorbs : ∀ a b x, put a (put b x) = put a x) :
    FieldOnly put before last := by
  refine ⟨second.brk.trans first.brk, second.freed.trans first.freed, ?_⟩
  intro q
  obtain ⟨old, same⟩ := first.data q
  obtain ⟨new, final⟩ := second.data q
  exact ⟨new, by rw [final, same, absorbs]⟩

theorem FieldOnly.set (get : α → β) (same : ∀ x, put (get x) x = x) (heap : Heap α) (p : Nat)
    (value : β) : FieldOnly put heap (heap.set p (put value (heap.content p))) := by
  refine ⟨rfl, rfl, ?_⟩
  intro q
  by_cases here : q = p
  · subst q
    exact ⟨value, Heap.set_content_same ..⟩
  · exact ⟨get (heap.content q), by rw [Heap.set_content_ne _ _ here, same]⟩

end Fields

/-! Lists of live cells, followed through a `next` field up to NULL. -/

section Chains

variable {α : Type} (heap : Heap α) (next : α → Option Nat)

def Chain : Option Nat → List Nat → Prop
  | start, [] => start = none
  | start, p :: rest => start = some p ∧ heap.Live p ∧ Chain (next (heap.content p)) rest

/-- A list with a head pointer, and a tail pointer at its last node. -/
structure Linked (head tail : Option Nat) (nodes : List Nat) : Prop where
  chain : Chain heap next head nodes
  last : tail = nodes.getLast?

variable {heap next}

theorem Chain.head_eq {start : Option Nat} {nodes : List Nat}
    (chain : Chain heap next start nodes) : nodes.head? = start := by
  cases nodes with
  | nil => exact (show start = none from chain).symm
  | cons p rest => exact chain.1.symm

theorem Chain.of_none {nodes : List Nat} (chain : Chain heap next none nodes) : nodes = [] := by
  cases nodes with
  | nil => rfl
  | cons p rest => cases chain.1

theorem Chain.live {start : Option Nat} {nodes : List Nat} (chain : Chain heap next start nodes) :
    ∀ p ∈ nodes, heap.Live p := by
  induction nodes generalizing start with
  | nil => simp
  | cons p rest ih =>
      obtain ⟨_, live, tail⟩ := chain
      intro q member
      rcases List.mem_cons.mp member with same | later
      · rw [same]
        exact live
      · exact ih tail q later

theorem Chain.unique {start : Option Nat} {nodes others : List Nat}
    (chain : Chain heap next start nodes) (other : Chain heap next start others) :
    nodes = others := by
  induction nodes generalizing start others with
  | nil =>
      cases others with
      | nil => rfl
      | cons q rest =>
          have empty : start = none := chain
          have head := other.1
          rw [empty] at head
          cases head
  | cons p rest ih =>
      obtain ⟨rfl, _, tail⟩ := chain
      cases others with
      | nil => cases (show some p = none from other)
      | cons q later =>
          obtain ⟨same, _, otherTail⟩ := other
          simp only [Option.some.injEq] at same
          subst q
          rw [ih tail otherTail]

theorem Chain.suffix {start : Option Nat} (before : List Nat) {after : List Nat} {p : Nat}
    (chain : Chain heap next start (before ++ p :: after)) :
    Chain heap next (some p) (p :: after) := by
  induction before generalizing start with
  | nil =>
      obtain ⟨_, live, tail⟩ := chain
      exact ⟨rfl, live, tail⟩
  | cons q rest ih => exact ih chain.2.2

theorem Chain.nodup {start : Option Nat} {nodes : List Nat}
    (chain : Chain heap next start nodes) : nodes.Nodup := by
  induction nodes generalizing start with
  | nil => simp
  | cons p rest ih =>
      refine List.nodup_cons.mpr ⟨?_, ih chain.2.2⟩
      intro again
      obtain ⟨before, after, split⟩ := List.append_of_mem again
      have whole : Chain heap next (some p) (p :: rest) := ⟨rfl, chain.2⟩
      have later : Chain heap next (some p) (p :: after) := by
        rw [split] at whole
        exact Chain.suffix (p :: before) whole
      have same := congrArg List.length (whole.unique later)
      rw [split] at same
      simp at same
      omega

theorem Chain.length_le {start : Option Nat} {nodes : List Nat}
    (chain : Chain heap next start nodes) : nodes.length ≤ heap.brk := by
  have inside : nodes ⊆ List.range heap.brk := fun p member =>
    List.mem_range.mpr (chain.live p member).1
  simpa using (List.subperm_of_subset chain.nodup inside).length_le

/-- Only the liveness and the `next` fields of its own nodes matter to a chain. -/
theorem Chain.congr {other : Heap α} {start : Option Nat} {nodes : List Nat}
    (chain : Chain heap next start nodes)
    (live : ∀ p ∈ nodes, other.Live p)
    (same : ∀ p ∈ nodes, next (other.content p) = next (heap.content p)) :
    Chain other next start nodes := by
  induction nodes generalizing start with
  | nil => exact chain
  | cons p rest ih =>
      obtain ⟨head, _, tail⟩ := chain
      refine ⟨head, live p (by simp), ?_⟩
      rw [same p (by simp)]
      exact ih tail (fun q member => live q (by simp [member]))
        (fun q member => same q (by simp [member]))

theorem Chain.setFresh {start : Option Nat} {nodes : List Nat}
    (chain : Chain heap next start nodes) (value : α) :
    Chain (heap.malloc.1.set heap.brk value) next start nodes := by
  refine chain.congr ?_ ?_
  · intro p member
    exact (heap.live_malloc p).mpr (Or.inl (chain.live p member))
  · intro p member
    exact congrArg next (Heap.set_content_ne _ _ (chain.live p member).ne_brk)

theorem Chain.snoc {start : Option Nat} {nodes : List Nat} {last p : Nat} {other : Heap α}
    (chain : Chain heap next start (nodes ++ [last]))
    (live : ∀ q ∈ nodes ++ [last], other.Live q)
    (same : ∀ q ∈ nodes, next (other.content q) = next (heap.content q))
    (linked : next (other.content last) = some p)
    (added : Chain other next (some p) [p]) :
    Chain other next start (nodes ++ [last] ++ [p]) := by
  induction nodes generalizing start with
  | nil =>
      refine ⟨chain.1, live last (by simp), ?_⟩
      rw [linked]
      exact added
  | cons q rest ih =>
      obtain ⟨head, _, tail⟩ := chain
      refine ⟨head, live q (by simp), ?_⟩
      rw [same q (by simp)]
      exact ih tail (fun r member => live r (List.mem_cons_of_mem q member))
        (fun r member => same r (List.mem_cons_of_mem q member))

theorem Linked.nodup {head tail : Option Nat} {nodes : List Nat}
    (list : Linked heap next head tail nodes) : nodes.Nodup := list.chain.nodup

theorem Linked.empty : Linked heap next none none [] := ⟨rfl, rfl⟩

theorem Linked.head_eq {head tail : Option Nat} {nodes : List Nat}
    (list : Linked heap next head tail nodes) : head = nodes.head? := list.chain.head_eq.symm

theorem Linked.tail_none_iff {head tail : Option Nat} {nodes : List Nat}
    (list : Linked heap next head tail nodes) : tail = none ↔ nodes = [] := by
  rw [list.last, List.getLast?_eq_none_iff]

theorem Linked.head_none_iff {head tail : Option Nat} {nodes : List Nat}
    (list : Linked heap next head tail nodes) : head = none ↔ nodes = [] := by
  rw [list.head_eq, List.head?_eq_none_iff]

theorem Linked.congr {other : Heap α} {head tail : Option Nat} {nodes : List Nat}
    (list : Linked heap next head tail nodes)
    (live : ∀ p ∈ nodes, other.Live p)
    (same : ∀ p ∈ nodes, next (other.content p) = next (heap.content p)) :
    Linked other next head tail nodes :=
  ⟨list.chain.congr live same, list.last⟩

theorem Linked.setFresh {head tail : Option Nat} {nodes : List Nat}
    (list : Linked heap next head tail nodes) (value : α) :
    Linked (heap.malloc.1.set heap.brk value) next head tail nodes :=
  ⟨list.chain.setFresh value, list.last⟩

theorem Linked.first {head : Option Nat} {nodes : List Nat} {p : Nat} {value : α}
    (list : Linked heap next head none nodes) (live : heap.Live p)
    (ends : next value = none) :
    Linked (heap.set p value) next (some p) (some p) (nodes ++ [p]) := by
  rw [list.tail_none_iff.mp rfl]
  refine ⟨⟨rfl, live, ?_⟩, rfl⟩
  rw [Heap.set_content_same]
  exact ends

theorem Linked.append {head : Option Nat} {nodes : List Nat} {tail p : Nat} {value before : α}
    (list : Linked heap next head (some tail) nodes) (live : heap.Live p) (fresh : p ∉ nodes)
    (ends : next value = none) (links : next before = some p) :
    Linked ((heap.set p value).set tail before) next head (some p) (nodes ++ [p]) := by
  obtain ⟨front, rfl⟩ : ∃ front, nodes = front ++ [tail] :=
    List.getLast?_eq_some_iff.mp list.last.symm
  have distinct := list.nodup
  simp only [List.nodup_append, List.mem_singleton, forall_eq] at distinct
  have different : p ≠ tail := fun equal => fresh (by simp [equal])
  refine ⟨list.chain.snoc (fun q member => list.chain.live q member) ?_ ?_ ?_, by simp⟩
  · intro q member
    have notTail : q ≠ tail := distinct.2.2 q member
    have notNew : q ≠ p := fun equal => fresh (by simp [← equal, member])
    rw [Heap.set_content_ne _ _ notTail, Heap.set_content_ne _ _ notNew]
  · simpa using links
  · refine ⟨rfl, live, ?_⟩
    rw [Heap.set_content_ne _ _ different, Heap.set_content_same]
    exact ends

theorem Linked.drop {head tail : Option Nat} {nodes : List Nat} {p : Nat}
    (list : Linked heap next head tail (p :: nodes)) :
    Linked heap next (next (heap.content p))
      (if head = tail then next (heap.content p) else tail) nodes := by
  obtain ⟨rfl, live, rest⟩ := list.chain
  refine ⟨rest, ?_⟩
  have last := list.last
  have unique := list.nodup
  cases nodes with
  | nil =>
      have single : some p = tail := by simpa using last.symm
      rw [if_pos single]
      exact rest
  | cons q later =>
      have different : ¬some p = tail := by
        intro equal
        rw [last] at equal
        have member := List.mem_of_getLast? equal.symm
        rw [List.getLast?_cons_cons] at equal
        exact (List.nodup_cons.mp unique).1 (List.mem_of_getLast? equal.symm)
      rw [if_neg different, last, List.getLast?_cons_cons]

end Chains

/-! Releasing a list node by node. -/

section Freeing

variable {α : Type} (next : α → Option Nat)

/-- The loop `while (list != NULL) { list = list->next; free(head); head = list; }`. Each round
releases a cell, so more rounds than cells were ever allocated cannot happen. -/
def freeFrom : Nat → Heap α → Option Nat → Option Nat → Except Fault (Heap α × Option Nat)
  | _, heap, none, _ => .ok (heap, none)
  | 0, _, some _, _ => .error .diverge
  | fuel + 1, heap, some list, head => do
      let node ← heap.load list
      let heap ← heap.free head
      freeFrom fuel heap (next node) (next node)

variable {next}

theorem freeFrom_chain {heap : Heap α} {start : Option Nat} {nodes : List Nat} {fuel : Nat}
    (chain : Chain heap next start nodes) (enough : nodes.length ≤ fuel) :
    ∃ freed, freeFrom next fuel heap start start = .ok (freed, none) ∧
      freed.content = heap.content ∧ freed.brk = heap.brk ∧
      freed.freed = heap.freed ++ nodes := by
  induction nodes generalizing heap start fuel with
  | nil =>
      cases (show start = none from chain)
      exact ⟨heap, by cases fuel <;> rfl, rfl, rfl, by simp⟩
  | cons p rest ih =>
      have fresh := (List.nodup_cons.mp chain.nodup).1
      obtain ⟨rfl, live, tail⟩ := chain
      cases fuel with
      | zero => simp at enough
      | succ fuel =>
          have later : Chain (heap.release p live) next (next (heap.content p)) rest := by
            refine tail.congr ?_ (fun _ _ => rfl)
            intro q member
            rw [Heap.live_release]
            exact ⟨tail.live q member, fun equal => fresh (equal ▸ member)⟩
          obtain ⟨freed, done, content, brk, log⟩ := ih later (by simpa using enough)
          refine ⟨freed, ?_, content, brk, ?_⟩
          · simp only [freeFrom, Heap.load_ok live, Heap.free_ok live]
            exact done
          · simp [log, Heap.release]

end Freeing

/-! What a release leaves. -/

section Releasing

variable {α : Type} {before after : Heap α} {cells : List Nat}

/-- These cells have been released, each of them once, and nothing else has changed. -/
structure Releases (before after : Heap α) (cells : List Nat) : Prop where
  content : after.content = before.content
  brk : after.brk = before.brk
  freed : after.freed = before.freed ++ cells
  once : ∀ p ∈ cells, after.freed.count p = 1
  live : ∀ p, after.Live p ↔ before.Live p ∧ p ∉ cells

theorem Releases.of_freed (live : ∀ p ∈ cells, before.Live p) (distinct : cells.Nodup)
    (content : after.content = before.content) (brk : after.brk = before.brk)
    (freed : after.freed = before.freed ++ cells) : Releases before after cells := by
  refine ⟨content, brk, freed, ?_, ?_⟩
  · intro p member
    have older : before.freed.count p = 0 := List.count_eq_zero.mpr (live p member).2
    rw [freed, List.count_append, older, List.count_eq_one_of_mem distinct member]
  · intro p
    rw [Heap.Live, Heap.Live, brk, freed, List.mem_append, not_or, and_assoc]

theorem freeFrom_releases {next : α → Option Nat} {start : Option Nat} {fuel : Nat}
    (chain : Chain before next start cells) (enough : cells.length ≤ fuel) :
    ∃ after, freeFrom next fuel before start start = .ok (after, none) ∧
      Releases before after cells := by
  obtain ⟨after, done, content, brk, freed⟩ := freeFrom_chain chain enough
  exact ⟨after, done, Releases.of_freed chain.live chain.nodup content brk freed⟩

end Releasing

end CLib
