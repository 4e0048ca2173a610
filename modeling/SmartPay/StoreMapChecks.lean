import SmartPay.ReuseChecks

/-!
The terminal list as a finite map. Ids follow the order of creation and the list
the order of adding, so what a lookup finds is decided by the two together.
-/

namespace SmartPay

open CLib

def ListOp.text? : ListOp → Option Text
  | createNode transData => some transData
  | _ => none

/-- The texts of the nodes in the order in which the calls create them. -/
def createdTexts (ops : List ListOp) : List Text := ops.filterMap ListOp.text?

/-- The node and the text of an id, among the nodes that were created with these texts and then
added. -/
def terminalMap (created : List Nat) (texts : List Text) (added : List Nat) (id : Int) :
    Option (Nat × Text) :=
  ((created.zip (numbered texts)).find? fun entry => entry.1 ∈ added && entry.2.1 == id).map
    fun entry => (entry.1, entry.2.2)

/-! The invariant. -/

structure MapHolds (state : Calls) (lists : Lists) (texts : List Text) : Prop where
  calls : CallsHold state lists false false
  added : lists.nodes = state.added
  created : List.Forall₂ (Holds state.mgr.terminals) state.created (numbered texts)

def mapStep (spec : Lists × List Text) (op : ListOp) : Lists × List Text :=
  (listStep spec.1 op, spec.2 ++ op.text?.toList)

theorem mapStep_texts (spec : Lists × List Text) (ops : List ListOp) :
    (ops.foldl mapStep spec).2 = spec.2 ++ createdTexts ops := by
  induction ops generalizing spec with
  | nil => simp [createdTexts]
  | cons op rest ih =>
      rw [List.foldl_cons, ih, mapStep]
      cases content : op.text? <;> simp [createdTexts, content]

theorem MapHolds.start (mgr : EquipmentMgr) :
    MapHolds (Calls.start mgr) { nodes := [], queue := [], taken := [] } [] :=
  ⟨CallsHold.start mgr, rfl, List.Forall₂.nil⟩

section Steps

variable {state next : Calls} {lists : Lists} {texts : List Text}

theorem callOp_added {op : ListOp} (done : callOp state op = .ok next)
    (added : lists.nodes = state.added) : (listStep lists op).nodes = next.added := by
  cases op with
  | createNode transData =>
      obtain ⟨⟨mgr, node⟩, _, done⟩ := bind_eq_ok.mp done
      cases done
      exact added
  | addNodeToList node =>
      obtain ⟨⟨mgr, id⟩, _, done⟩ := bind_eq_ok.mp done
      cases done
      exact congrArg (· ++ [node]) added
  | createRequestQueueItem jsonReq method termId =>
      obtain ⟨⟨mgr, record⟩, _, done⟩ := bind_eq_ok.mp done
      cases done
      exact added
  | addRequestToQueue record =>
      obtain ⟨mgr, _, done⟩ := bind_eq_ok.mp done
      cases done
      exact added
  | checkQueueAndGetRequest =>
      obtain ⟨⟨mgr, record⟩, _, done⟩ := bind_eq_ok.mp done
      cases done
      exact added

theorem callOp_created (holds : MapHolds state lists texts) {op : ListOp} (fresh : Fresh state op)
    (done : callOp state op = .ok next) :
    List.Forall₂ (Holds next.mgr.terminals) next.created
      (numbered (texts ++ op.text?.toList)) := by
  have created := holds.created
  cases op with
  | createNode transData =>
      have counter := holds.calls.counter
      have room : state.mgr.globalTermCtr ≠ intMax := by
        rw [counter]
        exact ne_of_lt fresh.2
      obtain ⟨node, made, id, text⟩ := createNode_ok room fresh.1
      simp only [callOp, made, bind, Except.bind, Except.ok.injEq] at done
      subst next
      have length : state.created.length = texts.length := by
        rw [created.length_eq, numbered_length]
      rw [ListOp.text?, Option.toList_some, numbered_snoc]
      refine List.rel_append (created.imp fun p entry old => old.setFresh node) ?_
      refine .cons ⟨(state.mgr.terminals.live_malloc _).mpr (Or.inr rfl), ?_, ?_⟩ .nil
      · rw [Heap.set_content_same, id, counter, length]
      · rw [Heap.set_content_same, text]
  | addNodeToList node =>
      obtain ⟨⟨mgr, id⟩, added, done⟩ := bind_eq_ok.mp done
      cases done
      have kept := (addNodeToList_keeps added).2
      simpa [ListOp.text?] using created.imp fun p entry old => kept.holds old
  | createRequestQueueItem jsonReq method termId =>
      obtain ⟨⟨mgr, record⟩, made, done⟩ := bind_eq_ok.mp done
      cases done
      obtain ⟨item, rfl, _⟩ := createRequestQueueItem_inv made
      simpa [ListOp.text?] using created
  | addRequestToQueue record =>
      obtain ⟨mgr, queued, done⟩ := bind_eq_ok.mp done
      cases done
      have same := addRequestToQueue_frame queued
      simpa [ListOp.text?, same.terminals] using created
  | checkQueueAndGetRequest =>
      obtain ⟨⟨mgr, record⟩, checked, done⟩ := bind_eq_ok.mp done
      cases done
      have same := (checkQueueAndGetRequest_frame checked).2
      simpa [ListOp.text?, same.terminals] using created

theorem callOp_map (holds : MapHolds state lists texts) {op : ListOp} (fresh : Fresh state op) :
    ∃ next, callOp state op = .ok next ∧
      MapHolds next (listStep lists op) (texts ++ op.text?.toList) := by
  obtain ⟨next, done, calls⟩ := callOp_ok holds.calls fresh (avoids_sound op)
  exact ⟨next, done, calls, callOp_added done holds.added, callOp_created holds fresh done⟩

end Steps

/-! The refinement. -/

/-- The list links the added nodes in order, and a lookup is one of the map. -/
structure RefinesMap (state : Calls) (texts : List Text) : Prop where
  list : Linked state.mgr.terminals Terminals.next state.mgr.termList state.mgr.termListTail
    state.added
  once : state.added.Nodup
  together : state.mgr.termList = none ↔ state.mgr.termListTail = none
  distinct : ∀ p ∈ state.added, ∀ q ∈ state.added,
    (state.mgr.terminals.content p).id = (state.mgr.terminals.content q).id → p = q
  lookup : ∀ id, getTerminalById state.mgr id =
    .ok ((terminalMap state.created texts state.added id).map Prod.fst)
  content : ∀ id p text, terminalMap state.created texts state.added id = some (p, text) →
    Holds state.mgr.terminals p (id, text)
  stable : ∀ node, Fresh state (.addNodeToList node) →
    ∃ mgr id, addNodeToList state.mgr node = .ok (mgr, id) ∧
      ∀ other, other ≠ id → getTerminalById mgr other = getTerminalById state.mgr other

theorem terminalMap_some {created added : List Nat} {texts : List Text} {id : Int} {p : Nat}
    {text : Text} (found : terminalMap created texts added id = some (p, text)) :
    p ∈ added ∧ (p, (id, text)) ∈ created.zip (numbered texts) := by
  obtain ⟨⟨q, other, stored⟩, inside, same⟩ := Option.map_eq_some_iff.mp found
  cases same
  have tests := List.find?_some inside
  simp only [Bool.and_eq_true, decide_eq_true_eq, beq_iff_eq] at tests
  obtain ⟨member, rfl⟩ := tests
  exact ⟨member, List.mem_of_find?_eq_some inside⟩

theorem terminalMap_none {created added : List Nat} {texts : List Text} {id : Int}
    (missing : terminalMap created texts added id = none) {p : Nat} {entry : Int × Text}
    (member : p ∈ added) (inside : (p, entry) ∈ created.zip (numbered texts)) : entry.1 ≠ id := by
  have nothing := List.find?_eq_none.mp (Option.map_eq_none_iff.mp missing) (p, entry) inside
  simpa [member] using nothing

section Refinement

variable {state : Calls} {lists : Lists} {texts : List Text}

theorem MapHolds.content (holds : MapHolds state lists texts) {id : Int} {p : Nat} {text : Text}
    (found : terminalMap state.created texts state.added id = some (p, text)) :
    Holds state.mgr.terminals p (id, text) :=
  (List.forall₂_iff_zip.mp holds.created).2 (terminalMap_some found).2

theorem MapHolds.lookup (holds : MapHolds state lists texts) (id : Int) :
    getTerminalById state.mgr id =
      .ok ((terminalMap state.created texts state.added id).map Prod.fst) := by
  obtain ⟨found, missing⟩ := holds.calls.lookup
  obtain ⟨length, stored⟩ := List.forall₂_iff_zip.mp holds.created
  cases result : terminalMap state.created texts state.added id with
  | some entry =>
      obtain ⟨p, text⟩ := entry
      have member : p ∈ lists.nodes := holds.added ▸ (terminalMap_some result).1
      have sameId : (state.mgr.terminals.content p).id = id := (holds.content result).2.1
      rw [← sameId]
      exact found p member
  | none =>
      refine missing id fun p member => ?_
      have created := (holds.calls.nodes p member).2
      rw [← List.map_fst_zip length.le] at created
      obtain ⟨⟨q, entry⟩, inside, rfl⟩ := List.mem_map.mp created
      rw [(stored inside).2.1]
      exact terminalMap_none result (holds.added ▸ member) inside

theorem MapHolds.stable (holds : MapHolds state lists texts) {node : Nat}
    (fresh : Fresh state (.addNodeToList node)) :
    ∃ mgr id, addNodeToList state.mgr node = .ok (mgr, id) ∧
      ∀ other, other ≠ id → getTerminalById mgr other = getTerminalById state.mgr other := by
  have linked := holds.calls.list.isLinked
  rw [holds.added] at linked
  obtain ⟨terminals, head, done, longer, kept⟩ :=
    addNodeToList_linked linked (holds.calls.createdLive node fresh.1 fresh.2) fresh.2
  have ids := FieldOnly.keeps kept Terminals.id fun _ _ => rfl
  refine ⟨_, _, done, fun other different => ?_⟩
  rw [getTerminalById_chain longer.chain, getTerminalById_chain linked.chain]
  simp only [ids]
  have absent : [node].find? (fun p => (state.mgr.terminals.content p).id == other) = none := by
    simpa using different.symm
  rw [List.find?_append, absent, Option.or_none]

theorem MapHolds.refines (holds : MapHolds state lists texts) : RefinesMap state texts := by
  have linked := holds.calls.list.isLinked
  rw [holds.added] at linked
  have created {p : Nat} (member : p ∈ state.added) : p ∈ state.created :=
    (holds.calls.nodes p (holds.added ▸ member)).2
  exact {
    list := linked
    once := linked.nodup
    together := linked.head_none_iff.trans linked.tail_none_iff.symm
    distinct := fun p first q second => holds.calls.distinct p (created first) q (created second)
    lookup := holds.lookup
    content := fun id p text => holds.content
    stable := fun node => holds.stable }

end Refinement

/-- Whatever nodes are created and added, in whatever order, every call ends and the list of
terminals refines a finite map. -/
theorem store_refines_map {mgr : EquipmentMgr} {ops : List ListOp}
    (fresh : Along callOp Fresh (Calls.start mgr) ops) :
    ∃ final, runFrom callOp (Calls.start mgr) ops = .ok final ∧
      RefinesMap final (createdTexts ops) := by
  let start : Lists × List Text := ({ nodes := [], queue := [], taken := [] }, [])
  have simulates : ∀ state spec op, MapHolds state spec.1 spec.2 → Fresh state op →
      ∃ next, callOp state op = .ok next ∧ MapHolds next (mapStep spec op).1 (mapStep spec op).2 :=
    fun _ _ _ holds now => callOp_map holds now
  have empty : MapHolds (Calls.start mgr) start.1 start.2 := MapHolds.start mgr
  obtain ⟨final, done, holds⟩ := runFrom_simulates mapStep start simulates empty fresh
  rw [mapStep_texts, List.nil_append] at holds
  exact ⟨final, done, holds.refines⟩

theorem store_refines_map_reordered :
    ∃ final, runFrom callOp (Calls.start EquipmentMgr.blank)
        [.createNode (lit "x"), .createNode (lit "y"), .addNodeToList 1, .addNodeToList 0] =
          .ok final ∧ RefinesMap final [lit "x", lit "y"] :=
  store_refines_map (by decide)

end SmartPay
