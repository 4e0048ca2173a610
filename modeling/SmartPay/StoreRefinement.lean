import SmartPay.ServiceReference

/-!
The linked terminal list refines a list of numbered texts: creating, linking
and looking up nodes on the heap is appending to that list and searching it.
-/

namespace SmartPay

open CLib

def Holds (terminals : Heap Terminals) (p : Nat) (entry : Int × Text) : Prop :=
  terminals.Live p ∧ (terminals.content p).id = entry.1 ∧
    (terminals.content p).transactions.cstr = .ok entry.2

/-- The terminal list of the heap with the abstract list it stands for. -/
structure StoreList (mgr : EquipmentMgr) (nodes : List Nat) (entries : List (Int × Text)) : Prop where
  linked : Linked mgr.terminals Terminals.next mgr.termList mgr.termListTail nodes
  holds : List.Forall₂ (Holds mgr.terminals) nodes entries

structure QueueSame (mgr other : EquipmentMgr) : Prop where
  requests : other.requests = mgr.requests
  list : other.requestQueueList = mgr.requestQueueList
  tail : other.requestQueueTail = mgr.requestQueueTail
  flag : other.sigEqMgrFlag = mgr.sigEqMgrFlag

/-- The terminal list and the id counter of two states are the same. -/
structure StoreSame (mgr other : EquipmentMgr) : Prop where
  terminals : other.terminals = mgr.terminals
  list : other.termList = mgr.termList
  tail : other.termListTail = mgr.termListTail
  counter : other.globalTermCtr = mgr.globalTermCtr
  flag : other.sigEqMgrFlag = mgr.sigEqMgrFlag

/-- The store of a manager that has served exactly these posts. -/
structure Stores (mgr : EquipmentMgr) (texts : List Text) : Prop where
  list : ∃ nodes, StoreList mgr nodes (numbered texts)
  counter : mgr.globalTermCtr = texts.length
  bounded : (texts.length : Int) ≤ intMax

def NodesKept : Heap Terminals → Heap Terminals → Prop :=
  FieldOnly fun next node => { node with next }

theorem NodesKept.setNext (terminals : Heap Terminals) (p : Nat) (next : Option Nat) :
    NodesKept terminals (terminals.set p { terminals.content p with next }) :=
  FieldOnly.set Terminals.next (fun _ => rfl) terminals p next

theorem NodesKept.holds {before after : Heap Terminals} (kept : NodesKept before after) {q : Nat}
    {entry : Int × Text} (holds : Holds before q entry) : Holds after q entry := by
  obtain ⟨live, id, text⟩ := holds
  refine ⟨(FieldOnly.live kept q).mpr live, ?_, ?_⟩
  · rw [← id]
    exact FieldOnly.keeps kept Terminals.id (fun _ _ => rfl) q
  · rw [← text]
    exact congrArg Buf.cstr (FieldOnly.keeps kept Terminals.transactions (fun _ _ => rfl) q)

theorem Holds.setFresh {terminals : Heap Terminals} {q : Nat} {entry : Int × Text}
    (holds : Holds terminals q entry) (node : Terminals) :
    Holds (terminals.malloc.1.set terminals.brk node) q entry := by
  obtain ⟨live, content⟩ := holds
  refine ⟨(terminals.live_malloc q).mpr (Or.inl live), ?_⟩
  rw [Heap.set_content_ne _ _ live.ne_brk]
  exact content

theorem StoreList.setFresh {mgr : EquipmentMgr} {nodes : List Nat}
    {entries : List (Int × Text)} (list : StoreList mgr nodes entries) (node : Terminals)
    (counter : Int) :
    StoreList { mgr with
      terminals := mgr.terminals.malloc.1.set mgr.terminals.brk node
      globalTermCtr := counter } nodes entries := by
  have holds := list.holds.imp fun p entry holds => holds.setFresh node
  exact ⟨list.linked.setFresh node, holds⟩

theorem Stores.congr {mgr other : EquipmentMgr} {texts : List Text} (store : Stores mgr texts)
    (same : StoreSame mgr other) : Stores other texts := by
  obtain ⟨nodes, list⟩ := store.list
  refine ⟨⟨nodes, ?_, ?_⟩, by rw [same.counter, store.counter], store.bounded⟩
  · rw [same.terminals, same.list, same.tail]
    exact list.linked
  · rw [same.terminals]
    exact list.holds

theorem Stores.mgrInit (mgr : EquipmentMgr) : Stores (mgrInit mgr) [] :=
  ⟨⟨[], Linked.empty, List.Forall₂.nil⟩, rfl, by decide⟩

theorem Holds.unique {terminals : Heap Terminals} {p : Nat} {first second : Int × Text}
    (holds : Holds terminals p first) (other : Holds terminals p second) : first = second := by
  have sameId := holds.2.1.symm.trans other.2.1
  have sameText := holds.2.2.symm.trans other.2.2
  simp only [Except.ok.injEq] at sameText
  exact Prod.ext sameId sameText

theorem Stores.unique {mgr : EquipmentMgr} {texts others : List Text} (store : Stores mgr texts)
    (other : Stores mgr others) : texts = others := by
  obtain ⟨nodes, list⟩ := store.list
  obtain ⟨otherNodes, otherList⟩ := other.list
  have sameNodes := list.linked.chain.unique otherList.linked.chain
  subst otherNodes
  have same : numbered texts = numbered others :=
    List.right_unique_forall₂' (fun _ _ _ first second => first.unique second) list.holds
      otherList.holds
  rw [← numbered_texts texts, same, numbered_texts]

/-! Creating and adding nodes. -/

theorem createNode_ok {mgr : EquipmentMgr} {transData : Text}
    (room : mgr.globalTermCtr ≠ intMax) (fits : transData.length < dataSize) :
    ∃ node, createNode mgr transData = .ok ({ mgr with
        terminals := mgr.terminals.malloc.1.set mgr.terminals.brk node
        globalTermCtr := mgr.globalTermCtr + 1 }, mgr.terminals.brk) ∧
      node.id = mgr.globalTermCtr + 1 ∧ node.transactions.cstr = .ok transData := by
  have live : mgr.terminals.malloc.1.Live mgr.terminals.brk :=
    (mgr.terminals.live_malloc _).mpr (Or.inr rfl)
  obtain ⟨transactions, printed, holds⟩ :=
    (mgr.terminals.content mgr.terminals.brk).transactions.print_zero_ok fits
  refine ⟨{ mgr.terminals.content mgr.terminals.brk with
    id := mgr.globalTermCtr + 1, transactions }, ?_, rfl, holds⟩
  simp only [createNode, if_neg room, Heap.malloc_address, Heap.load_ok live, Heap.malloc_content,
    Heap.store_ok live, bind, Except.bind, printed]

theorem createTerminalFromJson_ok {mgr : EquipmentMgr} {json : Text}
    (room : mgr.globalTermCtr ≠ intMax) (fits : json.length < dataSize) :
    ∃ node, createTerminalFromJson mgr json = .ok ({ mgr with
        terminals := mgr.terminals.malloc.1.set mgr.terminals.brk node
        globalTermCtr := mgr.globalTermCtr + 1 }, mgr.terminals.brk) ∧
      node.id = mgr.globalTermCtr + 1 ∧ node.transactions.cstr = .ok json := by
  have short : (lit "").length < dataSize := by decide
  obtain ⟨node, created, id, _⟩ := createNode_ok room short
  have live : (mgr.terminals.malloc.1.set mgr.terminals.brk node).Live mgr.terminals.brk :=
    (mgr.terminals.live_malloc _).mpr (Or.inr rfl)
  obtain ⟨transactions, printed, holds⟩ := node.transactions.print_zero_ok fits
  refine ⟨{ node with transactions }, ?_, id, holds⟩
  simp only [createTerminalFromJson, created, bind, Except.bind, Heap.load_ok live,
    Heap.set_content_same, printed, Heap.store_ok live, Heap.set_set]

theorem createNode_full {mgr : EquipmentMgr} (transData : Text)
    (full : mgr.globalTermCtr = intMax) : createNode mgr transData = .error .intOverflow := by
  simp [createNode, full]

theorem addNodeToList_linked {mgr : EquipmentMgr} {nodes : List Nat} {p : Nat}
    (list : Linked mgr.terminals Terminals.next mgr.termList mgr.termListTail nodes)
    (live : mgr.terminals.Live p) (fresh : p ∉ nodes) :
    ∃ terminals head, addNodeToList mgr p = .ok ({ mgr with
        terminals, termList := head, termListTail := some p }, (mgr.terminals.content p).id) ∧
      Linked terminals Terminals.next head (some p) (nodes ++ [p]) ∧
      NodesKept mgr.terminals terminals := by
  let ended := mgr.terminals.set p { mgr.terminals.content p with next := none }
  cases tailEq : mgr.termListTail with
  | none =>
      rw [tailEq] at list
      refine ⟨ended, some p, ?_, list.first live rfl, NodesKept.setNext _ p none⟩
      simp only [addNodeToList, Heap.load_ok live, Heap.store_ok live, bind, Except.bind, tailEq,
        ended]
  | some tail =>
      rw [tailEq] at list
      have tailLive : mgr.terminals.Live tail :=
        list.chain.live tail (List.mem_of_getLast? list.last.symm)
      refine ⟨ended.set tail { ended.content tail with next := some p }, mgr.termList, ?_,
        list.append live fresh rfl rfl,
        (NodesKept.setNext _ p none).trans (NodesKept.setNext _ tail (some p)) fun _ _ _ => rfl⟩
      simp only [addNodeToList, Heap.load, Heap.store, Heap.live_set, live, tailLive, if_true,
        bind, Except.bind, tailEq]
      rfl

theorem addNodeToList_keeps {mgr added : EquipmentMgr} {p : Nat} {id : Int}
    (done : addNodeToList mgr p = .ok (added, id)) :
    added.globalTermCtr = mgr.globalTermCtr ∧ NodesKept mgr.terminals added.terminals := by
  obtain ⟨node, loaded, done⟩ := bind_eq_ok.mp done
  obtain ⟨terminals, stored, done⟩ := bind_eq_ok.mp done
  obtain ⟨_, rfl⟩ := Heap.load_eq_ok loaded
  obtain ⟨_, rfl⟩ := Heap.store_eq_ok stored
  split at done
  · cases done
    exact ⟨rfl, NodesKept.setNext _ p none⟩
  · rename_i tail _
    obtain ⟨last, lastLoaded, done⟩ := bind_eq_ok.mp done
    obtain ⟨joined, lastStored, done⟩ := bind_eq_ok.mp done
    cases done
    obtain ⟨_, rfl⟩ := Heap.load_eq_ok lastLoaded
    obtain ⟨_, rfl⟩ := Heap.store_eq_ok lastStored
    exact ⟨rfl, (NodesKept.setNext _ p none).trans (NodesKept.setNext _ tail (some p))
      fun _ _ _ => rfl⟩

theorem addNodeToList_ok {mgr : EquipmentMgr} {nodes : List Nat} {entries : List (Int × Text)}
    {p : Nat} {entry : Int × Text} (list : StoreList mgr nodes entries)
    (created : Holds mgr.terminals p entry) (fresh : p ∉ nodes) :
    ∃ added, addNodeToList mgr p = .ok (added, entry.1) ∧
      StoreList added (nodes ++ [p]) (entries ++ [entry]) ∧ QueueSame mgr added ∧
      added.globalTermCtr = mgr.globalTermCtr ∧ NodesKept mgr.terminals added.terminals := by
  obtain ⟨terminals, head, added, linked, kept⟩ :=
    addNodeToList_linked list.linked created.1 fresh
  rw [created.2.1] at added
  refine ⟨_, added, ⟨linked, ?_⟩, ⟨rfl, rfl, rfl, rfl⟩, rfl, kept⟩
  refine List.rel_append (list.holds.imp fun q other holds => kept.holds holds) ?_
  exact .cons (kept.holds created) .nil

/-! Lookup. -/

theorem getTerminalByIdFrom_find {terminals : Heap Terminals} {id : Int} {fuel : Nat}
    {start : Option Nat} {nodes : List Nat} (chain : Chain terminals Terminals.next start nodes)
    (enough : nodes.length ≤ fuel) :
    getTerminalByIdFrom terminals id fuel start =
      .ok (nodes.find? fun p => (terminals.content p).id == id) := by
  induction nodes generalizing start fuel with
  | nil =>
      cases (show start = none from chain)
      cases fuel <;> rfl
  | cons p rest ih =>
      obtain ⟨rfl, live, tail⟩ := chain
      cases fuel with
      | zero => simp at enough
      | succ fuel =>
          simp only [getTerminalByIdFrom, Heap.load_ok live, bind, Except.bind]
          by_cases found : (terminals.content p).id = id
          · rw [if_pos found, List.find?_cons_of_pos (by simpa using found)]
          · rw [if_neg found, ih tail (by simpa using enough),
              List.find?_cons_of_neg (by simpa using found)]

theorem getTerminalById_chain {mgr : EquipmentMgr} {nodes : List Nat}
    (chain : Chain mgr.terminals Terminals.next mgr.termList nodes) (id : Int) :
    getTerminalById mgr id = .ok (nodes.find? fun p => (mgr.terminals.content p).id == id) :=
  getTerminalByIdFrom_find chain chain.length_le

theorem getTerminalById_find {mgr : EquipmentMgr} {nodes : List Nat}
    {entries : List (Int × Text)} (list : StoreList mgr nodes entries) (id : Int) :
    match entries.find? fun entry => entry.1 == id with
    | none => getTerminalById mgr id = .ok none
    | some entry => ∃ p ∈ nodes, getTerminalById mgr id = .ok (some p) ∧
        Holds mgr.terminals p entry := by
  rw [getTerminalById_chain list.linked.chain]
  have holds := list.holds
  generalize mgr.terminals = terminals at holds
  clear list
  induction holds with
  | nil => simp
  | @cons p entry rest others first later ih =>
      by_cases found : entry.1 = id
      · have here : (terminals.content p).id = id := first.2.1.trans found
        rw [List.find?_cons_of_pos (by simpa using found),
          List.find?_cons_of_pos (by simpa using here)]
        exact ⟨p, by simp, rfl, first⟩
      · have elsewhere : (terminals.content p).id ≠ id := fun same =>
          found (first.2.1.symm.trans same)
        rw [List.find?_cons_of_neg (by simpa using found),
          List.find?_cons_of_neg (by simpa using elsewhere)]
        split at ih
        · exact ih
        · obtain ⟨q, member, result, held⟩ := ih
          exact ⟨q, List.mem_cons_of_mem _ member, result, held⟩

end SmartPay
