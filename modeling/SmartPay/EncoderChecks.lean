import SmartPay.DatabaseChecks

/-!
The list encoder to the last byte. Every write of `createJsonFromList` ends
before the terminator of the finished reply, so the array holds the reply, its
terminator, and behind it what it held before.
-/

namespace SmartPay

open CLib

/-- The loop moves `lastIndex` forward and writes nothing behind its last terminator. -/
theorem appendTerminalsFrom_behind {size : Nat} {terminals : Heap Terminals} {fuel : Nat}
    {start : Option Nat} {respJson filled : Buf size} {index last : Nat}
    (done : appendTerminalsFrom terminals fuel start respJson index = .ok (filled, last)) :
    index ≤ last ∧ ∀ m, last < m → filled.bytes.drop m = respJson.bytes.drop m := by
  induction fuel generalizing start respJson index with
  | zero =>
      cases start with
      | none =>
          cases done
          exact ⟨Nat.le_refl _, fun _ _ => rfl⟩
      | some runner => cases done
  | succ fuel ih =>
      cases start with
      | none =>
          cases done
          exact ⟨Nat.le_refl _, fun _ _ => rfl⟩
      | some runner =>
          obtain ⟨node, _, done⟩ := bind_eq_ok.mp done
          obtain ⟨transactions, _, done⟩ := bind_eq_ok.mp done
          obtain ⟨written, fragmentDone, done⟩ := bind_eq_ok.mp done
          obtain ⟨separated, separatorDone, done⟩ := bind_eq_ok.mp done
          obtain ⟨forward, kept⟩ := ih done
          refine ⟨by omega, fun m behind => ?_⟩
          rw [kept m behind, Buf.print_behind separatorDone (by omega),
            Buf.print_behind fragmentDone (by omega)]

section Encoder

variable {size : Nat} {mgr : EquipmentMgr} {nodes : List Nat} {entries : List (Int × Text)}

theorem listReply_longer (nonempty : entries ≠ []) : 21 < (listReply entries).length := by
  have total := listReply_length nonempty
  obtain ⟨entry, rest, rfl⟩ := List.exists_cons_of_ne_nil nonempty
  have joined := congrArg Text.length (appendedFragments_cons entry rest)
  rw [Text.length_append, separator_length] at joined
  omega

theorem createJsonFromList_all_fits (list : StoreList mgr nodes entries) (nonempty : entries ≠ [])
    {tempTransHolder : Buf dataSize} {terms : Nat} {respJson filled : Buf size}
    (done : createJsonFromList mgr tempTransHolder terms all respJson = .ok filled) :
    (listReply entries).length < size ∧ filled.cstr = .ok (listReply entries) := by
  have decided := createJsonFromList_all list nonempty tempTransHolder terms respJson
  rw [done] at decided
  split at decided
  · rename_i fits
    obtain ⟨other, same, text⟩ := decided
    cases same
    exact ⟨fits, text⟩
  · cases decided

theorem createJsonFromList_all_behind (list : StoreList mgr nodes entries) (nonempty : entries ≠ [])
    {tempTransHolder : Buf dataSize} {terms : Nat} {respJson filled : Buf size}
    (done : createJsonFromList mgr tempTransHolder terms all respJson = .ok filled) {m : Nat}
    (behind : (listReply entries).length < m) :
    filled.bytes.drop m = respJson.bytes.drop m := by
  have fits := (createJsonFromList_all_fits list nonempty done).1
  have total := listReply_length nonempty
  have longer := listReply_longer nonempty
  have start : (format basicResponseWraper [.s (lit " ")]).length - 3 = listHead.length := by
    rw [frame_length, listHead_length]
  simp only [createJsonFromList, ne_eq, not_true_eq_false, if_false, start] at done
  obtain ⟨framed, frameDone, done⟩ := bind_eq_ok.mp done
  obtain ⟨⟨appended, last⟩, loopDone, closeDone⟩ := bind_eq_ok.mp done
  have headStarts : listHead.bytes <+: framed.bytes := by
    obtain ⟨other, same, starts⟩ :=
      respJson.print_ok (format basicResponseWraper [.s (lit " ")]) List.nil_prefix
        (show [].length = 0 from rfl) (by rw [frame_length]; omega)
    rw [frameDone] at same
    cases same
    exact (listHead_starts.trans (List.prefix_append _ _)).trans (by simpa using starts)
  have length : last = 18 + (appendedFragments entries).length := by
    obtain ⟨other, same, _⟩ := appendTerminalsFrom_ok list.linked.chain list.holds
      list.linked.chain.length_le headStarts (by rw [listHead_length]; omega)
    rw [loopDone] at same
    simp only [Except.ok.injEq, Prod.mk.injEq] at same
    rw [same.2, Text.length_append, listHead_length]
  have closing : (lit " \x7d \x7d").length = 4 := by decide
  rw [Buf.print_behind closeDone (by rw [closing]; omega),
    (appendTerminalsFrom_behind loopDone).2 m (by omega),
    Buf.print_behind frameDone (by rw [frame_length]; omega)]

/-- A GET of a stored id prints the fragment of the first terminal with this id; with distinct ids
that is the one asked for. -/
theorem readFromDb_single (list : StoreList mgr nodes entries)
    (distinct : (entries.map Prod.fst).Nodup) {entry : Int × Text} (inside : entry ∈ entries)
    (named : entry.1 ≠ all) (tempTransHolder : Buf dataSize) (respJson : Buf size)
    (errMsg : Buf errorMsgSize) :
    if (fragment entry).length < dataSize ∧ (wrapResponse (fragment entry)).length < size then
      ∃ filled, readFromDb mgr tempTransHolder entry.1 respJson errMsg =
          .ok (.success, filled, errMsg) ∧
        filled.cstr = .ok (wrapResponse (fragment entry))
    else readFromDb mgr tempTransHolder entry.1 respJson errMsg = .error .overflow := by
  have found := getTerminalById_find list entry.1
  have first : entries.find? (fun other => other.1 == entry.1) = some entry := by
    cases listed : entries.find? fun other => other.1 == entry.1 with
    | none =>
        have missing := List.find?_eq_none.mp listed entry inside
        simp at missing
    | some other =>
        have same : other.1 = entry.1 := by simpa using List.find?_some listed
        have there : other ∈ entries := List.mem_of_find?_eq_some listed
        rw [List.inj_on_of_nodup_map distinct there inside same]
  rw [first] at found
  obtain ⟨p, _, lookup, holds⟩ := found
  have created := createJsonFromList_one holds named tempTransHolder respJson
  rw [singleReply] at created
  simp only [readFromDb, if_neg named, lookup, bind, Except.bind]
  split
  · rename_i fits
    rw [if_pos fits] at created
    obtain ⟨filled, done, text⟩ := created
    exact ⟨filled, by rw [done], text⟩
  · rename_i tooLong
    rw [if_neg tooLong] at created
    rw [created]

/-- The reply to a GET ALL is the fragments of the terminals in order, joined and framed; it is
written exactly when its own length leaves room for the terminator, and nothing behind that is
touched. A fragment is what the reply for that one terminal carries, and where no id occurs twice
what a GET of its id is answered with. -/
theorem createJsonFromList_all_exact (list : StoreList mgr nodes entries) (nonempty : entries ≠ [])
    (ids : ∀ entry ∈ entries, 0 ≤ entry.1) (tempTransHolder : Buf dataSize) (terms : Nat)
    (respJson : Buf size) (errMsg : Buf errorMsgSize) :
    (if (listReply entries).length < size then
        ∃ filled, createJsonFromList mgr tempTransHolder terms all respJson = .ok filled ∧
          filled.bytes = (listReply entries).bytes ++ 0 ::
            respJson.bytes.drop ((listReply entries).length + 1)
      else createJsonFromList mgr tempTransHolder terms all respJson = .error .overflow) ∧
    List.Forall₂ (fun p entry => ∀ (other : Nat) (single : Buf other),
      if (fragment entry).length < dataSize ∧ (wrapResponse (fragment entry)).length < other then
        ∃ filled, createJsonFromList mgr tempTransHolder p entry.1 single = .ok filled ∧
          filled.cstr = .ok (wrapResponse (fragment entry))
      else createJsonFromList mgr tempTransHolder p entry.1 single = .error .overflow)
      nodes entries ∧
    ((entries.map Prod.fst).Nodup → ∀ entry ∈ entries, ∀ (other : Nat) (single : Buf other),
      if (fragment entry).length < dataSize ∧ (wrapResponse (fragment entry)).length < other then
        ∃ filled, readFromDb mgr tempTransHolder entry.1 single errMsg =
            .ok (.success, filled, errMsg) ∧
          filled.cstr = .ok (wrapResponse (fragment entry))
      else readFromDb mgr tempTransHolder entry.1 single errMsg = .error .overflow) := by
  have named : ∀ entry ∈ entries, entry.1 ≠ all := by
    intro entry inside
    have bound := ids entry inside
    simp only [all]
    omega
  refine ⟨?_, ?_, fun distinct entry inside other single =>
    readFromDb_single list distinct inside (named entry inside) tempTransHolder single errMsg⟩
  · have decided := createJsonFromList_all list nonempty tempTransHolder terms respJson
    split
    · rename_i fits
      rw [if_pos fits] at decided
      obtain ⟨filled, done, text⟩ := decided
      refine ⟨filled, done, ?_⟩
      rw [← createJsonFromList_all_behind list nonempty done (Nat.lt_succ_self _)]
      exact Buf.cstr_split text
    · rename_i tooLong
      rwa [if_neg tooLong] at decided
  · obtain ⟨length, holds⟩ := List.forall₂_iff_zip.mp list.holds
    refine List.forall₂_iff_zip.mpr ⟨length, ?_⟩
    intro p entry inside other single
    exact createJsonFromList_one (holds inside) (named entry (List.of_mem_zip inside).2)
      tempTransHolder single

end Encoder

theorem createJsonFromList_all_exact_two :
    ∃ mgr nodes, StoreList mgr nodes [(1, lit "x"), (2, lit "y")] ∧
      (∃ filled, createJsonFromList mgr MgrLocals.blank.tempTransHolder 0 all
          (Buf.ofText dataSize (lit "")) = .ok filled ∧
        filled.bytes = (listReply [(1, lit "x"), (2, lit "y")]).bytes ++ 0 ::
          (Buf.ofText dataSize (lit "")).bytes.drop
            ((listReply [(1, lit "x"), (2, lit "y")]).length + 1)) ∧
      ∃ filled, readFromDb mgr MgrLocals.blank.tempTransHolder 2 (Buf.ofText dataSize (lit ""))
          MgrLocals.blank.errMsg = .ok (.success, filled, MgrLocals.blank.errMsg) ∧
        filled.cstr = .ok (wrapResponse (fragment (2, lit "y"))) := by
  obtain ⟨mgr, reachable⟩ := reachableStore_texts [lit "x", lit "y"] (by decide) (by decide)
  obtain ⟨nodes, list⟩ := reachable.stores.list
  have both : numbered [lit "x", lit "y"] = [(1, lit "x"), (2, lit "y")] := by decide
  rw [both] at list
  obtain ⟨whole, -, single⟩ := createJsonFromList_all_exact list (by simp) (by simp)
    MgrLocals.blank.tempTransHolder 0 (Buf.ofText dataSize (lit "")) MgrLocals.blank.errMsg
  rw [if_pos (by decide)] at whole
  have second := single (by decide) (2, lit "y") (by simp) dataSize (Buf.ofText dataSize (lit ""))
  rw [if_pos (by decide)] at second
  exact ⟨mgr, nodes, list, whole, second⟩

end SmartPay
