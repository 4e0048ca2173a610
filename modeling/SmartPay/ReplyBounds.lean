import SmartPay.DatabaseChecks

/-!
When a reply fits its array. The arrays have `DATASIZE` bytes like the stored
text, so what decides is the room that the wrappers and the ids leave.
-/

namespace SmartPay

open CLib

theorem appendedFragments_length (entries : List (Int × Text)) :
    (appendedFragments entries).length =
      (entries.map fun entry => 38 + (decimal entry.1).length + entry.2.length).sum := by
  induction entries with
  | nil => decide
  | cons entry rest ih =>
      simp only [appendedFragments, Text.length_append, fragment_length, separator_length, ih,
        List.map_cons, List.sum_cons]
      omega

theorem find_numberedFrom {k : Nat} {texts : List Text} {entry : Int × Text}
    (member : entry ∈ numberedFrom k texts) :
    (numberedFrom k texts).find? (fun other => other.1 == entry.1) = some entry := by
  induction texts generalizing k with
  | nil => simp [numberedFrom] at member
  | cons text rest ih =>
      simp only [numberedFrom, List.mem_cons] at member ⊢
      rcases member with rfl | later
      · simp
      · have bounds := (mem_numberedFrom later).1
        rw [List.find?_cons_of_neg (by simp; omega)]
        exact ih later

theorem getReply_single {texts : List Text} {termId : Int} {text : Text}
    (member : (termId, text) ∈ numbered texts) :
    getReply texts termId = singleReply (termId, text) := by
  have bounds := mem_numberedFrom member
  have single : termId ≠ all := by
    simp only [all] at bounds ⊢
    omega
  have found := find_numberedFrom member
  simp only [getReply, if_neg single, numbered, found]

theorem getReply_all_fits_iff (texts : List Text) :
    (getReply texts all).length < dataSize ↔
      20 + ((numbered texts).map fun entry =>
        38 + (decimal entry.1).length + entry.2.length).sum < dataSize := by
  by_cases empty : texts = []
  · subst texts
    decide
  · have someEntries : numbered texts ≠ [] := mt (numbered_eq_nil_iff texts).mp empty
    simp only [getReply, if_true, if_neg empty, listReply_length someEntries,
      appendedFragments_length]

/-- A GET of a stored id, or of all terminals, stays inside its arrays exactly when the texts
leave room for the wrappers and the ids. -/
theorem readFromDb_no_overflow_iff {mgr : EquipmentMgr} {texts : List Text}
    (reachable : ReachableStore mgr texts) (termId : Int)
    (asked : termId = all ∨ ∃ text, (termId, text) ∈ numbered texts)
    (tempTransHolder respJson : Buf dataSize) (errMsg : Buf errorMsgSize) :
    readFromDb mgr tempTransHolder termId respJson errMsg ≠ .error .overflow ↔
      (termId = all → 20 + ((numbered texts).map fun entry =>
        38 + (decimal entry.1).length + entry.2.length).sum < dataSize) ∧
      ∀ text, (termId, text) ∈ numbered texts →
        56 + (decimal termId).length + text.length < dataSize := by
  have decided :
      readFromDb mgr tempTransHolder termId respJson errMsg ≠ .error .overflow ↔
        (getReply texts termId).length < dataSize := by
    have read := readFromDb_decided reachable.stores termId tempTransHolder respJson errMsg
    split at read
    · rename_i fits
      obtain ⟨result, done, _⟩ := read
      simp [done, fits]
    · rename_i tooLong
      simp [read, tooLong]
  rw [decided]
  rcases asked with rfl | ⟨text, member⟩
  · rw [getReply_all_fits_iff]
    constructor
    · intro fits
      refine ⟨fun _ => fits, fun text member => ?_⟩
      have bounds := (mem_numberedFrom member).1
      simp [all] at bounds
    · intro fits
      exact fits.1 rfl
  · rw [getReply_single member, singleReply_length]
    constructor
    · intro fits
      refine ⟨fun whole => ?_, fun other found => ?_⟩
      · have bounds := (mem_numberedFrom member).1
        simp [whole, all] at bounds
      · have same : some (termId, text) = some (termId, other) :=
          (find_numberedFrom member).symm.trans (find_numberedFrom found)
        simp only [Option.some.injEq, Prod.mk.injEq, true_and] at same
        rw [← same]
        exact fits
    · intro fits
      exact fits.2 text member

theorem readFromDb_no_overflow_short :
    ∃ mgr, ReachableStore mgr [lit "x"] ∧
      readFromDb mgr MgrLocals.blank.tempTransHolder 1 (Buf.ofText dataSize (lit ""))
        MgrLocals.blank.errMsg ≠ .error .overflow := by
  have fits : (lit "x").length < dataSize := by decide
  obtain ⟨mgr, reachable⟩ := reachableStore_single fits
  refine ⟨mgr, reachable, (readFromDb_no_overflow_iff reachable 1 (Or.inr ⟨lit "x", ?_⟩)
    _ _ _).mpr ⟨by decide, ?_⟩⟩
  · simp [numbered, numberedFrom]
  · intro text member
    simp only [numbered, numberedFrom, List.mem_singleton, Prod.mk.injEq] at member
    rw [member.2]
    decide

theorem readFromDb_overflow_of_long {text : Text} (short : text.length < dataSize)
    (long : 967 ≤ text.length) :
    ∃ mgr, ReachableStore mgr [text] ∧
      ∀ (tempTransHolder respJson : Buf dataSize) (errMsg : Buf errorMsgSize),
        readFromDb mgr tempTransHolder 1 respJson errMsg = .error .overflow := by
  obtain ⟨mgr, reachable⟩ := reachableStore_single short
  refine ⟨mgr, reachable, fun tempTransHolder respJson errMsg => ?_⟩
  have member : ((1 : Int), text) ∈ numbered [text] := by simp [numbered, numberedFrom]
  have digits : (decimal 1).length = 1 := by decide
  have tooLong : ¬(getReply [text] 1).length < dataSize := by
    rw [getReply_single member, singleReply_length, digits]
    simp only [dataSize]
    omega
  have read := readFromDb_decided reachable.stores 1 tempTransHolder respJson errMsg
  rw [if_neg tooLong] at read
  exact read

def longText : Text :=
  ⟨List.replicate 1000 97, fun member => absurd (List.eq_of_mem_replicate member) (by decide)⟩

theorem readFromDb_long_overflow :
    longText.length < dataSize ∧ ∃ mgr, ReachableStore mgr [longText] ∧
      ∀ (tempTransHolder respJson : Buf dataSize) (errMsg : Buf errorMsgSize),
        readFromDb mgr tempTransHolder 1 respJson errMsg = .error .overflow := by
  have length : longText.length = 1000 := List.length_replicate
  have short : longText.length < dataSize := by rw [length]; decide
  exact ⟨short, readFromDb_overflow_of_long short (by omega)⟩

end SmartPay
