import Mathlib

/-!
C strings and character arrays. Writes are checked against the size of the
array, reads stop at the terminator, and `%d`, `%s`, `sscanf` and `atoi` are
executable functions on bytes.
-/

namespace CLib

/-- Why a C execution has no defined continuation; `diverge` is a loop that never ends. -/
inductive Fault
  | overflow
  | overread
  | useAfterFree
  | nullPointer
  | uninitialised
  | intOverflow
  | diverge
  deriving DecidableEq, Repr

/-- A C string without its terminator. -/
@[ext] structure Text where
  bytes : List UInt8
  nulFree : 0 ∉ bytes
  deriving DecidableEq

namespace Text

def ofBytes (bytes : List UInt8) : Text :=
  ⟨bytes.takeWhile (· ≠ 0), fun member => by simpa using List.mem_takeWhile_imp member⟩

def length (text : Text) : Nat := text.bytes.length

instance : Append Text where
  append first second := ⟨first.bytes ++ second.bytes, by simp [first.nulFree, second.nulFree]⟩

@[simp] theorem bytes_append (first second : Text) :
    (first ++ second).bytes = first.bytes ++ second.bytes := rfl

@[simp] theorem length_append (first second : Text) :
    (first ++ second).length = first.length + second.length := by
  simp [length]

@[simp] theorem length_bytes (text : Text) : text.bytes.length = text.length := rfl

theorem append_assoc (first second third : Text) :
    first ++ second ++ third = first ++ (second ++ third) := by
  ext1
  simp

@[simp] theorem ofBytes_bytes (text : Text) : ofBytes text.bytes = text := by
  ext1
  have nonzero : ∀ c ∈ text.bytes, (decide (c ≠ 0)) = true := by
    intro c member
    simpa using fun equal : c = 0 => text.nulFree (equal ▸ member)
  exact List.takeWhile_eq_self_iff.mpr nonzero

theorem ofBytes_terminated (text : Text) (rest : List UInt8) :
    ofBytes (text.bytes ++ 0 :: rest) = text := by
  have nonzero : ∀ c ∈ text.bytes, (decide (c ≠ 0)) = true := by
    intro c member
    simpa using fun equal : c = 0 => text.nulFree (equal ▸ member)
  ext1
  change (text.bytes ++ 0 :: rest).takeWhile (fun c => decide (c ≠ 0)) = text.bytes
  rw [List.takeWhile_append_of_pos nonzero, List.takeWhile_cons_of_neg (by simp), List.append_nil]

end Text

def lit (source : String) : Text :=
  Text.ofBytes (source.toList.map fun c => c.toNat.toUInt8)

@[simp] theorem append_lit_empty (text : Text) : text ++ lit "" = text := by
  ext1
  exact List.append_nil text.bytes

/-! Character arrays of a fixed size. -/

@[ext] structure Buf (size : Nat) where
  bytes : List UInt8
  size_eq : bytes.length = size
  deriving DecidableEq

namespace Buf

variable {size : Nat}

def ofText (size : Nat) (text : Text) : Buf size :=
  ⟨(text.bytes ++ List.replicate size 0).take size, by simp⟩

def write (buf : Buf size) (index : Nat) (data : List UInt8) : Except Fault (Buf size) :=
  if fits : index + data.length ≤ size then
    .ok ⟨buf.bytes.take index ++ data ++ buf.bytes.drop (index + data.length), by
      have bound := buf.size_eq
      simp only [List.length_append, List.length_take, List.length_drop]
      omega⟩
  else .error .overflow

/-- `sprintf(buf + index, "%s", text)`, and `strcpy` at index 0: the text and its terminator. -/
def print (buf : Buf size) (index : Nat) (text : Text) : Except Fault (Buf size) :=
  buf.write index (text.bytes ++ [0])

/-- The C string an array holds, when it is terminated inside the array. -/
def cstr (buf : Buf size) : Except Fault Text :=
  if 0 ∈ buf.bytes then .ok (Text.ofBytes buf.bytes) else .error .overread

theorem ofText_cstr {text : Text} (fits : text.length < size) :
    (ofText size text).cstr = .ok text := by
  have bytes : (ofText size text).bytes =
      text.bytes ++ 0 :: List.replicate (size - text.length - 1) 0 := by
    have rest : size - text.length = size - text.length - 1 + 1 := by omega
    change (text.bytes ++ List.replicate size 0).take size = _
    rw [List.take_append, List.take_of_length_le (by rw [Text.length_bytes]; omega),
      Text.length_bytes, List.take_replicate, Nat.min_eq_left (by omega), rest,
      List.replicate_succ]
    simp
  have terminated : 0 ∈ (ofText size text).bytes := by simp [bytes]
  rw [cstr, if_pos terminated, bytes, Text.ofBytes_terminated]

theorem print_ok (buf : Buf size) {index : Nat} (text : Text) {start : List UInt8}
    (starts : start <+: buf.bytes) (at_end : start.length = index)
    (fits : index + text.length < size) :
    ∃ printed, buf.print index text = .ok printed ∧
      start ++ (text.bytes ++ [0]) <+: printed.bytes := by
  have room : index + (text.bytes ++ [0]).length ≤ size := by
    simp only [List.length_append, Text.length_bytes, List.length_cons, List.length_nil]
    omega
  obtain ⟨rest, split⟩ := starts
  have taken : buf.bytes.take index = start := by
    rw [← split, ← at_end]
    simp
  refine ⟨_, dif_pos room, ?_⟩
  simp [taken]

theorem print_overflow (buf : Buf size) (index : Nat) (text : Text)
    (tooLong : size ≤ index + text.length) : buf.print index text = .error .overflow := by
  apply dif_neg
  simp only [List.length_append, Text.length_bytes, List.length_cons, List.length_nil]
  omega

theorem print_error {buf : Buf size} {index : Nat} {text : Text} {fault : Fault}
    (failed : buf.print index text = .error fault) : fault = .overflow := by
  simp only [print, write] at failed
  split at failed <;> simp_all

theorem cstr_of_starts {buf : Buf size} {text : Text}
    (starts : text.bytes ++ [0] <+: buf.bytes) : buf.cstr = .ok text := by
  obtain ⟨rest, split⟩ := starts
  have terminated : 0 ∈ buf.bytes := by simp [← split]
  rw [cstr, if_pos terminated, ← split]
  simpa using Text.ofBytes_terminated text rest

theorem cstr_length {buf : Buf size} {text : Text} (read : buf.cstr = .ok text) :
    text.length < size := by
  simp only [cstr] at read
  split at read
  · rename_i terminated
    simp only [Except.ok.injEq] at read
    subst text
    have shorter := List.takeWhile_prefix (l := buf.bytes) (fun c => decide (c ≠ 0))
    have different : buf.bytes.takeWhile (fun c => decide (c ≠ 0)) ≠ buf.bytes := by
      intro same
      have nonzero := List.takeWhile_eq_self_iff.mp same 0 terminated
      simp at nonzero
    have below := shorter.length_le
    have unequal : (buf.bytes.takeWhile (fun c => decide (c ≠ 0))).length ≠ buf.bytes.length :=
      fun same => different (shorter.eq_of_length same)
    have size_eq := buf.size_eq
    simp only [Text.length, Text.ofBytes]
    omega
  · simp at read

theorem print_zero_ok (buf : Buf size) {text : Text} (fits : text.length < size) :
    ∃ printed, buf.print 0 text = .ok printed ∧ printed.cstr = .ok text := by
  obtain ⟨printed, done, starts⟩ :=
    buf.print_ok text List.nil_prefix (show [].length = 0 from rfl) (by omega)
  exact ⟨printed, done, cstr_of_starts (by simpa using starts)⟩

theorem print_zero_cstr {buf printed : Buf size} {text : Text}
    (done : buf.print 0 text = .ok printed) : printed.cstr = .ok text := by
  by_cases fits : text.length < size
  · obtain ⟨other, same, holds⟩ := buf.print_zero_ok fits
    rw [done] at same
    simp only [Except.ok.injEq] at same
    rw [same]
    exact holds
  · rw [buf.print_overflow 0 text (by omega)] at done
    simp at done

theorem print_behind {buf printed : Buf size} {index : Nat} {text : Text}
    (done : buf.print index text = .ok printed) {m : Nat} (behind : index + text.length < m) :
    printed.bytes.drop m = buf.bytes.drop m := by
  simp only [print, write] at done
  split at done
  · rename_i fits
    simp only [Except.ok.injEq] at done
    subst printed
    simp only [List.length_append, Text.length_bytes, List.length_singleton] at fits
    have front : (buf.bytes.take index ++ (text.bytes ++ [0])).length = index + text.length + 1 := by
      have bound := buf.size_eq
      simp only [List.length_append, List.length_take, Text.length_bytes, List.length_singleton]
      omega
    rw [List.drop_append, List.drop_of_length_le (by omega), List.nil_append, List.drop_drop,
      front]
    simp only [List.length_append, Text.length_bytes, List.length_singleton]
    congr 1
    omega
  · cases done

theorem print_before {buf printed : Buf size} {index : Nat} {text : Text}
    (done : buf.print index text = .ok printed) {m : Nat} (before : m ≤ index) :
    printed.bytes.take m = buf.bytes.take m := by
  simp only [print, write] at done
  split at done
  · rename_i fits
    simp only [Except.ok.injEq] at done
    subst printed
    have bound := buf.size_eq
    simp only [List.append_assoc]
    rw [List.take_append_of_le_length (by simp only [List.length_take]; omega), List.take_take,
      Nat.min_eq_left before]
  · cases done

theorem cstr_split {buf : Buf size} {text : Text} (read : buf.cstr = .ok text) :
    buf.bytes = text.bytes ++ 0 :: buf.bytes.drop (text.length + 1) := by
  simp only [cstr] at read
  split at read
  · rename_i terminated
    simp only [Except.ok.injEq] at read
    subst text
    have split := List.takeWhile_append_dropWhile (p := fun c => decide (c ≠ 0)) (l := buf.bytes)
    cases found : buf.bytes.dropWhile fun c => decide (c ≠ 0) with
    | nil =>
        rw [found, List.append_nil] at split
        have nonzero := List.takeWhile_eq_self_iff.mp split 0 terminated
        simp at nonzero
    | cons c rest =>
        have zero := List.head?_dropWhile_not (fun c : UInt8 => decide (c ≠ 0)) buf.bytes
        rw [found] at zero split
        simp only [List.head?_cons] at zero
        obtain rfl : c = 0 := by simpa using zero
        have rest_eq : buf.bytes.drop ((Text.ofBytes buf.bytes).length + 1) = rest := by
          change buf.bytes.drop ((buf.bytes.takeWhile fun c => decide (c ≠ 0)).length + 1) = rest
          generalize buf.bytes.takeWhile (fun c => decide (c ≠ 0)) = front at split
          rw [← split, List.drop_append]
          simp
        rw [rest_eq]
        exact split.symm
  · cases read

end Buf

end CLib
