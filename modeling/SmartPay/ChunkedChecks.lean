import SmartPay.UploadChecks

/-!
A chunked body. Whatever sizes, extensions and reads it comes in, the access handler is
called with its data in order and with nothing else, and never with no data at all.
-/

namespace SmartPay

open CLib

/-! A size line as the client writes it. -/

def hexValue (digits : List UInt8) : Nat :=
  digits.foldl (fun value d => value * 16 + (toXdigitValue d).getD 0) 0

structure ChunkLine where
  digits : List UInt8
  extension : List UInt8
  digitsSome : digits ≠ []
  digitsFew : digits.length < 16
  digitsHex : ∀ d ∈ digits, (toXdigitValue d).isSome = true
  extensionFirst : extension = [] ∨ extension.head? = some 59
  extensionClean : Clean extension

def ChunkLine.bytes (line : ChunkLine) : List UInt8 := line.digits ++ line.extension

def ChunkLine.size (line : ChunkLine) : Nat := hexValue line.digits

structure Chunk where
  line : ChunkLine
  data : List UInt8
  dataSome : data ≠ []
  sized : line.size = data.length

structure LastChunk where
  line : ChunkLine
  zero : line.size = 0

def Chunk.wire (chunk : Chunk) : List UInt8 :=
  chunk.line.bytes ++ cr :: lf :: (chunk.data ++ [cr, lf])

theorem toXdigitValue_lt {c : UInt8} {digit : Nat} (value : toXdigitValue c = some digit) :
    digit < 16 := by
  simp only [toXdigitValue] at value
  split at value
  · rename_i decimal
    rw [isDigit_iff] at decimal
    cases value
    omega
  · split at value
    · rename_i upper
      simp only [UInt8.le_iff_toNat_le] at upper
      cases value
      have high : c.toNat ≤ 70 := upper.2
      omega
    · split at value
      · rename_i lower
        simp only [UInt8.le_iff_toNat_le] at lower
        cases value
        have high : c.toNat ≤ 102 := lower.2
        omega
      · cases value

theorem strxToUint64N_digits {digits rest : List UInt8} {i res : Nat}
    (hex : ∀ d ∈ digits, (toXdigitValue d).isSome = true) (some : 0 < i ∨ digits ≠ [])
    (few : i + digits.length < 16) (small : res < 16 ^ i) :
    strxToUint64N.digits digits.length (digits ++ rest) i res =
      (i + digits.length,
        .some (digits.foldl (fun value d => value * 16 + (toXdigitValue d).getD 0) res)) := by
  induction digits generalizing i res with
  | nil =>
      have positive : i ≠ 0 := by
        rcases some with positive | impossible
        · omega
        · exact absurd rfl impossible
      cases rest <;> simp [strxToUint64N.digits, positive]
  | cons d digits ih =>
      obtain ⟨digit, value⟩ := Option.isSome_iff_exists.mp (hex d (by simp))
      have bound := toXdigitValue_lt value
      simp only [List.length_cons] at few
      have below : 16 ^ i ≤ 16 ^ 14 := Nat.pow_le_pow_right (by omega) (by omega)
      have fits : ¬(res > uint64Max / 16 ∨ (res = uint64Max / 16 ∧ digit > uint64Max % 16)) := by
        simp only [uint64Max]
        omega
      have next : res * 16 + digit < 16 ^ (i + 1) := by
        rw [Nat.pow_succ]
        omega
      have later := ih (fun other member => hex other (by simp [member])) (Or.inl (by omega))
        (by omega : i + 1 + digits.length < 16) next
      simp only [List.length_cons, List.cons_append, strxToUint64N.digits, value, if_neg fits,
        later, List.foldl_cons, Option.getD_some]
      rw [Nat.add_right_comm, Nat.add_assoc]

theorem ChunkLine.strxToUint64N (line : ChunkLine) (rest : List UInt8) :
    strxToUint64N line.digits.length (line.digits ++ rest) =
      (line.digits.length, some line.size) := by
  rw [SmartPay.strxToUint64N, strxToUint64N_digits line.digitsHex (Or.inr line.digitsSome)
    (by have := line.digitsFew; omega) (by simp), Nat.zero_add]
  rfl

namespace MhdConnection

variable {buffer future rest : List UInt8} {line : ChunkLine}

theorem hex_inside {d : UInt8} (hex : (toXdigitValue d).isSome = true) :
    (!isEol d && d != 59) = true := by
  have notEol : isEol d = false := by
    by_contra eol
    simp only [Bool.not_eq_false, isEol, Bool.or_eq_true, beq_iff_eq] at eol
    rcases eol with rfl | rfl <;> exact absurd hex (by decide)
  have notSemicolon : d ≠ 59 := by
    rintro rfl
    exact absurd hex (by decide)
  simp [notEol, notSemicolon]

theorem sizeEnd_stop {digits : List UInt8} {stop : UInt8} (few : digits.length < 16)
    (inside : ∀ d ∈ digits, (!isEol d && d != 59) = true)
    (stops : (!isEol stop && stop != 59) = false) :
    sizeEnd (digits ++ stop :: rest) = digits.length := by
  obtain ⟨k, room⟩ : ∃ k, 16 - digits.length = k + 1 := ⟨15 - digits.length, by omega⟩
  rw [sizeEnd, List.take_append, List.take_of_length_le few.le, room, List.take_succ_cons,
    takeWhile_stop inside stops]

theorem sizeEnd_all {digits : List UInt8} (few : digits.length < 16)
    (inside : ∀ d ∈ digits, (!isEol d && d != 59) = true) : sizeEnd digits = digits.length := by
  rw [sizeEnd, List.take_of_length_le few.le, List.takeWhile_eq_self_iff.mpr inside]

/-- Up to the end of the line, or of what has come of it. -/
theorem sizeLineEnd_extension {digits extension tail : List UInt8} (few : digits.length < 16)
    (inside : ∀ d ∈ digits, (!isEol d && d != 59) = true)
    (first : extension.head? = some 59) (clean : Clean extension)
    (ends : tail.head? = none ∨ tail.head? = some cr) :
    sizeEnd (digits ++ (extension ++ tail)) = digits.length ∧
      sizeLineEnd (digits ++ (extension ++ tail)) = digits.length + extension.length := by
  obtain ⟨others, rfl⟩ : ∃ others, extension = 59 :: others := by
    cases extension with
    | nil => cases first
    | cons b others =>
        cases first
        exact ⟨others, rfl⟩
  have sized : sizeEnd (digits ++ (59 :: others ++ tail)) = digits.length :=
    sizeEnd_stop few inside (by decide)
  have notEol : ∀ b ∈ 59 :: others, (!isEol b) = true := by
    intro b member
    rw [clean b member]
    rfl
  have behind : ((59 :: others ++ tail).takeWhile fun b => !isEol b) = 59 :: others := by
    cases tail with
    | nil => rw [List.append_nil, List.takeWhile_eq_self_iff.mpr notEol]
    | cons b tail =>
        simp only [List.head?_cons, reduceCtorEq, Option.some.injEq, false_or] at ends
        rw [ends, takeWhile_stop notEol (by decide)]
  refine ⟨sized, ?_⟩
  rw [sizeLineEnd, sized, if_pos (by simp), List.drop_left, behind]

theorem sizeLineEnd_plain {digits : List UInt8} (tail : List UInt8) (few : digits.length < 16)
    (inside : ∀ d ∈ digits, (!isEol d && d != 59) = true)
    (ends : tail.head? = none ∨ tail.head? = some cr) :
    sizeEnd (digits ++ tail) = digits.length ∧ sizeLineEnd (digits ++ tail) = digits.length := by
  have sized : sizeEnd (digits ++ tail) = digits.length := by
    cases tail with
    | nil => rw [List.append_nil, sizeEnd_all few inside]
    | cons b tail =>
        simp only [List.head?_cons, reduceCtorEq, Option.some.injEq, false_or] at ends
        rw [ends, sizeEnd_stop few inside (by decide)]
  refine ⟨sized, ?_⟩
  rw [sizeLineEnd, sized, if_neg]
  rw [List.getElem?_append_right (le_refl _), Nat.sub_self, ← List.head?_eq_getElem?]
  rcases ends with nothing | carriage
  · simp [nothing]
  · rw [carriage]
    decide

/-- Of a whole line and of a part of it that has come. -/
theorem sizeLineEnd_line (line : ChunkLine) (tail : List UInt8) {part missing : List UInt8}
    (whole : line.bytes = part ++ missing)
    (ends : tail.head? = none ∨ tail.head? = some cr) :
    sizeLineEnd (part ++ tail) = part.length ∧
      (line.digits.length ≤ part.length → sizeEnd (part ++ tail) = line.digits.length) := by
  have inside : ∀ d ∈ line.digits, (!isEol d && d != 59) = true :=
    fun d member => hex_inside (line.digitsHex d member)
  rw [ChunkLine.bytes] at whole
  rcases List.append_eq_append_iff.mp whole with ⟨extra, rfl, extension⟩ | ⟨digits, digitsEq, rfl⟩
  · cases extra with
    | nil =>
        obtain ⟨sized, ended⟩ := sizeLineEnd_plain tail line.digitsFew inside ends
        simp only [List.append_nil] at *
        exact ⟨ended, fun _ => sized⟩
    | cons b others =>
        have first : (b :: others).head? = some 59 := by
          rcases line.extensionFirst with none | first
          · rw [none] at extension
            cases extension
          · rw [extension] at first
            exact first
        have clean : Clean (b :: others) := by
          intro x member
          exact line.extensionClean x (by rw [extension]; exact List.mem_append_left _ member)
        obtain ⟨sized, ended⟩ := sizeLineEnd_extension line.digitsFew inside first clean ends
        rw [List.append_assoc, List.length_append]
        exact ⟨ended, fun _ => sized⟩
  · have few : part.length < 16 := by
      have bound := line.digitsFew
      rw [digitsEq, List.length_append] at bound
      omega
    have insidePart : ∀ d ∈ part, (!isEol d && d != 59) = true :=
      fun d member => inside d (by rw [digitsEq]; exact List.mem_append_left _ member)
    obtain ⟨sized, ended⟩ := sizeLineEnd_plain tail few insidePart ends
    refine ⟨ended, fun enough => ?_⟩
    rw [sized]
    rw [digitsEq, List.length_append] at enough ⊢
    omega

/-- What is read of a line as it comes in: nothing yet, all of it, or a last chunk before the end of
its line end. -/
theorem sizeLine_cases (line : ChunkLine)
    (same : buffer ++ future = line.bytes ++ cr :: lf :: rest) :
    (sizeLine buffer = .incomplete ∧ future ≠ []) ∨
      (∃ after, sizeLine buffer = .read (some line.size) after ∧ after ++ future = rest) ∨
      (line.size = 0 ∧ sizeLine buffer = .read (some 0) [] ∧ future = lf :: rest) := by
  rcases List.append_eq_append_iff.mp same with ⟨missing, whole, later⟩ | ⟨tail, rfl, later⟩
  · left
    obtain ⟨ended, _⟩ := sizeLineEnd_line line [] whole (Or.inl rfl)
    rw [List.append_nil] at ended
    refine ⟨?_, by simp [later]⟩
    rw [sizeLine, ended, if_pos ⟨by omega, by omega⟩]
  · cases tail with
    | nil =>
        left
        obtain ⟨ended, _⟩ := sizeLineEnd_line line []
          (List.append_nil _).symm (Or.inl rfl)
        refine ⟨?_, by rw [← List.nil_append future, ← later]; simp⟩
        rw [List.append_nil] at ended ⊢
        rw [sizeLine, ended, if_pos ⟨by omega, by omega⟩]
    | cons c tail =>
        simp only [List.cons_append, List.cons.injEq] at later
        obtain ⟨rfl, later⟩ := later
        obtain ⟨ended, sized⟩ := sizeLineEnd_line line (cr :: tail)
          (List.append_nil _).symm (Or.inr rfl)
        have sized := sized (by simp [ChunkLine.bytes])
        have parsed := line.strxToUint64N (line.extension ++ cr :: tail)
        rw [← List.append_assoc, ← ChunkLine.bytes] at parsed
        have wellFormed : ¬(16 ≤ line.digits.length ∨ line.digits.length ≠ line.digits.length) := by
          have few := line.digitsFew
          omega
        cases tail with
        | nil =>
            have future : future = lf :: rest := later.symm
            by_cases last : line.bytes.length = 1 ∧ line.bytes.head? = some 48
            · right
              right
              obtain ⟨single, first⟩ := last
              have zero : line.size = 0 := by
                obtain ⟨d, digits, shape⟩ := List.exists_cons_of_ne_nil line.digitsSome
                simp only [ChunkLine.bytes, shape, List.cons_append, List.length_cons,
                  List.length_append, List.head?_cons, Option.some.injEq] at single first
                have alone : digits = [] := List.length_eq_zero_iff.mp (by omega)
                rw [ChunkLine.size, shape, alone, first]
                decide
              refine ⟨zero, ?_, future⟩
              rw [sizeLine, ended, sized, parsed, if_neg, if_neg wellFormed, zero, single]
              · simp [List.drop_append, single, skipEol, isEol, cr, lf]
              · simp [single, first]
            · left
              refine ⟨?_, by simp [future]⟩
              rw [sizeLine, ended, if_pos]
              refine ⟨by simp, ?_⟩
              rintro ⟨single, _, first⟩
              rw [List.head?_append_of_ne_nil _ (List.ne_nil_of_length_pos (by omega))] at first
              exact last ⟨single, first⟩
        | cons d after =>
            right
            left
            simp only [List.cons_append, List.cons.injEq] at later
            obtain ⟨rfl, later⟩ := later
            refine ⟨after, ?_, later.symm⟩
            rw [sizeLine, ended, sized, parsed, if_neg, if_neg wellFormed]
            · have behind : (line.bytes ++ cr :: lf :: after).drop (line.bytes.length + 1) =
                  lf :: after := by
                rw [← List.drop_drop, List.drop_left, List.drop_succ_cons, List.drop_zero]
              rw [behind]
              rfl
            · simp

/-! The rounds over a chunked body. -/

/-- Where the connection is in it: before a size line, before some data of a chunk, or before the
line end behind it. -/
inductive Phase
  | line
  | data (left : List UInt8)
  | ended

def Phase.Holds (c : MhdConnection) : Phase → Prop
  | .line => c.currentChunkOffset = 0 ∧ c.currentChunkSize = 0
  | .data left => left ≠ [] ∧ c.currentChunkSize = c.currentChunkOffset + left.length
  | .ended => c.currentChunkOffset = c.currentChunkSize ∧ c.currentChunkOffset ≠ 0

def Phase.left : Phase → List UInt8
  | .data left => left
  | _ => []

/-- What is still to come, in front of the next size line. -/
def Phase.stream (next : List UInt8) : Phase → List UInt8
  | .line => next
  | .data left => left ++ cr :: lf :: next
  | .ended => cr :: lf :: next

def chunksWire (chunks : List Chunk) (last : LastChunk) (rest : List UInt8) : List UInt8 :=
  chunks.flatMap Chunk.wire ++ (last.line.bytes ++ cr :: lf :: cr :: lf :: rest)

def payload (chunks : List Chunk) : List UInt8 := chunks.flatMap Chunk.data

structure ChunkedBody (c : MhdConnection) : Prop where
  sent : c.state = .continueSent
  unqueued : c.response = none
  reading : c.readClosed = false
  chunked : c.haveChunkedUpload = true
  unknown : c.remainingUploadSize = mhdSizeUnknown

theorem ChunkedBody.congr {c next : MhdConnection} (body : ChunkedBody c)
    (state : next.state = c.state) (response : next.response = c.response)
    (readClosed : next.readClosed = c.readClosed)
    (chunked : next.haveChunkedUpload = c.haveChunkedUpload)
    (remaining : next.remainingUploadSize = c.remainingUploadSize) : ChunkedBody next :=
  ⟨state.trans body.sent, response.trans body.unqueued, readClosed.trans body.reading,
    chunked.trans body.chunked, remaining.trans body.unknown⟩

/-- One round of the loop, with `future` still in the socket. -/
inductive ChunkRound (last : LastChunk) (future rest : List UInt8) (url method : Text)
    (left : List UInt8)
    (step : (ε σ : Type) → AccessHandler ε σ → σ →
      Except (Halt ε) (Bool × MhdConnection × σ)) : Prop
  | moves (again : Bool) (next : MhdConnection) (phase : Phase) (chunks : List Chunk)
      (stepped : ∀ ε σ handler context, step ε σ handler context = .ok (again, next, context))
      (body : ChunkedBody next) (holds : phase.Holds next) (sameUrl : next.url = url)
      (sameMethod : next.method = method)
      (stream : next.readBuffer ++ future = phase.stream (chunksWire chunks last rest))
      (same : left = phase.left ++ payload chunks)
      (more : again = true → next.readBuffer ≠ []) (waits : again = false → future ≠ [])
  | delivers (again : Bool) (middle : MhdConnection) (n : Nat) (phase : Phase)
      (chunks : List Chunk)
      (stepped : ∀ ε σ handler context,
        step ε σ handler context = deliver handler n again (middle, context))
      (body : ChunkedBody middle) (holds : phase.Holds (middle.bytesProcessed n))
      (sameUrl : middle.url = url) (sameMethod : middle.method = method)
      (some : middle.readBuffer.take n ≠ [])
      (stream : middle.readBuffer.drop n ++ future = phase.stream (chunksWire chunks last rest))
      (same : left = middle.readBuffer.take n ++ (phase.left ++ payload chunks))
      (more : again = true → middle.readBuffer.drop n ≠ []) (waits : again = false → future ≠ [])
  | finishes (next : MhdConnection)
      (stepped : ∀ ε σ handler context, step ε σ handler context = .ok (false, next, context))
      (sent : next.state = .continueSent) (unqueued : next.response = none)
      (reading : next.readClosed = false) (chunked : next.haveChunkedUpload = true)
      (zero : next.remainingUploadSize = 0) (sameUrl : next.url = url)
      (sameMethod : next.method = method) (same : left = [])
      (stream : next.readBuffer ++ future = cr :: lf :: rest ∨
        next.readBuffer = [] ∧ future = lf :: cr :: lf :: rest)

variable {c : MhdConnection} {last : LastChunk} {chunks : List Chunk}

theorem chunksWire_ne_nil (chunks : List Chunk) (last : LastChunk) (rest : List UInt8) :
    chunksWire chunks last rest ≠ [] := by
  simp [chunksWire]

theorem line_round (body : ChunkedBody c) (holds : Phase.line.Holds c)
    (stream : c.readBuffer ++ future = chunksWire chunks last rest) :
    ChunkRound last future rest c.url c.method (payload chunks)
      (fun _ _ handler context => chunkStep handler (c, context)) := by
  obtain ⟨offset, size⟩ := holds
  have step (ε σ : Type) (handler : AccessHandler ε σ) (context : σ) :
      chunkStep handler (c, context) = .ok (c.readChunkSize.1, c.readChunkSize.2, context) := by
    have notInside : ¬c.currentChunkOffset < c.currentChunkSize := by omega
    simp only [chunkStep, if_neg notInside]
  cases chunks with
  | nil =>
      have lineFirst : c.readBuffer ++ future =
          last.line.bytes ++ cr :: lf :: (cr :: lf :: rest) := by
        rw [stream]
        rfl
      rcases sizeLine_cases last.line lineFirst with
        ⟨incomplete, future⟩ | ⟨after, read, behind⟩ | ⟨_, read, future⟩
      · have done : c.readChunkSize = (false, c) := by rw [readChunkSize, incomplete]
        refine .moves false c .line [] (fun ε σ handler context => ?_) body ⟨offset, size⟩ rfl rfl
          stream rfl (by simp) (fun _ => future)
        rw [step, done]
      · refine .finishes { c with
            readBuffer := after
            currentChunkOffset := 0
            currentChunkSize := 0
            remainingUploadSize := 0 } (fun ε σ handler context => ?_) body.sent body.unqueued
          body.reading body.chunked rfl rfl rfl rfl (Or.inl behind)
        rw [step, readChunkSize, read]
        simp [last.zero]
      · refine .finishes { c with
            readBuffer := []
            currentChunkOffset := 0
            currentChunkSize := 0
            remainingUploadSize := 0 } (fun ε σ handler context => ?_) body.sent body.unqueued
          body.reading body.chunked rfl rfl rfl rfl (Or.inr ⟨rfl, future⟩)
        rw [step, readChunkSize, read]
        simp
  | cons chunk chunks =>
      have positive := List.length_pos_iff.mpr chunk.dataSome
      have lineFirst : c.readBuffer ++ future = chunk.line.bytes ++ cr :: lf ::
          (chunk.data ++ cr :: lf :: chunksWire chunks last rest) := by
        rw [stream]
        simp [chunksWire, Chunk.wire]
      rcases sizeLine_cases chunk.line lineFirst with
        ⟨incomplete, future⟩ | ⟨after, read, behind⟩ | ⟨zero, _⟩
      · have done : c.readChunkSize = (false, c) := by rw [readChunkSize, incomplete]
        refine .moves false c .line (chunk :: chunks) (fun ε σ handler context => ?_) body
          ⟨offset, size⟩ rfl rfl stream rfl (by simp) (fun _ => future)
        rw [step, done]
      · let next : MhdConnection := { c with
          readBuffer := after
          currentChunkOffset := 0
          currentChunkSize := chunk.line.size }
        have done : c.readChunkSize = (!after.isEmpty, next) := by
          rw [readChunkSize, read]
          simp only [Option.getD_some]
          rw [if_neg (by rw [chunk.sized]; omega)]
        refine .moves (!after.isEmpty) next (.data chunk.data) chunks
          (fun ε σ handler context => ?_) (body.congr rfl rfl rfl rfl rfl)
          ⟨chunk.dataSome, ?_⟩ rfl rfl behind ?_ ?_ ?_
        · rw [step, done]
        · simp [next, chunk.sized]
        · simp [payload, Phase.left]
        · intro more
          simpa using more
        · intro empty
          simp only [Bool.not_eq_eq_eq_not, Bool.not_false, List.isEmpty_iff] at empty
          rw [empty, List.nil_append] at behind
          rw [behind]
          simp
      · rw [chunk.sized] at zero
        omega

theorem ChunkedBody.bytesProcessed (body : ChunkedBody c) (n : Nat) :
    c.bytesProcessed n = { c with
      readBuffer := c.readBuffer.drop n
      currentChunkOffset := c.currentChunkOffset + n } := by
  simp only [MhdConnection.bytesProcessed, body.chunked, if_true, if_pos body.unknown]

theorem data_round {inside : List UInt8} (body : ChunkedBody c)
    (holds : (Phase.data inside).Holds c) (some : c.readBuffer ≠ [])
    (stream : c.readBuffer ++ future = inside ++ cr :: lf :: chunksWire chunks last rest) :
    ChunkRound last future rest c.url c.method (inside ++ payload chunks)
      (fun _ _ handler context => chunkStep handler (c, context)) := by
  obtain ⟨insideSome, size⟩ := holds
  have positive := List.length_pos_iff.mpr insideSome
  have within : c.currentChunkOffset < c.currentChunkSize := by omega
  have left : c.currentChunkSize - c.currentChunkOffset = inside.length := by omega
  by_cases few : c.readBuffer.length < inside.length
  · obtain ⟨missing, rfl, later⟩ : ∃ missing, inside = c.readBuffer ++ missing ∧
        future = missing ++ cr :: lf :: chunksWire chunks last rest := by
      rcases List.append_eq_append_iff.mp stream with shape | ⟨tail, longer, _⟩
      · exact shape
      · rw [longer, List.length_append] at few
        omega
    rw [List.length_append] at few size
    have whole : c.readBuffer.take c.readBuffer.length = c.readBuffer := List.take_length
    have nothing : c.readBuffer.drop c.readBuffer.length = [] := List.drop_length
    refine .delivers false c c.readBuffer.length (.data missing) chunks
      (fun ε σ handler context => ?_) body ?_ rfl rfl (by rwa [whole]) ?_ ?_ (by simp) ?_
    · rw [List.length_append] at left
      simp only [chunkStep, if_pos within, left, if_pos few]
    · rw [body.bytesProcessed]
      refine ⟨List.ne_nil_of_length_pos (by omega), ?_⟩
      simp only
      omega
    · rw [nothing, later]
      rfl
    · simp [whole, Phase.left]
    · intro _
      rw [later]
      simp
  · obtain ⟨tail, shape, later⟩ : ∃ tail, c.readBuffer = inside ++ tail ∧
        cr :: lf :: chunksWire chunks last rest = tail ++ future := by
      rcases List.append_eq_append_iff.mp stream with ⟨missing, longer, later⟩ | shape
      · rw [longer, List.length_append] at few
        have none : missing = [] := List.length_eq_zero_iff.mp (by omega)
        rw [none] at longer later
        exact ⟨[], by simpa using longer.symm, by simpa using later.symm⟩
      · exact shape
    have taken : c.readBuffer.take inside.length = inside := by rw [shape, List.take_left]
    have dropped : c.readBuffer.drop inside.length = tail := by rw [shape, List.drop_left]
    have longer : (inside.length < c.readBuffer.length) ↔ tail ≠ [] := by
      rw [shape, List.length_append, ← List.length_pos_iff]
      omega
    refine .delivers (inside.length < c.readBuffer.length) c inside.length .ended chunks
      (fun ε σ handler context => ?_) body ?_ rfl rfl (by rwa [taken]) ?_ ?_ ?_ ?_
    · simp only [chunkStep, if_pos within, left, if_neg few]
    · rw [body.bytesProcessed]
      refine ⟨?_, ?_⟩ <;> simp only <;> omega
    · rw [dropped, ← later]
      rfl
    · simp [taken, Phase.left]
    · intro more
      rw [dropped]
      exact longer.mp (by simpa using more)
    · intro stop
      have empty : tail = [] := by
        by_contra some
        have more := longer.mpr some
        simp [more] at stop
      rw [empty, List.nil_append] at later
      rw [← later]
      simp

/-- The round by the phase, behind the line end of a chunk that has been read. -/
theorem phase_round {phase : Phase} (body : ChunkedBody c) (holds : phase.Holds c)
    (some : c.readBuffer ≠ [])
    (stream : c.readBuffer ++ future = phase.stream (chunksWire chunks last rest)) :
    ChunkRound last future rest c.url c.method (phase.left ++ payload chunks)
      (fun _ _ handler context => bodyStep handler (c, context)) := by
  have chunked : c.haveChunkedUpload = true ∧ c.remainingUploadSize = mhdSizeUnknown :=
    ⟨body.chunked, body.unknown⟩
  have unskipped (notEnded : ¬(c.currentChunkOffset = c.currentChunkSize ∧
      c.currentChunkOffset ≠ 0 ∧ 2 ≤ c.readBuffer.length)) :
      (fun (ε σ : Type) (handler : AccessHandler ε σ) (context : σ) =>
        bodyStep handler (c, context)) =
      fun ε σ handler context => chunkStep handler (c, context) := by
    funext ε σ handler context
    simp only [bodyStep, if_pos chunked, skipChunkEnd, if_neg notEnded]
  cases phase with
  | line =>
      rw [unskipped fun ended => ended.2.1 holds.1]
      exact line_round body holds stream
  | data inside =>
      obtain ⟨insideSome, size⟩ := holds
      have positive := List.length_pos_iff.mpr insideSome
      rw [unskipped fun ended => by omega]
      exact data_round body ⟨insideSome, size⟩ some stream
  | ended =>
      obtain ⟨same, nonzero⟩ := holds
      cases shape : c.readBuffer with
      | nil => exact absurd shape some
      | cons b others =>
          cases others with
          | nil =>
              rw [shape] at stream
              obtain ⟨rfl, later⟩ : b = cr ∧ future = lf :: chunksWire chunks last rest := by
                simpa [Phase.stream] using stream
              rw [unskipped fun ended => by simp [shape] at ended]
              have done : c.readChunkSize = (false, c) := by
                rw [readChunkSize, shape]
                rfl
              refine .moves false c .ended chunks (fun ε σ handler context => ?_) body
                ⟨same, nonzero⟩ rfl rfl (by rw [shape]; exact stream) rfl (by simp)
                (fun _ => by simp [later])
              have notInside : ¬c.currentChunkOffset < c.currentChunkSize := by omega
              simp only [chunkStep, if_neg notInside, done]
          | cons d tail =>
              rw [shape] at stream
              obtain ⟨rfl, rfl, later⟩ : b = cr ∧ d = lf ∧
                  tail ++ future = chunksWire chunks last rest := by
                simpa [Phase.stream] using stream
              let next : MhdConnection := { c with
                readBuffer := tail
                currentChunkOffset := 0
                currentChunkSize := 0 }
              have ended : c.currentChunkOffset = c.currentChunkSize ∧ c.currentChunkOffset ≠ 0 ∧
                  2 ≤ c.readBuffer.length := ⟨same, nonzero, by simp [shape]⟩
              have skipped : c.skipChunkEnd = .some next := by
                rw [skipChunkEnd, if_pos ended]
                simp only [shape, next]
                rfl
              have behind : (fun (ε σ : Type) (handler : AccessHandler ε σ) (context : σ) =>
                  bodyStep handler (c, context)) =
                  fun ε σ handler context => chunkStep handler (next, context) := by
                funext ε σ handler context
                simp only [bodyStep, if_pos chunked, skipped]
              rw [behind]
              exact line_round (c := next) (body.congr rfl rfl rfl rfl rfl) ⟨rfl, rfl⟩ later

/-! The calls for a chunked body. -/

/-- Behind a body that ends in a last chunk, the end of its line may have been left over. -/
def LeftBehind (rest bytes : List UInt8) : Prop := bytes = rest ∨ bytes = cr :: lf :: rest

/-- A run that calls the handler with some data piece by piece, and then for the last time. -/
def Delivers (url method : Text) (rest data : List UInt8)
    (run : (ε σ : Type) → AccessHandler ε σ → σ →
      Except (Halt ε) ((MhdConnection × σ) × List (List UInt8))) : Prop :=
  ∃ pieces : List (List UInt8), (∀ piece ∈ pieces, piece ≠ []) ∧ pieces.flatten = data ∧
    ∀ (ε σ : Type) (handler : AccessHandler ε σ) (fresh ready : σ → Prop) (context : σ),
      Consuming handler url method fresh ready → ready context →
        Serves handler (run ε σ handler context)
          (exchangeWith handler url method (pieces.map .data ++ [.last]) context)
          (fun c later => LeftBehind rest (c.readBuffer ++ later.flatten))

theorem Delivers.congr {url method : Text} {rest data : List UInt8}
    {run other : (ε σ : Type) → AccessHandler ε σ → σ →
      Except (Halt ε) ((MhdConnection × σ) × List (List UInt8))}
    (same : ∀ ε σ handler context, run ε σ handler context = other ε σ handler context)
    (delivers : Delivers url method rest data other) : Delivers url method rest data run := by
  obtain ⟨pieces, nonempty, whole, serves⟩ := delivers
  refine ⟨pieces, nonempty, whole, fun ε σ handler fresh ready context consuming isReady => ?_⟩
  rw [same]
  exact serves ε σ handler fresh ready context consuming isReady

variable {reads : List (List UInt8)} {data : List UInt8}

/-- The empty line behind the last chunk. -/
theorem trailer_leads (state : c.state = .bodyReceived) (closed : c.readClosed = false)
    (stream : c.readBuffer ++ reads.flatten = cr :: lf :: rest ∨
      c.readBuffer = [] ∧ reads.flatten = lf :: cr :: lf :: rest) :
    ∃ after later, LeftBehind rest (after ++ later.flatten) ∧
      Leads c reads { c with state := .footersReceived, readBuffer := after } later := by
  have lines : ReadsLines c := ⟨closed, by simp [state]⟩
  have ends {buffer after : List UInt8} (found : getNextHeaderLine buffer = some ([], after)) :
      ({ c with readBuffer := buffer } : MhdConnection).lineStep =
        (true, { c with state := .footersReceived, readBuffer := after }) := by
    simp only [lineStep, state, bodyReceivedStep, firstLineStep, found]
    rfl
  rcases stream with stream | ⟨empty, stream⟩
  · have clean : Clean [] := by simp [Clean]
    obtain ⟨buffer, after, later, found, behind, leads⟩ := lines.arrives clean stream
    refine ⟨after, later, Or.inl (readsBehind_rest behind stream), leads.trans ?_⟩
    exact ReadsLines.leads (c := { c with readBuffer := buffer }) lines (ends found)
  · have missing : getNextHeaderLine c.readBuffer = none := by rw [empty]; rfl
    induction reads with
    | nil => simp at stream
    | cons read later ih =>
        have moved := @ReadsLines.read c later read lines missing
        rw [empty, List.nil_append] at moved
        cases read with
        | nil =>
            have same : ({ c with readBuffer := [] } : MhdConnection) = c := by rw [← empty]
            rw [same] at moved
            obtain ⟨after, latest, behind, leads⟩ := ih (by simpa using stream)
            exact ⟨after, latest, behind, moved.trans leads⟩
        | cons b after =>
            obtain ⟨rfl, behind⟩ : b = lf ∧ after ++ later.flatten = cr :: lf :: rest := by
              simpa using stream
            have found : getNextHeaderLine (lf :: after) = some ([], after) := by
              cases after <;> simp [getNextHeaderLine, lf, cr]
            refine ⟨after, later, Or.inr behind, moved.trans ?_⟩
            exact ReadsLines.leads (c := { c with readBuffer := lf :: after }) lines (ends found)

theorem finished_delivers {next : MhdConnection} (sent : next.state = .continueSent)
    (unqueued : next.response = none) (reading : next.readClosed = false)
    (chunked : next.haveChunkedUpload = true) (zero : next.remainingUploadSize = 0)
    (stream : next.readBuffer ++ reads.flatten = cr :: lf :: rest ∨
      next.readBuffer = [] ∧ reads.flatten = lf :: cr :: lf :: rest) :
    Delivers next.url next.method rest []
      (fun _ _ handler context => finishBody handler reads (next, context)) := by
  let received : MhdConnection := { next with state := .bodyReceived }
  obtain ⟨after, later, behind, leads⟩ :=
    trailer_leads (c := received) rfl reading stream
  refine ⟨[], by simp, rfl, fun ε σ handler fresh ready context _ _ => ?_⟩
  have done : next.bodyProcessed = (true, received) := by
    simp [bodyProcessed, sent, zero, chunked, reading, received]
  simp only [finishBody, done, if_true]
  rw [leads ε σ handler context]
  exact last_serves (c := { received with state := .footersReceived, readBuffer := after }) rfl
    unqueued behind fun _ => behind

theorem ChunkedBody.stays (body : ChunkedBody c) : c.bodyProcessed = (false, c) := by
  simp [bodyProcessed, body.sent, body.unknown, body.reading, mhdSizeUnknown, uint64Max]

theorem ChunkedBody.finishBody {ε σ : Type} (body : ChunkedBody c) (handler : AccessHandler ε σ)
    (context : σ) : finishBody handler reads (c, context) = receive handler reads (c, context) := by
  have stays := body.stays
  simp only [MhdConnection.finishBody, stays, Bool.false_eq_true, if_false]

/-- With nothing in the buffer a round leaves the connection as it is. -/
theorem ChunkedBody.idle {ε σ : Type} (body : ChunkedBody c) (empty : c.readBuffer = [])
    (handler : AccessHandler ε σ) (context : σ) :
    resume handler (c, context) reads = receive handler reads (c, context) := by
  have stays := body.stays
  apply resume_stop
  simp only [idleStep, body.sent, if_pos empty, ok_bind, stays]
  rfl

theorem ChunkedBody.receive_read {ε σ : Type} (body : ChunkedBody c) (read : List UInt8)
    (handler : AccessHandler ε σ) (context : σ) :
    receive handler (read :: reads) (c, context) =
      resume handler ({ c with readBuffer := c.readBuffer ++ read }, context) reads := by
  have wants : c.wantsRead = true := by simp [wantsRead, body.sent, body.reading]
  exact @MhdConnection.receive_read _ _ handler (c, context) reads read wants

theorem waiting_delivers {next : MhdConnection} {read : List UInt8} (body : ChunkedBody next)
    (some : next.readBuffer ++ read ≠ [])
    (delivers : Delivers next.url next.method rest data (fun _ _ handler context =>
      resumeBody handler ({ next with readBuffer := next.readBuffer ++ read }, context) reads)) :
    Delivers next.url next.method rest data
      (fun _ _ handler context => finishBody handler (read :: reads) (next, context)) := by
  refine delivers.congr fun ε σ handler context => ?_
  rw [body.finishBody, body.receive_read]
  exact resume_body body.sent body.unqueued some

/-- A round that brings nothing, while nothing is in the buffer. -/
theorem nothing_delivers {next : MhdConnection} (body : ChunkedBody next)
    (empty : next.readBuffer = [])
    (delivers : Delivers next.url next.method rest data
      (fun _ _ handler context => finishBody handler reads (next, context))) :
    Delivers next.url next.method rest data
      (fun _ _ handler context => finishBody handler ([] :: reads) (next, context)) := by
  refine delivers.congr fun ε σ handler context => ?_
  rw [body.finishBody, body.finishBody, body.receive_read, List.append_nil]
  exact body.idle empty handler context

/-- A handler that takes everything, to see what a round does with the buffer. -/
def takeAll : AccessHandler Unit Unit :=
  fun _ _ _ context => .ok { answer := .yes, uploadDataSize := 0, context := context }

theorem takeAll_deliver {middle : MhdConnection} (body : ChunkedBody middle) (n : Nat)
    (again : Bool) :
    deliver takeAll n again (middle, ()) = .ok (again, middle.bytesProcessed n, ()) := by
  simp only [deliver, takeAll, orHalt, ok_bind, takeAnswer, body.sent, reduceCtorEq, if_false,
    Nat.not_lt_zero, beq_self_eq_true, Bool.and_true, Nat.sub_zero]

/-- What is left to do after a round with `next` behind it. -/
theorem continue_delivers {again : Bool} {next : MhdConnection} {phase : Phase}
    (body : ChunkedBody next) (holds : phase.Holds next)
    (stream : next.readBuffer ++ reads.flatten = phase.stream (chunksWire chunks last rest))
    (more : again = true → next.readBuffer ≠ []) (waits : again = false → reads.flatten ≠ [])
    (shorter : next.readBuffer.length ≤ c.readBuffer.length)
    (uses : again = true → next.readBuffer.length < c.readBuffer.length)
    (ih : ∀ (following : MhdConnection) (left : List (List UInt8)),
      following.readBuffer.length + left.flatten.length + left.length <
        c.readBuffer.length + reads.flatten.length + reads.length →
      ChunkedBody following → phase.Holds following → following.readBuffer ≠ [] →
      following.readBuffer ++ left.flatten = phase.stream (chunksWire chunks last rest) →
      Delivers following.url following.method rest (phase.left ++ payload chunks)
        (fun _ _ handler context => resumeBody handler (following, context) left)) :
    Delivers next.url next.method rest (phase.left ++ payload chunks) (fun _ _ handler context =>
      if again then resumeBody handler (next, context) reads
      else finishBody handler reads (next, context)) := by
  cases again with
  | true => exact ih next reads (by have := uses rfl; omega) body holds (more rfl) stream
  | false =>
      replace waits := waits rfl
      clear more uses
      induction reads with
      | nil => exact absurd rfl waits
      | cons read later ihReads =>
          by_cases nothing : next.readBuffer ++ read = []
          · obtain ⟨empty, rfl⟩ := List.append_eq_nil_iff.mp nothing
            refine nothing_delivers body empty (ihReads stream (fun following left less => ?_) waits)
            refine ih following left ?_
            simp only [List.flatten_cons, List.nil_append, List.length_cons]
            omega
          apply waiting_delivers body nothing
          refine ih { next with readBuffer := next.readBuffer ++ read } later ?_
            (body.congr rfl rfl rfl rfl rfl) ?_ nothing ?_
          · simp only [List.length_append, List.flatten_cons, List.length_cons]
            omega
          · cases phase <;> exact holds
          · simpa using stream

theorem chunked_delivers (phase : Phase) (body : ChunkedBody c) (holds : phase.Holds c)
    (some : c.readBuffer ≠ [])
    (stream : c.readBuffer ++ reads.flatten = phase.stream (chunksWire chunks last rest)) :
    Delivers c.url c.method rest (phase.left ++ payload chunks)
      (fun _ _ handler context => resumeBody handler (c, context) reads) := by
  generalize bound : c.readBuffer.length + reads.flatten.length + reads.length = size
  induction size using Nat.strongRecOn generalizing c phase chunks reads with
  | ind size ih =>
      have ih (phase : Phase) (chunks : List Chunk) (following : MhdConnection)
          (left : List (List UInt8))
          (less : following.readBuffer.length + left.flatten.length + left.length <
            c.readBuffer.length + reads.flatten.length + reads.length)
          (body : ChunkedBody following) (holds : phase.Holds following)
          (some : following.readBuffer ≠ [])
          (stream : following.readBuffer ++ left.flatten =
            phase.stream (chunksWire chunks last rest)) :
          Delivers following.url following.method rest (phase.left ++ payload chunks)
            (fun _ _ handler context => resumeBody handler (following, context) left) :=
        ih _ (bound ▸ less) phase body holds some stream rfl
      cases phase_round body holds some stream with
      | moves again next following chunks stepped nextBody nextHolds sameUrl sameMethod nextStream
          same more waits =>
          have round := bodyStep_round (stepped Unit Unit takeAll ())
          rw [same, ← sameUrl, ← sameMethod]
          have delivers := continue_delivers nextBody nextHolds nextStream more waits
            round.shorter round.uses (ih following chunks)
          refine delivers.congr fun ε σ handler context => ?_
          cases again with
          | true => exact resumeBody_again (stepped ε σ handler context)
          | false => exact resumeBody_stop (stepped ε σ handler context)
      | delivers again middle n following chunks stepped middleBody nextHolds sameUrl sameMethod
          pieceSome nextStream same more waits =>
          have round := bodyStep_round ((stepped Unit Unit takeAll ()).trans
            (takeAll_deliver middleBody n again))
          have processed := middleBody.bytesProcessed n
          have nextBody : ChunkedBody (middle.bytesProcessed n) := by
            rw [processed]
            exact middleBody.congr rfl rfl rfl rfl rfl
          obtain ⟨pieces, someLater, whole, serves⟩ := continue_delivers nextBody nextHolds
            nextStream more waits round.shorter round.uses (ih following chunks)
          refine ⟨middle.readBuffer.take n :: pieces, ?_, ?_, ?_⟩
          · intro piece member
            rcases List.mem_cons.mp member with rfl | later
            · exact pieceSome
            · exact someLater piece later
          · rw [List.flatten_cons, whole, same]
          · intro ε σ handler fresh ready context consuming isReady
            rw [← sameUrl, ← sameMethod] at consuming ⊢
            rw [List.map_cons, List.cons_append]
            exact deliver_serves consuming isReady middleBody.sent pieceSome
              (stepped ε σ handler context) fun after isReady =>
                serves ε σ handler fresh ready after consuming isReady
      | finishes next stepped sent unqueued reading chunked zero sameUrl sameMethod same
          nextStream =>
          rw [same, ← sameUrl, ← sameMethod]
          exact (finished_delivers sent unqueued reading chunked zero nextStream).congr
            fun ε σ handler context => resumeBody_stop (stepped ε σ handler context)

/-- A chunked body from its first size line. -/
theorem chunked_resume (body : ChunkedBody c) (holds : Phase.line.Holds c)
    (stream : c.readBuffer ++ reads.flatten = chunksWire chunks last rest) :
    Delivers c.url c.method rest (payload chunks)
      (fun _ _ handler context => resume handler (c, context) reads) := by
  by_cases empty : c.readBuffer = []
  · have waits : reads.flatten ≠ [] := by
      intro nothing
      rw [empty, nothing] at stream
      exact absurd stream.symm (chunksWire_ne_nil chunks last rest)
    have delivers := @continue_delivers rest c last chunks reads false c .line body holds stream
      (by simp) (fun _ => waits) (le_refl _) (by simp) fun following left _ body holds some stream =>
        chunked_delivers .line body holds some stream
    refine delivers.congr fun ε σ handler context => ?_
    rw [body.idle empty, ← body.finishBody]
    rfl
  · refine (chunked_delivers .line body holds empty stream).congr
      fun ε σ handler context => ?_
    exact resume_body body.sent body.unqueued empty

end MhdConnection

end SmartPay
