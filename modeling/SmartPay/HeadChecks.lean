import SmartPay.MicrohttpdSteps

/-!
The head of a request comes through however its bytes are split into reads: the
request line and the header fields that the client has written are what the
connection has when it comes to the body, and the rest of the bytes is untouched.
-/

namespace SmartPay

open CLib

namespace MhdConnection

section Resume

variable {ε σ : Type} {handler : AccessHandler ε σ} {state next : MhdConnection × σ}
  {reads : List (List UInt8)}

/-- The rest of a run in the middle of `MHD_connection_handle_idle`. -/
def resume (handler : AccessHandler ε σ) (state : MhdConnection × σ) (reads : List (List UInt8)) :
    Except (Halt ε) ((MhdConnection × σ) × List (List UInt8)) :=
  handleIdle handler state >>= receive handler reads

theorem resume_again (stepped : idleStep handler state = .ok (true, next)) :
    resume handler state reads = resume handler next reads := by
  simp only [resume, handleIdle, loop_again (idleStep_decreases handler) stepped]

theorem resume_stop (stepped : idleStep handler state = .ok (false, next)) :
    resume handler state reads = receive handler reads next := by
  simp only [resume, handleIdle, loop_stop stepped, ok_bind]

theorem resume_fault {fault : Halt ε} (stepped : idleStep handler state = .error fault) :
    resume handler state reads = .error fault := by
  simp only [resume, handleIdle, loop_fault stepped]
  rfl

/-- A round with nothing to read is like a read of no bytes. -/
theorem receive_read {read : List UInt8} (wants : state.1.wantsRead = true) :
    receive handler (read :: reads) state = resume handler
      ({ state.1 with readBuffer := state.1.readBuffer ++ read }, state.2) reads := by
  have alive : state.1.state ≠ .closed := by
    intro closed
    simp [wantsRead, closed] at wants
  have unended : state.1.ended = false := by
    have silent : state.1.state ≠ .headersSending := by
      intro sending
      simp [wantsRead, sending] at wants
    simp [ended, alive, silent]
  rw [receive, unended]
  by_cases empty : read = []
  · rw [empty, List.append_nil]
    rfl
  · simp only [Bool.false_eq_true, if_false, if_neg empty, wants, if_true, handleRead, if_neg alive]
    rfl

theorem receive_ended (ended : state.1.ended = true) :
    receive handler reads state = .ok (state, reads) := by
  cases reads with
  | nil => rfl
  | cons read rest => simp only [receive, ended, if_true]

end Resume

/-- The run goes on in the same way from both, whatever the handler does. -/
def Leads (first : MhdConnection) (reads : List (List UInt8)) (second : MhdConnection)
    (later : List (List UInt8)) : Prop :=
  ∀ (ε σ : Type) (handler : AccessHandler ε σ) (context : σ),
    resume handler (first, context) reads = resume handler (second, context) later

variable {c next : MhdConnection} {reads : List (List UInt8)}

theorem Leads.refl (c : MhdConnection) (reads : List (List UInt8)) : Leads c reads c reads :=
  fun _ _ _ _ => rfl

theorem Leads.trans {second third : MhdConnection} {later last : List (List UInt8)}
    (first : Leads c reads second later) (rest : Leads second later third last) :
    Leads c reads third last :=
  fun ε σ handler context => (first ε σ handler context).trans (rest ε σ handler context)

/-- The step of a state that makes no call. -/
def lineStep (c : MhdConnection) : Bool × MhdConnection :=
  match c.state with
  | .init => c.initStep
  | .urlReceived => c.urlReceivedStep
  | .headerPartReceived => c.headerPartReceivedStep
  | .bodyReceived => c.bodyReceivedStep
  | _ => c.footerPartReceivedStep

def ReadsLines (c : MhdConnection) : Prop :=
  c.readClosed = false ∧
    c.state ∈ [.init, .urlReceived, .headerPartReceived, .bodyReceived, .footerPartReceived]

theorem ReadsLines.idleStep {ε σ : Type} (lines : ReadsLines c) (handler : AccessHandler ε σ)
    (context : σ) : idleStep handler (c, context) = withContext context c.lineStep := by
  obtain ⟨_, state⟩ := lines
  simp only [List.mem_cons, List.not_mem_nil, or_false] at state
  rcases state with state | state | state | state | state <;>
    simp only [MhdConnection.idleStep, lineStep, state]

theorem ReadsLines.leads (lines : ReadsLines c) (stepped : c.lineStep = (true, next)) :
    Leads c reads next reads := by
  intro ε σ handler context
  apply resume_again
  rw [lines.idleStep, stepped]
  rfl

theorem ReadsLines.waits (lines : ReadsLines c) (missing : getNextHeaderLine c.readBuffer = none) :
    c.lineStep = (false, c) := by
  obtain ⟨closed, state⟩ := lines
  simp only [List.mem_cons, List.not_mem_nil, or_false] at state
  rcases state with state | state | state | state | state <;>
    simp [lineStep, state, initStep, urlReceivedStep, headerPartReceivedStep, bodyReceivedStep,
      footerPartReceivedStep, firstLineStep, laterLineStep, missing, waitLine, closed]

theorem ReadsLines.read {read : List UInt8} (lines : ReadsLines c)
    (missing : getNextHeaderLine c.readBuffer = none) :
    Leads c (read :: reads) { c with readBuffer := c.readBuffer ++ read } reads := by
  intro ε σ handler context
  obtain ⟨closed, state⟩ := lines
  have wants : c.wantsRead = true := by
    simp only [List.mem_cons, List.not_mem_nil, or_false] at state
    rcases state with state | state | state | state | state <;> simp [wantsRead, closed, state]
  have stepped : MhdConnection.idleStep handler (c, context) = .ok (false, c, context) := by
    rw [ReadsLines.idleStep ⟨closed, state⟩, ReadsLines.waits ⟨closed, state⟩ missing]
    rfl
  rw [resume_stop stepped, receive_read wants]

end MhdConnection

/-! A line as the client writes it. -/

def Clean (line : List UInt8) : Prop := ∀ b ∈ line, isEol b = false

instance (line : List UInt8) : Decidable (Clean line) :=
  decidable_of_iff ((line.all fun b => !isEol b) = true) (by simp [Clean])

theorem getNextHeaderLine_cases {buffer future line rest : List UInt8} (clean : Clean line)
    (same : buffer ++ future = line ++ cr :: lf :: rest) :
    (getNextHeaderLine buffer = none ∧ future.length > rest.length) ∨
      ∃ after, getNextHeaderLine buffer = some (line, after) ∧ after ++ future = rest := by
  induction line generalizing buffer with
  | nil =>
      match buffer, same with
      | [], same =>
          left
          simp only [List.nil_append] at same
          simp [getNextHeaderLine, same]
      | [c], same =>
          left
          simp only [List.nil_append, List.cons_append, List.cons.injEq] at same
          obtain ⟨rfl, rfl⟩ := same
          simp [getNextHeaderLine, cr, lf]
      | c :: d :: after, same =>
          right
          simp only [List.nil_append, List.cons_append, List.cons.injEq] at same
          obtain ⟨rfl, rfl, same⟩ := same
          exact ⟨after, by simp [getNextHeaderLine], same⟩
  | cons b line ih =>
      have notEol : isEol b = false := clean b (by simp)
      simp only [isEol, Bool.or_eq_false_iff, beq_eq_false_iff_ne, ne_eq] at notEol
      have cleanRest : Clean line := fun other member => clean other (by simp [member])
      cases buffer with
      | nil =>
          left
          simp only [List.nil_append] at same
          refine ⟨rfl, ?_⟩
          rw [same]
          simp only [List.length_append, List.length_cons]
          omega
      | cons c buffer =>
          simp only [List.cons_append, List.cons.injEq] at same
          obtain ⟨rfl, same⟩ := same
          have cases := ih cleanRest same
          cases buffer with
          | nil =>
              left
              simp only [List.nil_append] at same
              refine ⟨by simp [getNextHeaderLine, notEol.2], ?_⟩
              rw [same]
              simp only [List.length_append, List.length_cons]
              omega
          | cons d buffer =>
              simp only [getNextHeaderLine, if_neg notEol.1, if_neg notEol.2]
              rcases cases with ⟨missing, longer⟩ | ⟨after, found, rest⟩
              · exact Or.inl ⟨by rw [missing]; rfl, longer⟩
              · exact Or.inr ⟨after, by rw [found]; rfl, rest⟩

namespace MhdConnection

variable {c : MhdConnection} {reads : List (List UInt8)}

/-- The reads that are left behind the first `n` bytes. The first of them is what is left of the
read in which these bytes end. -/
def readsBehind : Nat → List (List UInt8) → List (List UInt8)
  | _, [] => []
  | n, read :: reads =>
      if n ≤ read.length then read.drop n :: reads else readsBehind (n - read.length) reads

theorem readsBehind_flatten (n : Nat) (reads : List (List UInt8)) :
    (readsBehind n reads).flatten = reads.flatten.drop n := by
  induction reads generalizing n with
  | nil => simp [readsBehind]
  | cons read reads ih =>
      rw [readsBehind, List.flatten_cons]
      split
      · rename_i inside
        rw [List.flatten_cons, List.drop_append_of_le_length inside]
      · rename_i outside
        rw [ih, List.drop_append, List.drop_eq_nil_of_le (le_of_not_ge outside), List.nil_append]

theorem readsBehind_readsBehind (m n : Nat) (reads : List (List UInt8)) :
    readsBehind m (readsBehind n reads) = readsBehind (n + m) reads := by
  induction reads generalizing n with
  | nil => rfl
  | cons read reads ih =>
      simp only [readsBehind]
      by_cases inside : n ≤ read.length
      · rw [if_pos inside, readsBehind, List.length_drop, List.drop_drop]
        by_cases still : n + m ≤ read.length
        · rw [if_pos still, if_pos (by omega)]
        · rw [if_neg still, if_neg (by omega),
            show m - (read.length - n) = n + m - read.length by omega]
      · rw [if_neg inside, if_neg (by omega), ih,
          show n - read.length + m = n + m - read.length by omega]

theorem readsBehind_start {n : Nat} (positive : 0 < n) (reads : List (List UInt8)) :
    readsBehind n ([] :: reads) = readsBehind n reads := by
  rw [readsBehind, if_neg (by simpa using positive.ne'), List.length_nil, Nat.sub_zero]

/-- A read is taken into a buffer that ends before them. -/
theorem readsBehind_merge {n : Nat} {buffer : List UInt8} (short : buffer.length < n)
    (read : List UInt8) (reads : List (List UInt8)) :
    readsBehind n ((buffer ++ read) :: reads) = readsBehind n (buffer :: read :: reads) := by
  have outside : ¬n ≤ buffer.length := by omega
  rw [readsBehind, readsBehind, if_neg outside, readsBehind, List.length_append, List.drop_append,
    List.drop_eq_nil_of_le short.le, List.nil_append]
  by_cases inside : n ≤ buffer.length + read.length
  · rw [if_pos inside, if_pos (by omega)]
  · rw [if_neg inside, if_neg (by omega),
      show n - (buffer.length + read.length) = n - buffer.length - read.length by omega]

theorem readsBehind_rest {buffer after front rest : List UInt8} {later : List (List UInt8)}
    (behind : after :: later = readsBehind front.length (buffer :: reads))
    (same : buffer ++ reads.flatten = front ++ rest) : after ++ later.flatten = rest := by
  have flat := congrArg List.flatten behind
  rwa [readsBehind_flatten, List.flatten_cons, List.flatten_cons, same, List.drop_left] at flat

/-- A line that has come in whole. -/
theorem readsBehind_line {buffer line after rest : List UInt8} {reads : List (List UInt8)}
    (same : buffer ++ reads.flatten = line ++ cr :: lf :: rest)
    (tail : after ++ reads.flatten = rest) :
    after :: reads = readsBehind (line ++ [cr, lf]).length (buffer :: reads) := by
  have split : buffer = (line ++ [cr, lf]) ++ after := by
    rw [← tail] at same
    exact List.append_cancel_right (by simpa using same)
  rw [split, readsBehind, if_pos (by simp), List.drop_left]

/-- The connection waits until the line is there. -/
theorem ReadsLines.arrives {line rest : List UInt8} (lines : ReadsLines c) (clean : Clean line)
    (same : c.readBuffer ++ reads.flatten = line ++ cr :: lf :: rest) :
    ∃ buffer after later, getNextHeaderLine buffer = .some (line, after) ∧
      after :: later = readsBehind (line ++ [cr, lf]).length (c.readBuffer :: reads) ∧
      Leads c reads { c with readBuffer := buffer } later := by
  induction reads generalizing c with
  | nil =>
      rcases getNextHeaderLine_cases clean same with ⟨_, longer⟩ | ⟨after, found, tail⟩
      · simp at longer
      · exact ⟨c.readBuffer, after, [], found, readsBehind_line same tail, Leads.refl c []⟩
  | cons read reads ih =>
      rcases getNextHeaderLine_cases clean same with ⟨missing, longer⟩ | ⟨after, found, tail⟩
      · have moved : Leads c (read :: reads) { c with readBuffer := c.readBuffer ++ read } reads :=
          lines.read missing
        have sameLater : c.readBuffer ++ read ++ reads.flatten = line ++ cr :: lf :: rest := by
          rw [← same]
          simp
        have short : c.readBuffer.length < (line ++ [cr, lf]).length := by
          have lengths := congrArg List.length same
          simp only [List.length_append, List.length_cons, List.length_nil] at lengths longer ⊢
          omega
        obtain ⟨buffer, after, later, found, behind, leads⟩ :=
          @ih { c with readBuffer := c.readBuffer ++ read } lines sameLater
        rw [readsBehind_merge short] at behind
        exact ⟨buffer, after, later, found, behind, moved.trans leads⟩
      · exact ⟨c.readBuffer, after, read :: reads, found, readsBehind_line same tail,
          Leads.refl c _⟩

end MhdConnection

/-! The head of a request. -/

structure HeaderField where
  name : Text
  gap : List UInt8
  value : Text
  nameSome : name.bytes ≠ []
  nameFirst : isBlank (name.bytes.headD 0) = false
  nameClean : Clean name.bytes
  nameColon : 58 ∉ name.bytes
  gapBlank : ∀ b ∈ gap, isBlank b = true
  valueFirst : isBlank (value.bytes.headD 0) = false
  valueClean : Clean value.bytes

def HeaderField.line (field : HeaderField) : List UInt8 :=
  field.name.bytes ++ 58 :: (field.gap ++ field.value.bytes)

def HeaderField.entry (field : HeaderField) : MhdHttpHeader :=
  { kind := .header, header := field.name, value := field.value }

structure Token where
  text : Text
  some : text.bytes ≠ []
  clean : Clean text.bytes
  spaceFree : 32 ∉ text.bytes

structure RequestHead where
  method : Token
  target : Token
  version : Token
  fields : List HeaderField

namespace RequestHead

def requestLine (head : RequestHead) : List UInt8 :=
  head.method.text.bytes ++ 32 :: (head.target.text.bytes ++ 32 :: head.version.text.bytes)

def fieldLines (fields : List HeaderField) : List UInt8 :=
  fields.flatMap fun field => field.line ++ [cr, lf]

def wire (head : RequestHead) : List UInt8 :=
  head.requestLine ++ [cr, lf] ++ fieldLines head.fields ++ [cr, lf]

/-- The path of the target, unescaped. -/
def url (head : RequestHead) : Text :=
  Text.ofBytes (httpUnescape (head.target.text.bytes.takeWhile (· ≠ 63)))

end RequestHead

/-! Its parts. -/

theorem takeWhile_stop {p : UInt8 → Bool} {first rest : List UInt8} {b : UInt8}
    (all : ∀ x ∈ first, p x = true) (stop : p b = false) :
    (first ++ b :: rest).takeWhile p = first := by
  rw [List.takeWhile_append_of_pos all, List.takeWhile_cons_of_neg (by simp [stop]),
    List.append_nil]

theorem dropWhile_stop {p : UInt8 → Bool} {first rest : List UInt8} {b : UInt8}
    (all : ∀ x ∈ first, p x = true) (stop : p b = false) :
    (first ++ b :: rest).dropWhile p = b :: rest := by
  rw [List.dropWhile_append_of_pos all, List.dropWhile_cons_of_neg (by simp [stop])]

theorem Text.ofBytes_sublist {bytes : List UInt8} (nulFree : 0 ∉ bytes) :
    (Text.ofBytes bytes).bytes = bytes :=
  congrArg Text.bytes (Text.ofBytes_bytes ⟨bytes, nulFree⟩)

theorem HeaderField.line_clean (field : HeaderField) : Clean field.line := by
  intro b member
  simp only [HeaderField.line, List.mem_append, List.mem_cons] at member
  rcases member with inName | rfl | inGap | inValue
  · exact field.nameClean b inName
  · rfl
  · have blank := field.gapBlank b inGap
    simp only [isBlank, Bool.or_eq_true, beq_iff_eq] at blank
    rcases blank with rfl | rfl <;> rfl
  · exact field.valueClean b inValue

theorem HeaderField.line_first (field : HeaderField) :
    isBlank (field.line.headD 0) = false ∧ emptyLine field.line = false := by
  obtain ⟨b, rest, shape⟩ := List.exists_cons_of_ne_nil field.nameSome
  have first : field.line.headD 0 = field.name.bytes.headD 0 := by
    simp [HeaderField.line, shape]
  have nonzero : field.name.bytes.headD 0 ≠ 0 := by
    intro zero
    apply field.name.nulFree
    rw [shape] at zero ⊢
    exact zero ▸ List.mem_cons_self
  refine ⟨first ▸ field.nameFirst, ?_⟩
  rw [emptyLine, first]
  exact beq_eq_false_iff_ne.mpr nonzero

theorem HeaderField.processHeaderLine (field : HeaderField) :
    processHeaderLine field.line = some (field.name, field.value) := by
  have nulFree : 0 ∉ field.line := by
    intro member
    simp only [HeaderField.line, List.mem_append, List.mem_cons] at member
    rcases member with inName | zero | inGap | inValue
    · exact field.name.nulFree inName
    · cases zero
    · have blank := field.gapBlank 0 inGap
      cases blank
    · exact field.value.nulFree inValue
  have notColon : ∀ b ∈ field.name.bytes, decide (b ≠ 58) = true := by
    intro b member
    simpa using fun equal : b = 58 => field.nameColon (equal ▸ member)
  have whole : (Text.ofBytes field.line).bytes = field.line := Text.ofBytes_sublist nulFree
  have colon : 58 ∈ field.line := by simp [HeaderField.line]
  have value : (field.gap ++ field.value.bytes).dropWhile isBlank = field.value.bytes := by
    rw [List.dropWhile_append_of_pos field.gapBlank]
    have first := field.valueFirst
    cases shape : field.value.bytes with
    | nil => rfl
    | cons b rest =>
        rw [shape] at first
        exact List.dropWhile_cons_of_neg (by simpa using first)
  simp only [SmartPay.processHeaderLine, whole, if_pos colon]
  rw [HeaderField.line, takeWhile_stop notColon (by decide), dropWhile_stop notColon (by decide),
    List.tail_cons, value, Text.ofBytes_bytes, Text.ofBytes_bytes]

theorem rdropWhile_stop {p : UInt8 → Bool} {first rest : List UInt8} {b : UInt8}
    (all : ∀ x ∈ rest, p x = true) (stop : p b = false) :
    (first ++ b :: rest).rdropWhile p = first ++ [b] := by
  have reversed : (first ++ b :: rest).reverse = rest.reverse ++ b :: first.reverse := by simp
  rw [List.rdropWhile, reversed,
    dropWhile_stop (fun x member => all x (by simpa using member)) stop]
  simp

theorem RequestHead.parseInitialMessageLine (head : RequestHead) :
    parseInitialMessageLine head.requestLine =
      some (head.method.text, head.url, head.version.text) := by
  have word (token : Token) : ∀ b ∈ token.text.bytes, decide (b ≠ 32) = true := by
    intro b member
    simpa using fun equal : b = 32 => token.spaceFree (equal ▸ member)
  have space : 32 ∈ head.requestLine := by simp [RequestHead.requestLine]
  let uri := head.target.text.bytes ++ 32 :: head.version.text.bytes
  have method : head.requestLine.takeWhile (· ≠ 32) = head.method.text.bytes :=
    takeWhile_stop (word head.method) (by decide)
  have behind : (head.requestLine.dropWhile (· ≠ 32)).dropWhile (· = 32) = uri := by
    rw [RequestHead.requestLine, dropWhile_stop (word head.method) (by decide)]
    obtain ⟨b, rest, shape⟩ := List.exists_cons_of_ne_nil head.target.some
    have first := word head.target b (by simp [shape])
    simp only [decide_eq_true_eq] at first
    rw [List.dropWhile_cons_of_pos (by decide), shape, List.cons_append,
      List.dropWhile_cons_of_neg (by simpa using first), ← List.cons_append, ← shape]
  have untrimmed : uri.rdropWhile (· = 32) = uri := by
    rw [List.rdropWhile_eq_self_iff]
    intro some
    have last : uri.getLast some = head.version.text.bytes.getLast head.version.some := by
      simp only [uri]
      rw [List.getLast_append_of_ne_nil _ (List.cons_ne_nil _ _),
        List.getLast_cons head.version.some]
    rw [last]
    simpa using word head.version _ (List.getLast_mem head.version.some)
  have spaced : uri.rdropWhile (· ≠ 32) = head.target.text.bytes ++ [32] :=
    rdropWhile_stop (word head.version) (by decide)
  have pathFree : 0 ∉ head.target.text.bytes.takeWhile (· ≠ 63) :=
    fun member => head.target.text.nulFree (List.takeWhile_subset _ member)
  simp only [SmartPay.parseInitialMessageLine, if_pos space, method, behind, untrimmed, spaced,
    List.append_eq_nil_iff, List.cons_ne_nil, and_false, if_false, List.dropLast_concat,
    List.length_append, List.length_singleton, Text.ofBytes_sublist pathFree, Text.ofBytes_bytes,
    RequestHead.url]
  have version : uri.drop (head.target.text.bytes.length + 1) = head.version.text.bytes := by
    simp only [uri]
    rw [← List.drop_drop, List.drop_left, List.drop_succ_cons, List.drop_zero]
  rw [version, Text.ofBytes_bytes]

/-! The run over the head. -/

namespace MhdConnection

variable {c : MhdConnection} {reads : List (List UInt8)} {rest : List UInt8}

theorem emptyLine_headersReceived {after : List UInt8} (state : c.state = .headerPartReceived)
    (found : getNextHeaderLine c.readBuffer = some ([], after)) :
    c.lineStep = (true, { c with
      state := .headersReceived
      readBuffer := after
      headersReceived := c.headersReceived ++
        [{ kind := .header, header := c.last, value := c.colon }] }) := by
  simp only [lineStep, state, headerPartReceivedStep, laterLineStep, found]
  rfl

theorem field_headersReceived {field : HeaderField} {after : List UInt8}
    (state : c.state = .headerPartReceived)
    (found : getNextHeaderLine c.readBuffer = some (field.line, after)) :
    c.lineStep = (true, { c with
      readBuffer := after
      headersReceived := c.headersReceived ++
        [{ kind := .header, header := c.last, value := c.colon }]
      last := field.name
      colon := field.value }) := by
  obtain ⟨notBlank, notEmpty⟩ := field.line_first
  simp only [lineStep, state, headerPartReceivedStep, laterLineStep, found, processBrokenLine,
    notBlank, notEmpty, Bool.false_eq_true, if_false, field.processHeaderLine]

theorem fields_lead {fields : List HeaderField} (state : c.state = .headerPartReceived)
    (closed : c.readClosed = false)
    (same : c.readBuffer ++ reads.flatten = RequestHead.fieldLines fields ++ cr :: lf :: rest) :
    ∃ last colon after later,
      after :: later =
        readsBehind (RequestHead.fieldLines fields ++ [cr, lf]).length (c.readBuffer :: reads) ∧
      Leads c reads { c with
        state := .headersReceived
        readBuffer := after
        last := last
        colon := colon
        headersReceived := c.headersReceived ++
          { kind := .header, header := c.last, value := c.colon } ::
            fields.map HeaderField.entry } later := by
  have lines : ReadsLines c := ⟨closed, by simp [state]⟩
  induction fields generalizing c reads with
  | nil =>
      have clean : Clean [] := by simp [Clean]
      obtain ⟨buffer, after, later, found, behind, leads⟩ := lines.arrives clean same
      refine ⟨c.last, c.colon, after, later, behind, leads.trans ?_⟩
      exact ReadsLines.leads (c := { c with readBuffer := buffer }) lines
        (emptyLine_headersReceived state found)
  | cons field fields ih =>
      have sameLine : c.readBuffer ++ reads.flatten =
          field.line ++ cr :: lf :: (RequestHead.fieldLines fields ++ cr :: lf :: rest) := by
        rw [same]
        simp [RequestHead.fieldLines]
      obtain ⟨buffer, after, later, found, behind, leads⟩ :=
        lines.arrives field.line_clean sameLine
      have stepped := field_headersReceived (c := { c with readBuffer := buffer }) state found
      have tail := readsBehind_rest behind (by simpa using sameLine)
      obtain ⟨last, colon, final, latest, behindFinal, leadsLater⟩ :=
        @ih { c with
          readBuffer := after
          headersReceived := c.headersReceived ++
            [{ kind := .header, header := c.last, value := c.colon }]
          last := field.name
          colon := field.value } later state closed tail lines
      refine ⟨last, colon, final, latest, ?_, ?_⟩
      · rw [behindFinal, behind, readsBehind_readsBehind, ← List.length_append]
        simp only [RequestHead.fieldLines, List.flatMap_cons, List.append_assoc]
      · refine leads.trans ((ReadsLines.leads (c := { c with readBuffer := buffer }) lines
          stepped).trans ?_)
        simpa [HeaderField.entry] using leadsLater

/-- The connection when the head has come through. -/
def afterHead (head : RequestHead) (last colon : Text) (readBuffer : List UInt8) : MhdConnection :=
  { start with
    state := .headersReceived
    readBuffer := readBuffer
    method := head.method.text
    url := head.url
    version := head.version.text
    last := last
    colon := colon
    headersReceived := head.fields.map HeaderField.entry }

theorem requestLine_received {head : RequestHead} {after : List UInt8} (state : c.state = .init)
    (found : getNextHeaderLine c.readBuffer = some (head.requestLine, after)) :
    c.lineStep = (true, { c with
      state := .urlReceived
      readBuffer := after
      method := head.method.text
      url := head.url
      version := head.version.text }) := by
  have notEmpty : emptyLine head.requestLine = false := by
    obtain ⟨b, rest, shape⟩ := List.exists_cons_of_ne_nil head.method.some
    have nonzero : b ≠ 0 := fun zero => head.method.text.nulFree (by simp [shape, zero])
    simp only [emptyLine, RequestHead.requestLine, shape, List.cons_append, List.headD_cons]
    exact beq_eq_false_iff_ne.mpr nonzero
  simp only [lineStep, state, initStep, found, notEmpty, Bool.false_eq_true, if_false,
    head.parseInitialMessageLine]

theorem requestLine_clean (head : RequestHead) : Clean head.requestLine := by
  intro b member
  simp only [RequestHead.requestLine, List.mem_append, List.mem_cons] at member
  rcases member with inMethod | rfl | inTarget | rfl | inVersion
  · exact head.method.clean b inMethod
  · rfl
  · exact head.target.clean b inTarget
  · rfl
  · exact head.version.clean b inVersion

/-- The connection comes to the end of the head with the fields the client has written, and with
the reads behind it untouched. -/
theorem head_leads (head : RequestHead)
    (same : reads.flatten = head.wire ++ rest) :
    ∃ last colon after later, after :: later = readsBehind head.wire.length reads ∧
      Leads start reads (afterHead head last colon after) later := by
  have startLines : ReadsLines start := ⟨rfl, by simp [start]⟩
  have sameLine : start.readBuffer ++ reads.flatten = head.requestLine ++ cr :: lf ::
      (RequestHead.fieldLines head.fields ++ cr :: lf :: rest) := by
    rw [same]
    simp [start, RequestHead.wire]
  obtain ⟨buffer, after, later, found, behindLine, leads⟩ :=
    startLines.arrives (requestLine_clean head) sameLine
  have tail := readsBehind_rest behindLine (by simpa using sameLine)
  have wholeHead {final : List UInt8} {remaining : List (List UInt8)}
      (behind : final :: remaining = readsBehind
        (RequestHead.fieldLines head.fields ++ [cr, lf]).length (after :: later)) :
      final :: remaining = readsBehind head.wire.length reads := by
    have skip : readsBehind head.wire.length ([] :: reads) = readsBehind head.wire.length reads :=
      readsBehind_start (by simp [RequestHead.wire]) reads
    rw [behind, behindLine, readsBehind_readsBehind, ← List.length_append, ← skip, start,
      RequestHead.wire, ← List.append_assoc]
  let received : MhdConnection := { start with
    state := .urlReceived
    readBuffer := after
    method := head.method.text
    url := head.url
    version := head.version.text }
  have atUrl : Leads start reads received later :=
    leads.trans (ReadsLines.leads (c := { start with readBuffer := buffer }) startLines
      (requestLine_received rfl found))
  have urlLines : ReadsLines received := ⟨rfl, by simp [received]⟩
  cases fields : head.fields with
  | nil =>
      rw [fields] at tail wholeHead
      obtain ⟨buffer, after, latest, found, behind, leads⟩ :=
        urlLines.arrives (fun b member => by cases member) tail
      refine ⟨received.last, received.colon, after, latest, wholeHead behind, atUrl.trans ?_⟩
      refine leads.trans
        (ReadsLines.leads (c := { received with readBuffer := buffer }) urlLines ?_)
      simp only [lineStep, received, urlReceivedStep, firstLineStep, found]
      rw [afterHead, fields]
      rfl
  | cons field others =>
      rw [fields] at tail wholeHead
      have sameField : received.readBuffer ++ later.flatten =
          field.line ++ cr :: lf :: (RequestHead.fieldLines others ++ cr :: lf :: rest) := by
        rw [tail]
        simp [RequestHead.fieldLines]
      obtain ⟨buffer, after, latest, found, behindField, leads⟩ :=
        urlLines.arrives field.line_clean sameField
      obtain ⟨notBlank, notEmpty⟩ := field.line_first
      let first : MhdConnection := { received with
        state := .headerPartReceived
        readBuffer := after
        last := field.name
        colon := field.value }
      have stepped : ({ received with readBuffer := buffer } : MhdConnection).lineStep =
          (true, first) := by
        simp only [lineStep, received, urlReceivedStep, firstLineStep, found, notEmpty,
          Bool.false_eq_true, if_false, field.processHeaderLine, first]
      obtain ⟨last, colon, final, remaining, behind, leadsLater⟩ :=
        fields_lead (c := first) rfl rfl (readsBehind_rest behindField (by simpa using sameField))
      refine ⟨last, colon, final, remaining, wholeHead ?_, atUrl.trans (leads.trans ?_)⟩
      · rw [behind, behindField, readsBehind_readsBehind, ← List.length_append]
        simp only [RequestHead.fieldLines, List.flatMap_cons, List.append_assoc]
        rfl
      · refine (ReadsLines.leads (c := { received with readBuffer := buffer }) urlLines
          stepped).trans ?_
        rw [afterHead, fields]
        exact leadsLater

end MhdConnection

end SmartPay
