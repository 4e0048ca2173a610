import SmartPay.CText

/-!
The text conversions of the C library that programs of this kind use: `printf`
with `%d` and `%s`, `strstr`, `sscanf` of a literal followed by `%s`, and `atoi`.
-/

namespace CLib

def intMax : Int := 2147483647

def intMin : Int := -2147483648

def isSpace (c : UInt8) : Bool := c == 32 || (decide (9 ≤ c) && decide (c ≤ 13))

def isDigit (c : UInt8) : Bool := decide (48 ≤ c) && decide (c ≤ 57)

theorem isDigit_iff (c : UInt8) : isDigit c = true ↔ 48 ≤ c.toNat ∧ c.toNat ≤ 57 := by
  simp [isDigit, UInt8.le_iff_toNat_le]

theorem not_isSpace_of_isDigit {c : UInt8} (digit : isDigit c = true) : isSpace c = false := by
  rw [isDigit_iff] at digit
  have notBlank : c ≠ 32 := by
    intro equal
    subst c
    simp at digit
  simp only [isSpace, UInt8.le_iff_toNat_le, Bool.or_eq_false_iff, beq_eq_false_iff_ne, ne_eq,
    notBlank, not_false_eq_true, Bool.and_eq_false_iff, decide_eq_false_iff_not, true_and]
  right
  simp
  omega

/-! Decimal numerals. -/

def digitByte (c : Char) : UInt8 := c.toNat.toUInt8

theorem digitByte_toNat {c : Char} (digit : c.isDigit = true) :
    (digitByte c).toNat = c.toNat ∧ 48 ≤ c.toNat ∧ c.toNat ≤ 57 := by
  simp only [Char.isDigit, Bool.and_eq_true, decide_eq_true_eq, UInt32.le_iff_toNat_le] at digit
  have low : 48 ≤ c.toNat := digit.1
  have high : c.toNat ≤ 57 := digit.2
  refine ⟨?_, low, high⟩
  simp only [digitByte, Nat.toUInt8_eq, UInt8.toNat_ofNat']
  omega

def decimalBytes (n : Nat) : List UInt8 := (Nat.toDigits 10 n).map digitByte

theorem isDigit_of_mem_decimalBytes {n : Nat} {c : UInt8} (member : c ∈ decimalBytes n) :
    isDigit c = true := by
  obtain ⟨digit, inside, rfl⟩ := List.mem_map.mp member
  have value := digitByte_toNat (Nat.isDigit_of_mem_toDigits (by omega) (by omega) inside)
  rw [isDigit_iff]
  omega

def decimalNat (n : Nat) : Text :=
  ⟨decimalBytes n, fun member => by simpa [isDigit] using isDigit_of_mem_decimalBytes member⟩

def decimal (n : Int) : Text :=
  if n < 0 then lit "-" ++ decimalNat n.natAbs else decimalNat n.natAbs

@[simp] theorem decimal_ofNat (n : Nat) : decimal (n : Int) = decimalNat n := by
  simp [decimal]

theorem decimalBytes_ne_nil (n : Nat) : decimalBytes n ≠ [] := by
  simp [decimalBytes]

theorem decimalNat_length_le_iff {n k : Nat} (positive : 0 < k) :
    (decimalNat n).length ≤ k ↔ n < 10 ^ k := by
  simpa [Text.length, decimalNat, decimalBytes] using
    Nat.length_toDigits_le_iff (b := 10) (n := n) (by omega) positive

def digitsValue (digits : List UInt8) : Nat :=
  digits.foldl (fun value c => 10 * value + (c.toNat - 48)) 0

theorem foldl_digitByte (digits : List Char) (all : ∀ c ∈ digits, c.isDigit = true) : ∀ value,
    (digits.map digitByte).foldl (fun value c => 10 * value + (c.toNat - 48)) value =
      Nat.ofDigitChars 10 digits value := by
  induction digits with
  | nil => intro value; simp
  | cons digit rest ih =>
      intro value
      have byte := digitByte_toNat (all digit (by simp))
      simp only [List.map_cons, List.foldl_cons, Nat.ofDigitChars_cons, byte.1]
      rw [ih (fun c member => all c (by simp [member]))]
      rfl

@[simp] theorem digitsValue_decimalBytes (n : Nat) : digitsValue (decimalBytes n) = n := by
  rw [digitsValue, decimalBytes, foldl_digitByte]
  · exact Nat.ofDigitChars_ten_toDigits
  · intro c member
    exact Nat.isDigit_of_mem_toDigits (by omega) (by omega) member

/-! Formatted output. -/

inductive PrintArg
  | d (value : Int)
  | s (text : Text)

def convert (kind : UInt8) : List PrintArg → List UInt8
  | .d value :: _ => if kind = 100 then (decimal value).bytes else []
  | .s text :: _ => if kind = 115 then text.bytes else []
  | [] => []

def formatFrom : List UInt8 → List PrintArg → List UInt8
  | [], _ => []
  | [c], _ => [c]
  | c :: kind :: rest, args =>
      if c = 37 then convert kind args ++ formatFrom rest args.tail
      else c :: formatFrom (kind :: rest) args

theorem convert_nulFree (kind : UInt8) (args : List PrintArg) : 0 ∉ convert kind args := by
  cases args with
  | nil => simp [convert]
  | cons arg rest =>
      cases arg <;> simp only [convert] <;> split <;> simp [Text.nulFree]

theorem formatFrom_nulFree (template : List UInt8) (args : List PrintArg)
    (nulFree : 0 ∉ template) : 0 ∉ formatFrom template args := by
  fun_induction formatFrom template args with
  | case1 => simp
  | case2 => exact nulFree
  | case3 kind rest args ih =>
      simp only [List.mem_cons, not_or] at nulFree
      simp only [List.mem_append, not_or]
      exact ⟨convert_nulFree kind args, ih nulFree.2.2⟩
  | case4 c kind rest args plain ih =>
      simp only [List.mem_cons, not_or] at nulFree ih ⊢
      exact ⟨nulFree.1, ih ⟨nulFree.2.1, nulFree.2.2⟩⟩

/-- The text `sprintf` prints for a format string with `%d` and `%s`. -/
def format (template : Text) (args : List PrintArg) : Text :=
  ⟨formatFrom template.bytes args, formatFrom_nulFree _ _ template.nulFree⟩

/-! Searching and reading text. -/

def strstr (haystack needle : Text) : Bool :=
  haystack.bytes.tails.any fun suffix => needle.bytes.isPrefixOf suffix

theorem strstr_iff (haystack needle : Text) :
    strstr haystack needle = true ↔ needle.bytes <:+: haystack.bytes := by
  simp only [strstr, List.any_eq_true, List.mem_tails, List.isPrefixOf_iff_prefix]
  constructor
  · rintro ⟨suffix, later, starts⟩
    exact starts.isInfix.trans later.isInfix
  · rintro ⟨before, after, split⟩
    exact ⟨needle.bytes ++ after, ⟨before, by simpa using split⟩, List.prefix_append _ _⟩

theorem strstr_append (needle rest : Text) : strstr (needle ++ rest) needle = true := by
  rw [strstr_iff]
  exact (List.prefix_append _ _).isInfix

/-- The next word of some input: blanks are skipped, then everything up to a blank is taken. -/
def nextWord (input : List UInt8) : List UInt8 :=
  (input.dropWhile isSpace).takeWhile fun c => !isSpace c

/-- The word that `%s` converts after a literal, when the literal matches and a word follows. -/
def scanWord (literal input : Text) : Option Text :=
  if literal.bytes.isPrefixOf input.bytes then
    let word := nextWord (input.bytes.drop literal.length)
    if word = [] then none else some (Text.ofBytes word)
  else none

/-- `sscanf(input, literal "%s", buf)`: the array is untouched when nothing is converted. -/
def sscanf {size : Nat} (input literal : Text) (buf : Buf size) : Except Fault (Buf size) :=
  match scanWord literal input with
  | none => .ok buf
  | some word => buf.print 0 word

theorem nextWord_eq_nil_iff (input : List UInt8) :
    nextWord input = [] ↔ ∀ c ∈ input, isSpace c = true := by
  induction input with
  | nil => simp [nextWord]
  | cons c rest ih =>
      by_cases space : isSpace c = true
      · simpa [nextWord, space] using ih
      · simp [nextWord, space]

theorem nextWord_mem {input : List UInt8} {c : UInt8} (member : c ∈ nextWord input) :
    c ∈ input ∧ isSpace c = false := by
  refine ⟨?_, by simpa using List.mem_takeWhile_imp member⟩
  exact (List.dropWhile_sublist isSpace).subset ((List.takeWhile_sublist _).subset member)

theorem scanWord_some {literal input word : Text} (scanned : scanWord literal input = some word) :
    word.bytes ≠ [] ∧ literal.bytes <+: input.bytes ∧
      word.bytes = nextWord (input.bytes.drop literal.length) := by
  simp only [scanWord, List.isPrefixOf_iff_prefix] at scanned
  split at scanned
  · rename_i starts
    split at scanned
    · cases scanned
    · rename_i nonempty
      simp only [Option.some.injEq] at scanned
      have nulFree : 0 ∉ nextWord (input.bytes.drop literal.length) := fun member =>
        input.nulFree (List.mem_of_mem_drop (nextWord_mem member).1)
      have bytes : word.bytes = nextWord (input.bytes.drop literal.length) := by
        rw [← scanned]
        exact congrArg Text.bytes (Text.ofBytes_bytes ⟨_, nulFree⟩)
      exact ⟨bytes ▸ nonempty, starts, bytes⟩
  · cases scanned

theorem nextWord_eq_self {word : List UInt8} (noSpace : ∀ c ∈ word, isSpace c = false) :
    nextWord word = word := by
  have kept : word.dropWhile isSpace = word := by
    cases word with
    | nil => rfl
    | cons c rest => exact List.dropWhile_cons_of_neg (by simp [noSpace c (by simp)])
  rw [nextWord, kept, List.takeWhile_eq_self_iff]
  intro c member
  simp [noSpace c member]

theorem scanWord_append (literal : Text) {word : Text} (nonempty : word.bytes ≠ [])
    (noSpace : ∀ c ∈ word.bytes, isSpace c = false) :
    scanWord literal (literal ++ word) = some word := by
  have starts : literal.bytes.isPrefixOf (literal ++ word).bytes = true := by
    simp [List.isPrefixOf_iff_prefix]
  have rest : (literal ++ word).bytes.drop literal.length = word.bytes := by
    rw [Text.bytes_append, ← Text.length_bytes, List.drop_left]
  simp only [scanWord, if_pos starts, rest, nextWord_eq_self noSpace, if_neg nonempty,
    Text.ofBytes_bytes]

theorem sscanf_none {size : Nat} {input literal : Text} (nothing : scanWord literal input = none)
    (buf : Buf size) : sscanf input literal buf = .ok buf := by
  simp only [sscanf, nothing]

theorem sscanf_some {size : Nat} {input literal word : Text}
    (scanned : scanWord literal input = some word) (fits : word.length < size) (buf : Buf size) :
    ∃ filled, sscanf input literal buf = .ok filled ∧ word.bytes ++ [0] <+: filled.bytes := by
  obtain ⟨filled, printed, starts⟩ :=
    buf.print_ok word List.nil_prefix (show [].length = 0 from rfl) (by omega)
  exact ⟨filled, by simpa only [sscanf, scanned] using printed, by simpa using starts⟩

theorem sscanf_overflow {size : Nat} {input literal word : Text}
    (scanned : scanWord literal input = some word) (tooLong : size ≤ word.length)
    (buf : Buf size) : sscanf input literal buf = .error .overflow := by
  simp only [sscanf, scanned, buf.print_overflow 0 word (by omega)]

def signedValue (negative : Bool) (digits : List UInt8) : Int :=
  if negative then -digitsValue digits else digitsValue digits

def atoiDigits (negative : Bool) (bytes : List UInt8) : Except Fault Int :=
  let digits := bytes.takeWhile isDigit
  if digits.length = bytes.length then .error .overread
  else if intMin ≤ signedValue negative digits ∧ signedValue negative digits ≤ intMax then
    .ok (signedValue negative digits)
  else .error .intOverflow

/-- `atoi` on memory that starts with these bytes. -/
def atoi (bytes : List UInt8) : Except Fault Int :=
  match bytes.dropWhile isSpace with
  | [] => .error .overread
  | c :: rest =>
      if c = 45 then atoiDigits true rest
      else if c = 43 then atoiDigits false rest
      else atoiDigits false (c :: rest)

theorem atoi_no_overflow (bytes : List UInt8) : atoi bytes ≠ .error .overflow := by
  have digits (negative : Bool) (text : List UInt8) :
      atoiDigits negative text ≠ .error .overflow := by
    simp only [atoiDigits]
    split
    · simp
    · split
      · simp
      · simp
  cases start : bytes.dropWhile isSpace with
  | nil => simp [atoi, start]
  | cons c rest =>
      simp only [atoi, start]
      split
      · exact digits true rest
      · split
        · exact digits false rest
        · exact digits false (c :: rest)

theorem atoiDigits_terminated (negative : Bool) (bytes rest : List UInt8) :
    atoiDigits negative (bytes ++ 0 :: rest) = atoiDigits negative (bytes ++ [0]) := by
  have digits (rest : List UInt8) : (bytes ++ 0 :: rest).takeWhile isDigit =
      bytes.takeWhile isDigit := by
    induction bytes with
    | nil => exact List.takeWhile_cons_of_neg (by decide)
    | cons c later ih =>
        by_cases digit : isDigit c = true
        · simp [digit, ih]
        · simp [digit]
  have shorter (rest : List UInt8) :
      (bytes.takeWhile isDigit).length ≠ (bytes ++ 0 :: rest).length := by
    have bound := (List.takeWhile_prefix (l := bytes) isDigit).length_le
    simp only [List.length_append, List.length_cons]
    omega
  simp only [atoiDigits, digits, shorter, if_false]

theorem atoi_terminated (bytes rest : List UInt8) :
    atoi (bytes ++ 0 :: rest) = atoi (bytes ++ [0]) := by
  induction bytes with
  | nil =>
      simp only [atoi, List.nil_append]
      rw [List.dropWhile_cons_of_neg (by decide), List.dropWhile_cons_of_neg (by decide)]
      exact atoiDigits_terminated false [] rest
  | cons c later ih =>
      by_cases space : isSpace c = true
      · simpa only [atoi, List.cons_append, List.dropWhile_cons_of_pos space] using ih
      · simp only [atoi, List.cons_append, List.dropWhile_cons_of_neg space]
        rw [atoiDigits_terminated true later rest, atoiDigits_terminated false later rest,
          show c :: (later ++ 0 :: rest) = c :: later ++ 0 :: rest from rfl,
          atoiDigits_terminated false (c :: later) rest]
        rfl

theorem atoi_decimalNat (n : Nat) (small : (n : Int) ≤ intMax) (rest : List UInt8) :
    atoi ((decimalNat n).bytes ++ 0 :: rest) = .ok n := by
  have digits : ∀ c ∈ decimalBytes n, isDigit c = true := fun c => isDigit_of_mem_decimalBytes
  have taken : (decimalBytes n ++ 0 :: rest).takeWhile isDigit = decimalBytes n := by
    rw [List.takeWhile_append_of_pos digits, List.takeWhile_cons_of_neg (by decide),
      List.append_nil]
  have parsed : atoiDigits false (decimalBytes n ++ 0 :: rest) = .ok n := by
    simp only [atoiDigits, taken, signedValue, digitsValue_decimalBytes]
    simp only [intMax, intMin] at small ⊢
    simp
    omega
  change atoi (decimalBytes n ++ 0 :: rest) = .ok n
  cases found : decimalBytes n with
  | nil => exact absurd found (decimalBytes_ne_nil n)
  | cons first others =>
      have digit := digits first (by simp [found])
      have notSpace := not_isSpace_of_isDigit digit
      have bounds := (isDigit_iff first).mp digit
      have notMinus : first ≠ 45 := by rintro rfl; simp at bounds
      have notPlus : first ≠ 43 := by rintro rfl; simp at bounds
      rw [found] at parsed
      simp only [atoi, List.cons_append, List.dropWhile_cons, notSpace, notMinus, notPlus,
        Bool.false_eq_true, if_false]
      exact parsed

end CLib
