import SmartPay.CFormat
import SmartPay.Words

/-!
Numerals in text: digits of one value differ in leading zeros only, a numeral
ends where the digits end, and `atoi` reads exactly the spellings of a number
that start with blanks and a sign.
-/

namespace CLib

/-! Values of digits. -/

theorem digitsValue_snoc (digits : List UInt8) (c : UInt8) :
    digitsValue (digits ++ [c]) = 10 * digitsValue digits + (c.toNat - 48) := by
  simp [digitsValue]

theorem digitsValue_zeros {zeros : List UInt8} (all : ∀ c ∈ zeros, c = 48) (digits : List UInt8) :
    digitsValue (zeros ++ digits) = digitsValue digits := by
  induction zeros with
  | nil => rfl
  | cons zero rest ih =>
      rw [all zero (by simp)]
      exact ih fun c member => all c (by simp [member])

theorem digitsValue_lt {digits : List UInt8} (all : ∀ c ∈ digits, isDigit c = true) :
    digitsValue digits < 10 ^ digits.length := by
  induction digits using List.reverseRecOn with
  | nil => decide
  | append_singleton digits c ih =>
      have last := (isDigit_iff c).mp (all c (by simp))
      have earlier := ih fun d member => all d (by simp [member])
      rw [digitsValue_snoc, List.length_append, List.length_singleton, Nat.pow_succ]
      omega

theorem digitByte_digitChar {c : UInt8} (digit : isDigit c = true) :
    digitByte (Nat.digitChar (c.toNat - 48)) = c := by
  have bounds := (isDigit_iff c).mp digit
  have value : (Nat.digitChar (c.toNat - 48)).toNat = c.toNat := by
    rw [Nat.toNat_digitChar_of_lt_ten (by omega)]
    omega
  rw [digitByte, value]
  simp

theorem decimalBytes_digit {c : UInt8} (digit : isDigit c = true) :
    decimalBytes (c.toNat - 48) = [c] := by
  have bounds := (isDigit_iff c).mp digit
  rw [decimalBytes, Nat.toDigits_of_lt_base (by omega), List.map_singleton,
    digitByte_digitChar digit]

theorem decimalBytes_snoc {n : Nat} (positive : 0 < n) {c : UInt8} (digit : isDigit c = true) :
    decimalBytes n ++ [c] = decimalBytes (10 * n + (c.toNat - 48)) := by
  have bounds := (isDigit_iff c).mp digit
  rw [← decimalBytes_digit digit, decimalBytes, decimalBytes, decimalBytes, ← List.map_append,
    Nat.toDigits_append_toDigits (by omega) positive (by omega)]

theorem numeral_of_digits {c : UInt8} {rest : List UInt8} (nonzero : c ≠ 48)
    (all : ∀ d ∈ c :: rest, isDigit d = true) :
    decimalBytes (digitsValue (c :: rest)) = c :: rest ∧ 0 < digitsValue (c :: rest) := by
  have first := (isDigit_iff c).mp (all c (by simp))
  have notZero : c.toNat ≠ 48 := fun equal => nonzero (UInt8.toNat_inj.mp equal)
  induction rest using List.reverseRecOn with
  | nil =>
      have value : digitsValue [c] = c.toNat - 48 := by simp [digitsValue]
      rw [value, decimalBytes_digit (all c (by simp))]
      exact ⟨rfl, by omega⟩
  | append_singleton rest d ih =>
      obtain ⟨numeral, positive⟩ := ih fun e member => all e (by
        simp only [List.mem_cons, List.mem_append] at member ⊢
        tauto)
      have digit : isDigit d = true := all d (by simp)
      rw [← List.cons_append, digitsValue_snoc, ← decimalBytes_snoc positive digit, numeral]
      exact ⟨rfl, by omega⟩

/-- Digits of a positive value are its numeral after leading zeros. -/
theorem digitsValue_eq_iff {digits : List UInt8} (all : ∀ c ∈ digits, isDigit c = true) {n : Nat}
    (positive : 0 < n) :
    digitsValue digits = n ↔ ∃ zeros, (∀ c ∈ zeros, c = 48) ∧ digits = zeros ++ decimalBytes n := by
  constructor
  · intro value
    let zeros := digits.takeWhile fun c => c == 48
    have split : digits = zeros ++ digits.dropWhile fun c => c == 48 :=
      List.takeWhile_append_dropWhile.symm
    have allZero : ∀ c ∈ zeros, c = 48 := by
      intro c member
      simpa using List.mem_takeWhile_imp member
    refine ⟨zeros, allZero, ?_⟩
    cases found : digits.dropWhile fun c => c == 48 with
    | nil =>
        rw [split, digitsValue_zeros allZero, found] at value
        simp [digitsValue] at value
        omega
    | cons c rest =>
        have nonzero : c ≠ 48 := by
          have head := List.head?_dropWhile_not (fun c : UInt8 => c == 48) digits
          rw [found] at head
          simpa using head
        rw [found] at split
        have inside : ∀ d ∈ c :: rest, isDigit d = true := by
          intro d member
          exact all d (split ▸ List.mem_append_right _ member)
        have numeral := (numeral_of_digits nonzero inside).1
        rw [split, digitsValue_zeros allZero] at value
        rw [value] at numeral
        rw [numeral]
        exact split
  · rintro ⟨zeros, allZero, rfl⟩
    rw [digitsValue_zeros allZero, digitsValue_decimalBytes]

theorem decimalBytes_head (n : Nat) :
    decimalBytes n = [48] ∨ ∃ c rest, decimalBytes n = c :: rest ∧ c ≠ 48 := by
  cases numeral : decimalBytes n with
  | nil => exact absurd numeral (decimalBytes_ne_nil n)
  | cons c rest =>
      by_cases zero : c = 48
      · subst c
        left
        have all : ∀ d ∈ rest, isDigit d = true := fun d member =>
          isDigit_of_mem_decimalBytes (n := n) (by simp [numeral, member])
        have value : digitsValue rest = n := by
          have whole := digitsValue_decimalBytes n
          rw [numeral] at whole
          exact whole
        have bound := digitsValue_lt all
        rw [value] at bound
        cases rest with
        | nil => rfl
        | cons d later =>
            have length := (decimalNat_length_le_iff (List.length_pos_of_ne_nil
              (List.cons_ne_nil d later))).mpr bound
            have longer := congrArg List.length numeral
            simp only [List.length_cons] at length longer
            change (decimalBytes n).length ≤ _ at length
            omega
      · exact Or.inr ⟨c, rest, rfl, zero⟩

theorem decimalBytes_unique {n k : Nat} {rest other : List UInt8}
    (restEnds : ∀ c ∈ rest.head?, isDigit c = false)
    (otherEnds : ∀ c ∈ other.head?, isDigit c = false)
    (same : decimalBytes n ++ rest = decimalBytes k ++ other) : n = k ∧ rest = other := by
  obtain ⟨numeral, rfl⟩ := run_unique (fun _ => isDigit_of_mem_decimalBytes)
    (fun _ => isDigit_of_mem_decimalBytes) restEnds otherEnds same
  refine ⟨?_, rfl⟩
  rw [← digitsValue_decimalBytes n, numeral, digitsValue_decimalBytes]

theorem decimalBytes_inj {n k : Nat} (same : decimalBytes n = decimalBytes k) : n = k := by
  rw [← digitsValue_decimalBytes n, same, digitsValue_decimalBytes]

/-! What `atoi` reads. -/

/-- The text starts with zeros and the numeral, and does not go on with a digit. -/
def StartsWithNumeral (n : Nat) (bytes : List UInt8) : Prop :=
  ∃ zeros rest, bytes = zeros ++ decimalBytes n ++ rest ∧ (∀ c ∈ zeros, c = 48) ∧
    ∀ c ∈ rest.head?, isDigit c = false

/-- The text is a spelling of the number for `atoi`: blanks, the sign, and such a numeral. -/
def Spells (sign : List UInt8) (n : Nat) (bytes : List UInt8) : Prop :=
  ∃ blanks rest, bytes = blanks ++ (sign ++ rest) ∧ (∀ c ∈ blanks, isSpace c = true) ∧
    StartsWithNumeral n rest

theorem isDigit_of_mem_padded {zeros : List UInt8} (allZero : ∀ c ∈ zeros, c = 48) (n : Nat) :
    ∀ c ∈ zeros ++ decimalBytes n, isDigit c = true := by
  intro c member
  rcases List.mem_append.mp member with zero | digit
  · rw [allZero c zero]
    rfl
  · exact isDigit_of_mem_decimalBytes digit

theorem StartsWithNumeral.head {n : Nat} {bytes : List UInt8}
    (starts : StartsWithNumeral n bytes) : ∃ c rest, bytes = c :: rest ∧ isDigit c = true := by
  obtain ⟨zeros, rest, rfl, allZero, _⟩ := starts
  have digits := isDigit_of_mem_padded allZero n
  obtain ⟨first, later, split⟩ := List.exists_cons_of_ne_nil
    (List.append_ne_nil_of_right_ne_nil zeros (decimalBytes_ne_nil n))
  exact ⟨first, later ++ rest, by rw [split, List.cons_append], digits first (by simp [split])⟩

theorem startsWithNumeral_iff {n : Nat} (positive : 0 < n) (bytes : List UInt8) :
    StartsWithNumeral n bytes ↔ digitsValue (bytes.takeWhile isDigit) = n := by
  have digits : ∀ c ∈ bytes.takeWhile isDigit, isDigit c = true := by
    intro c member
    simpa using List.mem_takeWhile_imp member
  constructor
  · rintro ⟨zeros, rest, rfl, allZero, ends⟩
    rw [takeWhile_run (isDigit_of_mem_padded allZero n) ends, digitsValue_zeros allZero,
      digitsValue_decimalBytes]
  · intro value
    obtain ⟨zeros, allZero, split⟩ := (digitsValue_eq_iff digits positive).mp value
    refine ⟨zeros, bytes.dropWhile isDigit, ?_, allZero, ?_⟩
    · rw [← split, List.takeWhile_append_dropWhile]
    · intro c head
      have ends := List.head?_dropWhile_not isDigit bytes
      rw [Option.mem_def.mp head] at ends
      simpa using ends

theorem spells_iff {sign : List UInt8} (visible : ∀ c ∈ sign, isSpace c = false) (n : Nat)
    (bytes : List UInt8) :
    Spells sign n bytes ↔
      ∃ rest, bytes.dropWhile isSpace = sign ++ rest ∧ StartsWithNumeral n rest := by
  constructor
  · rintro ⟨blanks, rest, rfl, blank, starts⟩
    refine ⟨rest, dropWhile_run blank ?_, starts⟩
    obtain ⟨first, later, rfl, digit⟩ := starts.head
    intro c head
    cases sign with
    | nil =>
        simp only [List.nil_append, List.head?_cons, Option.mem_some_iff] at head
        rw [← head]
        exact not_isSpace_of_isDigit digit
    | cons s others =>
        simp only [List.cons_append, List.head?_cons, Option.mem_some_iff] at head
        exact visible c (by simp [head])
  · rintro ⟨rest, dropped, starts⟩
    refine ⟨bytes.takeWhile isSpace, rest, ?_, ?_, starts⟩
    · rw [← dropped, List.takeWhile_append_dropWhile]
    · intro c member
      simpa using List.mem_takeWhile_imp member

theorem atoiDigits_eq (negative : Bool) (bytes : List UInt8) :
    atoiDigits negative (bytes ++ [0]) =
      if intMin ≤ signedValue negative (bytes.takeWhile isDigit) ∧
          signedValue negative (bytes.takeWhile isDigit) ≤ intMax then
        .ok (signedValue negative (bytes.takeWhile isDigit))
      else .error .intOverflow := by
  have digits : (bytes ++ [0]).takeWhile isDigit = bytes.takeWhile isDigit := by
    induction bytes with
    | nil => rfl
    | cons c later ih =>
        by_cases digit : isDigit c = true
        · simp [digit, ih]
        · simp [digit]
  have shorter := (List.takeWhile_prefix (l := bytes) isDigit).length_le
  have unequal : (bytes.takeWhile isDigit).length ≠ (bytes ++ [0]).length := by
    simp only [List.length_append, List.length_singleton]
    omega
  simp only [atoiDigits, digits, unequal, if_false]

theorem atoi_eq (bytes : List UInt8) :
    atoi (bytes ++ [0]) =
      if (bytes.dropWhile isSpace).head? = some 45 then
        atoiDigits true ((bytes.dropWhile isSpace).tail ++ [0])
      else if (bytes.dropWhile isSpace).head? = some 43 then
        atoiDigits false ((bytes.dropWhile isSpace).tail ++ [0])
      else atoiDigits false (bytes.dropWhile isSpace ++ [0]) := by
  have skipped : (bytes ++ [0]).dropWhile isSpace = bytes.dropWhile isSpace ++ [0] := by
    induction bytes with
    | nil => rfl
    | cons c later ih =>
        by_cases space : isSpace c = true
        · simp [space, ih]
        · simp [space]
  rw [atoi, skipped]
  cases bytes.dropWhile isSpace with
  | nil => rfl
  | cons c rest => simp

/-- The value that a sign and the digits after it stand for. -/
def signed (negative : Bool) (n : Nat) : Int := if negative then -n else n

theorem atoiDigits_iff (negative : Bool) {n : Nat} (positive : 0 < n)
    (low : intMin ≤ signed negative n) (high : signed negative n ≤ intMax) (bytes : List UInt8) :
    atoiDigits negative (bytes ++ [0]) = .ok (signed negative n) ↔ StartsWithNumeral n bytes := by
  rw [startsWithNumeral_iff positive, atoiDigits_eq]
  change (if intMin ≤ signed negative (digitsValue (bytes.takeWhile isDigit)) ∧
      signed negative (digitsValue (bytes.takeWhile isDigit)) ≤ intMax then
    Except.ok (signed negative (digitsValue (bytes.takeWhile isDigit)))
      else .error Fault.intOverflow) = _ ↔ _
  constructor
  · intro read
    split at read
    · simp only [Except.ok.injEq] at read
      cases negative <;> simpa [signed] using read
    · cases read
  · intro value
    rw [value, if_pos ⟨low, high⟩]

theorem atoiDigits_sign {negative : Bool} {bytes : List UInt8} {value : Int}
    (read : atoiDigits negative (bytes ++ [0]) = .ok value) :
    if negative then value ≤ 0 else 0 ≤ value := by
  rw [atoiDigits_eq] at read
  split at read
  · simp only [Except.ok.injEq] at read
    subst value
    cases negative <;> simp [signedValue]
  · cases read

theorem not_startsWithNumeral {n : Nat} {c : UInt8} (other : isDigit c = false)
    (rest : List UInt8) : ¬StartsWithNumeral n (c :: rest) := by
  intro starts
  obtain ⟨first, later, same, digit⟩ := starts.head
  rw [(List.cons.inj same).1, digit] at other
  cases other

/-- `atoi` reads a positive number exactly from its spellings without a sign or with a plus. -/
theorem atoi_plain_iff {n : Nat} (positive : 0 < n) (small : (n : Int) ≤ intMax)
    (bytes : List UInt8) :
    atoi (bytes ++ [0]) = .ok (n : Int) ↔ Spells [] n bytes ∨ Spells [43] n bytes := by
  have plain := atoiDigits_iff false positive
    (by simp only [intMin, signed, Bool.false_eq_true, if_false]; omega) small
  rw [spells_iff (by simp), spells_iff (by simp [isSpace]), atoi_eq]
  cases bytes.dropWhile isSpace with
  | nil =>
      refine (plain []).trans ⟨fun starts => Or.inl ⟨[], rfl, starts⟩, ?_⟩
      rintro (⟨rest, same, starts⟩ | ⟨rest, same, _⟩)
      · rwa [← List.nil_append rest, ← same] at starts
      · cases same
  | cons c rest =>
      simp only [List.head?_cons, Option.some.injEq, List.tail_cons, List.nil_append,
        exists_eq_left', List.singleton_append, List.cons.injEq]
      by_cases minus : c = 45
      · subst c
        simp only [if_true, not_startsWithNumeral (c := 45) (by decide), false_or]
        refine iff_of_false (fun read => ?_) (by simp)
        have sign := atoiDigits_sign read
        simp only [if_true] at sign
        omega
      · rw [if_neg minus]
        by_cases plus : c = 43
        · subst c
          simp only [if_true, not_startsWithNumeral (c := 43) (by decide), false_or, true_and,
            exists_eq_left']
          exact plain rest
        · rw [if_neg plus]
          simp only [plus, false_and, exists_false, or_false]
          exact plain (c :: rest)

theorem atoi_minus_iff {n : Nat} (positive : 0 < n) (small : intMin ≤ -(n : Int))
    (bytes : List UInt8) : atoi (bytes ++ [0]) = .ok (-(n : Int)) ↔ Spells [45] n bytes := by
  have minus := atoiDigits_iff true positive small
    (by simp only [intMax, signed, if_true]; omega)
  have nonnegative (text : List UInt8) (read : atoiDigits false (text ++ [0]) = .ok (-(n : Int))) :
      False := by
    have sign := atoiDigits_sign read
    simp only [Bool.false_eq_true, if_false] at sign
    omega
  rw [spells_iff (by simp [isSpace]), atoi_eq]
  cases bytes.dropWhile isSpace with
  | nil => exact iff_of_false (fun read => nonnegative [] read) (by simp)
  | cons c rest =>
      simp only [List.head?_cons, Option.some.injEq, List.tail_cons, List.singleton_append,
        List.cons.injEq]
      by_cases sign : c = 45
      · subst c
        simp only [if_true, true_and, exists_eq_left']
        exact minus rest
      · rw [if_neg sign]
        refine iff_of_false (fun read => ?_) (by simp [sign])
        split at read
        · exact nonnegative rest read
        · exact nonnegative (c :: rest) read

theorem atoi_short {bytes : List UInt8} (short : bytes.length ≤ 9) :
    ∃ value, atoi (bytes ++ [0]) = .ok value := by
  have defined (negative : Bool) {text : List UInt8} (bound : text.length ≤ 9) :
      ∃ value, atoiDigits negative (text ++ [0]) = .ok value := by
    have digits : ∀ c ∈ text.takeWhile isDigit, isDigit c = true := by
      intro c member
      simpa using List.mem_takeWhile_imp member
    have value := digitsValue_lt digits
    have length := (List.takeWhile_prefix (l := text) isDigit).length_le
    have power : 10 ^ (text.takeWhile isDigit).length ≤ 10 ^ 9 :=
      Nat.pow_le_pow_right (by omega) (by omega)
    refine ⟨signedValue negative (text.takeWhile isDigit), ?_⟩
    rw [atoiDigits_eq, if_pos]
    cases negative <;> simp only [signedValue, intMin, intMax, if_true, Bool.false_eq_true,
      if_false] <;> omega
  have dropped := (List.dropWhile_sublist (l := bytes) isSpace).length_le
  rw [atoi_eq]
  split
  · exact defined true (by rw [List.length_tail]; omega)
  · split
    · exact defined false (by rw [List.length_tail]; omega)
    · exact defined false (by omega)

/-! The word that `%s` converts. -/

theorem atoiDigits_word (negative : Bool) (bytes : List UInt8) :
    atoiDigits negative ((bytes.takeWhile fun c => !isSpace c) ++ [0]) =
      atoiDigits negative (bytes ++ [0]) := by
  have digits : (bytes.takeWhile fun c => !isSpace c).takeWhile isDigit =
      bytes.takeWhile isDigit := by
    induction bytes with
    | nil => rfl
    | cons c rest ih =>
        by_cases digit : isDigit c = true
        · simp [digit, not_isSpace_of_isDigit digit, ih]
        · by_cases space : isSpace c = true
          · simp [digit, space]
          · simp [digit, space]
  rw [atoiDigits_eq, atoiDigits_eq, digits]

theorem atoi_nextWord (bytes : List UInt8) :
    atoi (nextWord bytes ++ [0]) = atoi (bytes ++ [0]) := by
  rw [atoi_eq bytes, atoi_eq, nextWord]
  cases found : bytes.dropWhile isSpace with
  | nil => rfl
  | cons c rest =>
      have visible : isSpace c = false := by
        have head := List.head?_dropWhile_not isSpace bytes
        rw [found] at head
        simpa using head
      have word : ((c :: rest).takeWhile fun d => !isSpace d) =
          c :: rest.takeWhile fun d => !isSpace d := by
        simp [visible]
      have kept : (c :: rest.takeWhile fun d => !isSpace d).dropWhile isSpace =
          c :: rest.takeWhile fun d => !isSpace d :=
        List.dropWhile_cons_of_neg (by simp [visible])
      have whole := atoiDigits_word false (c :: rest)
      rw [word] at whole
      rw [word, kept, List.head?_cons, List.head?_cons, List.tail_cons, List.tail_cons,
        atoiDigits_word, atoiDigits_word, whole]

end CLib
