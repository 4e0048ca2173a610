import SmartPay.JsonGrammar

/-!
No JSON text has two trees. A value's first byte tells its kind, and what may
follow a phrase tells where it ends.
-/

namespace CLib

/-! Numbers and strings. -/

def isNumberByte (c : UInt8) : Bool :=
  isDigit c || c == 43 || c == 45 || c == 46 || c == 69 || c == 101

theorem not_isNumberByte_of_isBlank {c : UInt8} (blank : isBlank c = true) :
    isNumberByte c = false := by
  simp only [isBlank, Bool.or_eq_true, beq_iff_eq] at blank
  rcases blank with ((rfl | rfl) | rfl) | rfl <;> decide

theorem isNumberByte_of_isDigit {c : UInt8} (digit : isDigit c = true) : isNumberByte c = true := by
  simp [isNumberByte, digit]

theorem IsDigits.number {bytes : List UInt8} (digits : IsDigits bytes) :
    ∀ c ∈ bytes, isNumberByte c = true :=
  fun c member => isNumberByte_of_isDigit (digits.2 c member)

theorem IsNumber.bytes {lexeme : List UInt8} (number : IsNumber lexeme) :
    ∀ c ∈ lexeme, isNumberByte c = true := by
  obtain ⟨sign, digits, fraction, exponent, rfl, signed, some, _, fractional, exponential⟩ := number
  intro c member
  simp only [List.mem_append] at member
  rcases member with ((inside | inside) | inside) | inside
  · rcases signed with rfl | rfl
    · cases inside
    · rw [List.mem_singleton] at inside
      subst c
      rfl
  · exact some.number c inside
  · rcases fractional with rfl | ⟨part, partDigits, rfl⟩
    · cases inside
    · rcases List.mem_cons.mp inside with rfl | inside
      · rfl
      · exact partDigits.number c inside
  · rcases exponential with rfl | ⟨letter, power, part, letters, powers, partDigits, rfl⟩
    · cases inside
    · rcases List.mem_cons.mp inside with rfl | inside
      · rcases letters with rfl | rfl <;> rfl
      · rcases List.mem_append.mp inside with inside | inside
        · rcases powers with rfl | rfl | rfl
          · cases inside
          · rw [List.mem_singleton.mp inside]
            rfl
          · rw [List.mem_singleton.mp inside]
            rfl
        · exact partDigits.number c inside

theorem IsNumber.head {lexeme : List UInt8} (number : IsNumber lexeme) :
    ∃ c rest, lexeme = c :: rest ∧ (isDigit c || c == 45) = true := by
  obtain ⟨sign, digits, fraction, exponent, rfl, signed, some, _⟩ := number
  rcases signed with rfl | rfl
  · obtain ⟨c, rest, rfl⟩ := List.exists_cons_of_ne_nil some.1
    exact ⟨c, rest ++ fraction ++ exponent, rfl, by simp [some.2 c (by simp)]⟩
  · exact ⟨45, digits ++ fraction ++ exponent, rfl, rfl⟩

theorem utf8_unique {c d : Char} {rest other : List UInt8}
    (same : String.utf8EncodeChar c ++ rest = String.utf8EncodeChar d ++ other) :
    c = d ∧ rest = other := by
  have decoded (e : Char) (later : List UInt8) :
      ByteArray.utf8DecodeChar? (String.utf8EncodeChar e ++ later).toByteArray 0 = some e := by
    rw [List.toByteArray_append, ByteArray.utf8DecodeChar?_utf8EncodeChar_append]
  have first := decoded c rest
  rw [same, decoded d other, Option.some.injEq] at first
  subst first
  exact ⟨rfl, List.append_cancel_left same⟩

theorem utf8_plain {c : Char} (noQuote : c ≠ '"') (noBackslash : c ≠ '\\') {first : UInt8}
    {rest other : List UInt8} (same : String.utf8EncodeChar c ++ rest = first :: other) :
    first ≠ 34 ∧ first ≠ 92 := by
  constructor
  · rintro rfl
    exact noQuote (utf8_unique (d := '"') same).1
  · rintro rfl
    exact noBackslash (utf8_unique (d := '\\') same).1

theorem StringBody.unique {units others : List UInt16} {body other rest later : List UInt8}
    (first : StringBody units body) (second : StringBody others other)
    (same : body ++ 34 :: rest = other ++ 34 :: later) : units = others ∧ body = other := by
  induction first generalizing others other with
  | nil =>
      cases second with
      | nil => exact ⟨rfl, rfl⟩
      | char _ noQuote noBackslash _ =>
          rw [List.append_assoc] at same
          exact absurd rfl (utf8_plain noQuote noBackslash same.symm).1
      | short _ _ => simp at same
      | unicode _ _ => simp at same
  | char _ noQuote noBackslash _ ih =>
      rw [List.append_assoc] at same
      cases second with
      | nil => exact absurd rfl (utf8_plain noQuote noBackslash same).1
      | char _ _ _ remaining =>
          rw [List.append_assoc] at same
          obtain ⟨rfl, tails⟩ := utf8_unique same
          obtain ⟨rfl, rfl⟩ := ih remaining tails
          exact ⟨rfl, rfl⟩
      | short _ _ => exact absurd rfl (utf8_plain noQuote noBackslash same).2
      | unicode _ _ => exact absurd rfl (utf8_plain noQuote noBackslash same).2
  | short escape _ ih =>
      cases second with
      | nil => simp at same
      | char _ noQuote noBackslash _ =>
          rw [List.append_assoc] at same
          exact absurd rfl (utf8_plain noQuote noBackslash same.symm).2
      | short again remaining =>
          simp only [List.cons_append, List.cons.injEq, true_and] at same
          obtain ⟨rfl, same⟩ := same
          obtain ⟨rfl, rfl⟩ := ih remaining same
          rw [escape] at again
          exact ⟨by rw [Option.some.inj again], rfl⟩
      | unicode _ _ =>
          simp only [List.cons_append, List.cons.injEq, true_and] at same
          obtain ⟨rfl, _⟩ := same
          cases escape
  | unicode hex _ ih =>
      cases second with
      | nil => simp at same
      | char _ noQuote noBackslash _ =>
          rw [List.append_assoc] at same
          exact absurd rfl (utf8_plain noQuote noBackslash same.symm).2
      | short escape _ =>
          simp only [List.cons_append, List.cons.injEq, true_and] at same
          obtain ⟨rfl, _⟩ := same
          cases escape
      | unicode again remaining =>
          simp only [List.cons_append, List.cons.injEq, true_and] at same
          obtain ⟨rfl, rfl, rfl, rfl, same⟩ := same
          obtain ⟨rfl, rfl⟩ := ih remaining same
          rw [hex] at again
          exact ⟨by rw [Option.some.inj again], rfl⟩

/-! The first byte of a value. -/

inductive Json.Kind
  | null
  | bool (value : Bool)
  | number
  | string
  | array
  | object

def Json.kind : Json → Kind
  | null => .null
  | bool value => .bool value
  | number _ => .number
  | string _ => .string
  | array _ => .array
  | object _ => .object

/-- The kind of the values that start with this byte. -/
def kindOf (c : UInt8) : Option Json.Kind :=
  if isDigit c || c == 45 then some .number
  else if c = 110 then some .null
  else if c = 116 then some (.bool true)
  else if c = 102 then some (.bool false)
  else if c = 34 then some .string
  else if c = 91 then some .array
  else if c = 123 then some .object
  else none

theorem Derives.head {tree : Json} {body : List UInt8} (derived : Derives (.value tree) body) :
    ∃ c rest, body = c :: rest ∧ kindOf c = some tree.kind := by
  cases derived with
  | null => exact ⟨110, _, rfl, rfl⟩
  | bool value =>
      cases value with
      | true => exact ⟨116, _, rfl, rfl⟩
      | false => exact ⟨102, _, rfl, rfl⟩
  | number spelled =>
      obtain ⟨c, rest, same, start⟩ := spelled.head
      exact ⟨c, rest, same, if_pos start⟩
  | string _ => exact ⟨34, _, rfl, rfl⟩
  | emptyArray _ => exact ⟨91, _, rfl, rfl⟩
  | array _ => exact ⟨91, _, rfl, rfl⟩
  | emptyObject _ => exact ⟨123, _, rfl, rfl⟩
  | object _ => exact ⟨123, _, rfl, rfl⟩

theorem kindOf_other {c : UInt8} {kind : Json.Kind} (starts : kindOf c = some kind) :
    isBlank c = false ∧ c ≠ 93 ∧ c ≠ 125 := by
  refine ⟨?_, ?_, ?_⟩
  · by_contra blank
    simp only [isBlank, Bool.not_eq_false, Bool.or_eq_true, beq_iff_eq] at blank
    rcases blank with ((rfl | rfl) | rfl) | rfl <;> cases starts
  · rintro rfl
    cases starts
  · rintro rfl
    cases starts

/-! One tree. -/

namespace Phrase

/-- A phrase of this kind could go on with this byte. -/
def goesOn : Phrase → UInt8 → Bool
  | value _, c => isNumberByte c
  | element _, c => isNumberByte c || isBlank c
  | member _, c => isNumberByte c || isBlank c
  | elements _, c => isNumberByte c || isBlank c || c == 44
  | members _, c => isNumberByte c || isBlank c || c == 44

def Ends (phrase : Phrase) (rest : List UInt8) : Prop := ∀ c ∈ rest.head?, phrase.goesOn c = false

theorem ends_cons {phrase : Phrase} {c : UInt8} (stops : phrase.goesOn c = false)
    (rest : List UInt8) : phrase.Ends (c :: rest) := by
  intro d head
  cases head
  exact stops

theorem ends_noBlank {tree : Json} {rest : List UInt8} (ends : (element tree).Ends rest) :
    ∀ c ∈ rest.head?, isBlank c = false := by
  intro c head
  exact (Bool.or_eq_false_iff.mp (ends c head)).2

theorem ends_blanks {tree : Json} {blanks rest : List UInt8} (blank : Blanks blanks)
    (ends : (element tree).Ends rest) : (value tree).Ends (blanks ++ rest) := by
  intro c head
  cases blanks with
  | nil => exact (Bool.or_eq_false_iff.mp (ends c head)).1
  | cons d later =>
      cases head
      exact not_isNumberByte_of_isBlank (blank c (by simp))

end Phrase

theorem blanks_unique {first second rest later : List UInt8} {c d : UInt8}
    (firstBlank : Blanks first) (secondBlank : Blanks second) (stops : isBlank c = false)
    (otherStops : isBlank d = false) (same : first ++ c :: rest = second ++ d :: later) :
    first = second ∧ c = d ∧ rest = later := by
  have ends {e : UInt8} {tail : List UInt8} (plain : isBlank e = false) :
      ∀ b ∈ (e :: tail).head?, isBlank b = false := by
    intro b head
    cases head
    exact plain
  obtain ⟨blanks, tails⟩ := run_unique firstBlank secondBlank (ends stops) (ends otherStops) same
  exact ⟨blanks, List.cons.inj tails⟩

/-- Among the phrases of this kind, this is the only one with a text that these bytes can be, also
in front of other bytes. -/
def OnlyAs {κ : Type} (kind : κ → Phrase) (x : κ) (body : List UInt8) : Prop :=
  ∀ {y : κ} {written rest later : List UInt8}, Derives (kind y) written → (kind x).Ends rest →
    (kind y).Ends later → body ++ rest = written ++ later → x = y ∧ body = written

def Only : Phrase → List UInt8 → Prop
  | .value tree => OnlyAs .value tree
  | .element tree => OnlyAs .element tree
  | .elements trees => OnlyAs .elements trees
  | .member entry => OnlyAs .member entry
  | .members entries => OnlyAs .members entries

/-! Values. -/

theorem Derives.kind_eq {tree other : Json} {body written rest later : List UInt8}
    (first : Derives (.value tree) body) (second : Derives (.value other) written)
    (same : body ++ rest = written ++ later) : tree.kind = other.kind := by
  obtain ⟨c, front, rfl, starts⟩ := first.head
  obtain ⟨d, back, rfl, begins⟩ := second.head
  obtain rfl : c = d := (List.cons.inj same).1
  rw [starts] at begins
  exact Option.some.inj begins

theorem only_null : OnlyAs .value .null (lit "null").bytes := by
  intro other written rest later second _ _ same
  have kinds := Derives.null.kind_eq second same
  cases second with
  | null => exact ⟨rfl, rfl⟩
  | _ => cases kinds

theorem only_bool (value : Bool) : OnlyAs .value (.bool value)
    (if value then (lit "true").bytes else (lit "false").bytes) := by
  intro other written rest later second _ _ same
  have kinds := (Derives.bool value).kind_eq second same
  cases second with
  | bool again =>
      cases kinds
      exact ⟨rfl, rfl⟩
  | _ => cases kinds

theorem only_number {lexeme : List UInt8} (spelled : IsNumber lexeme) :
    OnlyAs .value (.number lexeme) lexeme := by
  intro other written rest later second ends otherEnds same
  have kinds := (Derives.number spelled).kind_eq second same
  cases second with
  | number again =>
      obtain ⟨rfl, _⟩ := run_unique spelled.bytes again.bytes ends otherEnds same
      exact ⟨rfl, rfl⟩
  | _ => cases kinds

theorem between_eq {opening closing : UInt8} {body written rest later : List UInt8}
    (same : opening :: (body ++ [closing]) ++ rest = opening :: (written ++ [closing]) ++ later) :
    body ++ closing :: rest = written ++ closing :: later := by
  simpa only [List.cons_append, List.append_assoc, List.nil_append, List.cons.injEq,
    true_and] using same

theorem only_string {units : List UInt16} {body : List UInt8} (content : StringBody units body) :
    OnlyAs .value (.string units) (34 :: (body ++ [34])) := by
  intro other written rest later second _ _ same
  have kinds := (Derives.string content).kind_eq second same
  cases second with
  | string again =>
      obtain ⟨rfl, rfl⟩ := content.unique again (between_eq same)
      exact ⟨rfl, rfl⟩
  | _ => cases kinds

theorem only_element {tree : Json} {before body after : List UInt8} (beforeBlank : Blanks before)
    (afterBlank : Blanks after) (value : Derives (.value tree) body)
    (only : OnlyAs .value tree body) : OnlyAs .element tree (before ++ (body ++ after)) := by
  intro other written rest later second ends otherEnds same
  cases second with
  | @element _ front content behind frontBlank behindBlank otherValue =>
      simp only [List.append_assoc] at same
      obtain ⟨c, tail, starts, opens⟩ := value.head
      obtain ⟨d, otherTail, otherStarts, otherOpens⟩ := otherValue.head
      rw [starts, otherStarts] at same
      -- the first byte that is no blank starts the value in both texts
      obtain ⟨rfl, sameByte, tails⟩ := blanks_unique beforeBlank frontBlank
        (kindOf_other opens).1 (kindOf_other otherOpens).1 same
      have values : body ++ (after ++ rest) = content ++ (behind ++ later) := by
        rw [starts, otherStarts, sameByte]
        exact congrArg (List.cons d) tails
      obtain ⟨rfl, rfl⟩ := only otherValue (Phrase.ends_blanks afterBlank ends)
        (Phrase.ends_blanks behindBlank otherEnds) values
      obtain ⟨rfl, _⟩ := run_unique afterBlank behindBlank (Phrase.ends_noBlank ends)
        (Phrase.ends_noBlank otherEnds) (List.append_cancel_left values)
      exact ⟨rfl, rfl⟩

theorem only_member {name : List UInt16} {tree : Json} {before text after body : List UInt8}
    (beforeBlank : Blanks before) (afterBlank : Blanks after) (named : StringBody name text)
    (only : OnlyAs .element tree body) :
    OnlyAs .member (name, tree) (before ++ 34 :: (text ++ 34 :: (after ++ 58 :: body))) := by
  intro other written rest later second ends otherEnds same
  cases second with
  | member frontBlank behindBlank otherNamed again =>
      simp only [List.append_assoc, List.cons_append] at same
      obtain ⟨rfl, _, texts⟩ :=
        blanks_unique beforeBlank frontBlank (by decide) (by decide) same
      obtain ⟨rfl, rfl⟩ := named.unique otherNamed texts
      obtain ⟨rfl, _, values⟩ := blanks_unique afterBlank behindBlank (by decide) (by decide)
        (List.cons.inj (List.append_cancel_left texts)).2
      obtain ⟨rfl, rfl⟩ := only again ends otherEnds values
      exact ⟨rfl, rfl⟩

/-! Lists. -/

/-- Phrases of this kind are items of that kind with commas between them. -/
structure CommaList {κ : Type} (item : κ → Phrase) (items : List κ → Phrase) : Prop where
  split : ∀ {ys : List κ} {written : List UInt8}, Derives (items ys) written →
    (∃ y, ys = [y] ∧ Derives (item y) written) ∨
      ∃ y others front back, ys = y :: others ∧ written = front ++ 44 :: back ∧
        Derives (item y) front ∧ Derives (items others) back
  item_goesOn : ∀ x c, (item x).goesOn c = (isNumberByte c || isBlank c)
  items_goesOn : ∀ xs c, (items xs).goesOn c = (isNumberByte c || isBlank c || c == 44)

theorem elements_commaList : CommaList .element .elements where
  split := by
    intro ys written derived
    cases derived with
    | lastElement element => exact Or.inl ⟨_, rfl, element⟩
    | nextElement element more => exact Or.inr ⟨_, _, _, _, rfl, rfl, element, more⟩
  item_goesOn := fun _ _ => rfl
  items_goesOn := fun _ _ => rfl

theorem members_commaList : CommaList .member .members where
  split := by
    intro ys written derived
    cases derived with
    | lastMember member => exact Or.inl ⟨_, rfl, member⟩
    | nextMember member more => exact Or.inr ⟨_, _, _, _, rfl, rfl, member, more⟩
  item_goesOn := fun _ _ => rfl
  items_goesOn := fun _ _ => rfl

section Lists

variable {κ : Type} {item : κ → Phrase} {items : List κ → Phrase} {x : κ} {xs ys : List κ}
  {body rest : List UInt8}

theorem CommaList.ends_item (list : CommaList item items) (ends : (items xs).Ends rest) :
    (item x).Ends rest := by
  intro c head
  have stops := ends c head
  rw [list.items_goesOn] at stops
  rw [list.item_goesOn]
  exact (Bool.or_eq_false_iff.mp stops).1

theorem CommaList.ends_items (list : CommaList item items) (ends : (items xs).Ends rest) :
    (items ys).Ends rest := by
  intro c head
  rw [list.items_goesOn, ← list.items_goesOn xs]
  exact ends c head

theorem CommaList.ends_comma (list : CommaList item items) : (item x).Ends (44 :: rest) := by
  apply Phrase.ends_cons
  rw [list.item_goesOn]
  rfl

theorem CommaList.not_ends_comma (list : CommaList item items) :
    ¬ (items xs).Ends (44 :: rest) := by
  intro ends
  have stops := ends 44 rfl
  rw [list.items_goesOn] at stops
  cases stops

theorem only_last (list : CommaList item items) (only : OnlyAs item x body) :
    OnlyAs items [x] body := by
  intro ys written rest later second ends otherEnds same
  rcases list.split second with ⟨y, rfl, again⟩ | ⟨y, others, front, back, rfl, rfl, again, _⟩
  · obtain ⟨rfl, rfl⟩ := only again (list.ends_item ends) (list.ends_item otherEnds) same
    exact ⟨rfl, rfl⟩
  · -- one text would end where the other has a comma
    rw [List.append_assoc] at same
    obtain ⟨_, rfl⟩ := only again (list.ends_item ends) list.ends_comma same
    rw [List.append_cancel_left same] at ends
    exact absurd ends list.not_ends_comma

theorem only_next (list : CommaList item items) (only : OnlyAs item x body)
    {more : List UInt8} (onlyMore : OnlyAs items xs more) :
    OnlyAs items (x :: xs) (body ++ 44 :: more) := by
  intro ys written rest later second ends otherEnds same
  rw [List.append_assoc] at same
  rcases list.split second with
    ⟨y, rfl, again⟩ | ⟨y, others, front, back, rfl, rfl, again, remaining⟩
  · obtain ⟨_, rfl⟩ := only again list.ends_comma (list.ends_item otherEnds) same
    rw [← List.append_cancel_left same] at otherEnds
    exact absurd otherEnds list.not_ends_comma
  · rw [List.append_assoc] at same
    obtain ⟨rfl, rfl⟩ := only again list.ends_comma list.ends_comma same
    obtain ⟨rfl, rfl⟩ := onlyMore remaining (list.ends_items ends) (list.ends_items otherEnds)
      (List.cons.inj (List.append_cancel_left same)).2
    exact ⟨rfl, rfl⟩

end Lists

/-! Arrays and objects. -/

theorem Derives.elements_head {trees : List Json} {body : List UInt8}
    (derived : Derives (.elements trees) body) :
    ∃ blanks c rest, Blanks blanks ∧ body = blanks ++ c :: rest ∧ isBlank c = false ∧ c ≠ 93 := by
  have start {tree : Json} {front : List UInt8} (element : Derives (.element tree) front) :
      ∃ blanks c rest, Blanks blanks ∧ front = blanks ++ c :: rest ∧ isBlank c = false ∧
        c ≠ 93 := by
    cases element with
    | @element _ before body after beforeBlank _ value =>
        obtain ⟨c, rest, rfl, starts⟩ := value.head
        obtain ⟨noBlank, noClose, _⟩ := kindOf_other starts
        exact ⟨before, c, rest ++ after, beforeBlank, rfl, noBlank, noClose⟩
  cases derived with
  | lastElement element => exact start element
  | @nextElement _ _ front rest element _ =>
      obtain ⟨blanks, c, later, blank, rfl, noBlank, noClose⟩ := start element
      exact ⟨blanks, c, later ++ 44 :: rest, blank, by simp, noBlank, noClose⟩

theorem Derives.members_head {entries : List (List UInt16 × Json)} {body : List UInt8}
    (derived : Derives (.members entries) body) :
    ∃ blanks c rest, Blanks blanks ∧ body = blanks ++ c :: rest ∧ isBlank c = false ∧
      c ≠ 125 := by
  have start {entry : List UInt16 × Json} {front : List UInt8}
      (member : Derives (.member entry) front) :
      ∃ blanks rest, Blanks blanks ∧ front = blanks ++ 34 :: rest := by
    cases member with
    | member beforeBlank _ _ _ => exact ⟨_, _, beforeBlank, rfl⟩
  cases derived with
  | lastMember member =>
      obtain ⟨blanks, rest, blank, rfl⟩ := start member
      exact ⟨blanks, 34, rest, blank, rfl, rfl, by decide⟩
  | @nextMember _ _ front rest member _ =>
      obtain ⟨blanks, later, blank, rfl⟩ := start member
      exact ⟨blanks, 34, later ++ 44 :: rest, blank, by simp, rfl, by decide⟩

/-- Blanks up to a closing bracket are no text that starts with another byte. -/
theorem blanks_ne {close : UInt8} {blanks body rest later : List UInt8} (blank : Blanks blanks)
    (plain : isBlank close = false)
    (starts : ∃ before c after, Blanks before ∧ body = before ++ c :: after ∧
      isBlank c = false ∧ c ≠ close) : blanks ++ close :: rest ≠ body ++ later := by
  obtain ⟨before, c, after, beforeBlank, rfl, noBlank, other⟩ := starts
  intro same
  rw [List.append_assoc] at same
  obtain ⟨_, equal, _⟩ := blanks_unique blank beforeBlank plain noBlank same
  exact other equal.symm

theorem only_emptyArray {blanks : List UInt8} (blank : Blanks blanks) :
    OnlyAs .value (.array []) (91 :: (blanks ++ [93])) := by
  intro other written rest later second _ _ same
  have kinds := (Derives.emptyArray blank).kind_eq second same
  cases second with
  | emptyArray again =>
      obtain ⟨rfl, _⟩ := blanks_unique blank again rfl rfl (between_eq same)
      exact ⟨rfl, rfl⟩
  | array elements =>
      exact absurd (between_eq same) (blanks_ne blank rfl elements.elements_head)
  | _ => cases kinds

theorem only_array {trees : List Json} {body : List UInt8}
    (elements : Derives (.elements trees) body) (only : OnlyAs .elements trees body) :
    OnlyAs .value (.array trees) (91 :: (body ++ [93])) := by
  intro other written rest later second _ _ same
  have kinds := (Derives.array elements).kind_eq second same
  cases second with
  | emptyArray blank =>
      exact absurd (between_eq same).symm (blanks_ne blank rfl elements.elements_head)
  | array again =>
      obtain ⟨rfl, rfl⟩ :=
        only again (Phrase.ends_cons rfl _) (Phrase.ends_cons rfl _) (between_eq same)
      exact ⟨rfl, rfl⟩
  | _ => cases kinds

theorem only_emptyObject {blanks : List UInt8} (blank : Blanks blanks) :
    OnlyAs .value (.object []) (123 :: (blanks ++ [125])) := by
  intro other written rest later second _ _ same
  have kinds := (Derives.emptyObject blank).kind_eq second same
  cases second with
  | emptyObject again =>
      obtain ⟨rfl, _⟩ := blanks_unique blank again rfl rfl (between_eq same)
      exact ⟨rfl, rfl⟩
  | object members =>
      exact absurd (between_eq same) (blanks_ne blank rfl members.members_head)
  | _ => cases kinds

theorem only_object {entries : List (List UInt16 × Json)} {body : List UInt8}
    (members : Derives (.members entries) body) (only : OnlyAs .members entries body) :
    OnlyAs .value (.object entries) (123 :: (body ++ [125])) := by
  intro other written rest later second _ _ same
  have kinds := (Derives.object members).kind_eq second same
  cases second with
  | emptyObject blank =>
      exact absurd (between_eq same).symm (blanks_ne blank rfl members.members_head)
  | object again =>
      obtain ⟨rfl, rfl⟩ :=
        only again (Phrase.ends_cons rfl _) (Phrase.ends_cons rfl _) (between_eq same)
      exact ⟨rfl, rfl⟩
  | _ => cases kinds

/-! Every phrase. -/

/-- The grammar is unambiguous, also for a phrase in front of other bytes. -/
theorem Derives.only {phrase : Phrase} {body : List UInt8} (derived : Derives phrase body) :
    Only phrase body := by
  induction derived with
  | null => exact only_null
  | bool value => exact only_bool value
  | number spelled => exact only_number spelled
  | string content => exact only_string content
  | emptyArray blank => exact only_emptyArray blank
  | array elements only => exact only_array elements only
  | emptyObject blank => exact only_emptyObject blank
  | object members only => exact only_object members only
  | element beforeBlank afterBlank value only =>
      exact only_element beforeBlank afterBlank value only
  | lastElement _ only => exact only_last elements_commaList only
  | nextElement _ _ only onlyMore => exact only_next elements_commaList only onlyMore
  | member beforeBlank afterBlank named _ only =>
      exact only_member beforeBlank afterBlank named only
  | lastMember _ only => exact only_last members_commaList only
  | nextMember _ _ only onlyMore => exact only_next members_commaList only onlyMore

theorem JsonText.unique {tree other : Json} {bytes : List UInt8} (first : JsonText tree bytes)
    (second : JsonText other bytes) : tree = other := by
  have nothing (phrase : Phrase) : phrase.Ends [] := fun _ head => by cases head
  have only : OnlyAs .element tree bytes := Derives.only first
  exact (only second (nothing _) (nothing _) rfl).1

end CLib
