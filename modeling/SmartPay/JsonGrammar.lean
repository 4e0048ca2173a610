import SmartPay.CNumeral

/-!
JSON texts as bytes. The grammar derives a tree from a text; a number keeps its
spelling and a string is its UTF-16 units, as escapes can name them.
-/

namespace CLib

inductive Json
  | null
  | bool (value : Bool)
  | number (lexeme : List UInt8)
  | string (units : List UInt16)
  | array (elements : List Json)
  | object (members : List (List UInt16 × Json))

/-! Blanks and numbers. -/

def isBlank (c : UInt8) : Bool := c == 32 || c == 9 || c == 10 || c == 13

def Blanks (bytes : List UInt8) : Prop := ∀ c ∈ bytes, isBlank c = true

def IsDigits (bytes : List UInt8) : Prop := bytes ≠ [] ∧ ∀ c ∈ bytes, isDigit c = true

/-- A sign, digits with no needless zero in front, a fraction and an exponent. -/
def IsNumber (lexeme : List UInt8) : Prop :=
  ∃ sign digits fraction exponent, lexeme = sign ++ digits ++ fraction ++ exponent ∧
    (sign = [] ∨ sign = [45]) ∧
    IsDigits digits ∧ (digits.head? = some 48 → digits = [48]) ∧
    (fraction = [] ∨ ∃ part, IsDigits part ∧ fraction = 46 :: part) ∧
    (exponent = [] ∨ ∃ letter power part, (letter = 101 ∨ letter = 69) ∧
      (power = [] ∨ power = [43] ∨ power = [45]) ∧ IsDigits part ∧
      exponent = letter :: (power ++ part))

theorem Blanks.append {first second : List UInt8} (firstBlank : Blanks first)
    (secondBlank : Blanks second) : Blanks (first ++ second) := by
  intro c member
  rcases List.mem_append.mp member with inside | inside
  · exact firstBlank c inside
  · exact secondBlank c inside

/-! Strings. -/

def utf16Units (c : Char) : List UInt16 :=
  if c.toNat < 65536 then [UInt16.ofNat c.toNat]
  else
    [UInt16.ofNat (55296 + (c.toNat - 65536) / 1024),
      UInt16.ofNat (56320 + (c.toNat - 65536) % 1024)]

/-- The unit that a backslash and this byte stand for. -/
def shortEscape (c : UInt8) : Option UInt16 :=
  if c = 34 ∨ c = 92 ∨ c = 47 then some (UInt16.ofNat c.toNat)
  else if c = 98 then some 8
  else if c = 102 then some 12
  else if c = 110 then some 10
  else if c = 114 then some 13
  else if c = 116 then some 9
  else none

def hexDigit (c : UInt8) : Option Nat :=
  if isDigit c then some (c.toNat - 48)
  else if 65 ≤ c.toNat ∧ c.toNat ≤ 70 then some (c.toNat - 55)
  else if 97 ≤ c.toNat ∧ c.toNat ≤ 102 then some (c.toNat - 87)
  else none

def hexUnit (a b c d : UInt8) : Option UInt16 := do
  let first ← hexDigit a
  let second ← hexDigit b
  let third ← hexDigit c
  let fourth ← hexDigit d
  some (UInt16.ofNat (((first * 16 + second) * 16 + third) * 16 + fourth))

/-- What stands between the quotes of a string with these units. -/
inductive StringBody : List UInt16 → List UInt8 → Prop
  | nil : StringBody [] []
  | char {c : Char} {units : List UInt16} {body : List UInt8} : 32 ≤ c.toNat → c ≠ '"' → c ≠ '\\' →
      StringBody units body → StringBody (utf16Units c ++ units) (String.utf8EncodeChar c ++ body)
  | short {c : UInt8} {unit : UInt16} {units : List UInt16} {body : List UInt8} :
      shortEscape c = some unit → StringBody units body →
      StringBody (unit :: units) (92 :: c :: body)
  | unicode {a b c d : UInt8} {unit : UInt16} {units : List UInt16} {body : List UInt8} :
      hexUnit a b c d = some unit → StringBody units body →
      StringBody (unit :: units) (92 :: 117 :: a :: b :: c :: d :: body)

/-- The units of a text of plain ASCII characters. -/
def asciiUnits (bytes : List UInt8) : List UInt16 :=
  bytes.map fun c => UInt16.ofNat c.toNat

def isPlain (c : UInt8) : Bool :=
  decide (32 ≤ c.toNat) && decide (c.toNat < 128) && c != 34 && c != 92

theorem StringBody.ascii {bytes : List UInt8} (plain : bytes.all isPlain = true) :
    StringBody (asciiUnits bytes) bytes := by
  induction bytes with
  | nil => exact StringBody.nil
  | cons c rest ih =>
      rw [List.all_cons, Bool.and_eq_true] at plain
      have remaining := ih plain.2
      obtain ⟨⟨⟨low, high⟩, noQuote⟩, noBackslash⟩ : ((32 ≤ c.toNat ∧ c.toNat < 128) ∧ c ≠ 34) ∧
          c ≠ 92 := by simpa [isPlain] using plain.1
      have value : (Char.ofNat c.toNat).toNat = c.toNat := by
        rw [Char.toNat_ofNat, if_pos (Or.inl (by omega))]
      have encoded : String.utf8EncodeChar (Char.ofNat c.toNat) = [c] := by
        have small : (Char.ofNat c.toNat).val.toNat ≤ 127 := by
          rw [show (Char.ofNat c.toNat).val.toNat = c.toNat from value]
          omega
        simp only [String.utf8EncodeChar, if_pos small]
        rw [show (Char.ofNat c.toNat).val.toNat = c.toNat from value, UInt8.ofNat_toNat]
      have units : utf16Units (Char.ofNat c.toNat) = [UInt16.ofNat c.toNat] := by
        rw [utf16Units, value, if_pos (by omega)]
      have itself (d : Char) (equal : Char.ofNat c.toNat = d) : c = UInt8.ofNat d.toNat := by
        rw [← equal, value, UInt8.ofNat_toNat]
      have step := StringBody.char (c := Char.ofNat c.toNat) (by omega)
        (fun equal => noQuote (itself '"' equal)) (fun equal => noBackslash (itself '\\' equal))
        remaining
      rw [encoded, units] at step
      exact step

/-! Trees. -/

inductive Phrase
  | value (tree : Json)
  | element (tree : Json)
  | elements (trees : List Json)
  | member (entry : List UInt16 × Json)
  | members (entries : List (List UInt16 × Json))

/-- The grammar: these bytes are a text of this phrase. An element is a value with blanks around
it; lists of elements and of members are not empty. -/
inductive Derives : Phrase → List UInt8 → Prop
  | null : Derives (.value .null) (lit "null").bytes
  | bool (value : Bool) :
      Derives (.value (.bool value)) (if value then (lit "true").bytes else (lit "false").bytes)
  | number {lexeme : List UInt8} : IsNumber lexeme → Derives (.value (.number lexeme)) lexeme
  | string {units : List UInt16} {body : List UInt8} : StringBody units body →
      Derives (.value (.string units)) (34 :: (body ++ [34]))
  | emptyArray {blanks : List UInt8} : Blanks blanks →
      Derives (.value (.array [])) (91 :: (blanks ++ [93]))
  | array {trees : List Json} {body : List UInt8} : Derives (.elements trees) body →
      Derives (.value (.array trees)) (91 :: (body ++ [93]))
  | emptyObject {blanks : List UInt8} : Blanks blanks →
      Derives (.value (.object [])) (123 :: (blanks ++ [125]))
  | object {entries : List (List UInt16 × Json)} {body : List UInt8} :
      Derives (.members entries) body → Derives (.value (.object entries)) (123 :: (body ++ [125]))
  | element {tree : Json} {before body after : List UInt8} : Blanks before → Blanks after →
      Derives (.value tree) body → Derives (.element tree) (before ++ (body ++ after))
  | lastElement {tree : Json} {body : List UInt8} : Derives (.element tree) body →
      Derives (.elements [tree]) body
  | nextElement {tree : Json} {trees : List Json} {body rest : List UInt8} :
      Derives (.element tree) body → Derives (.elements trees) rest →
      Derives (.elements (tree :: trees)) (body ++ 44 :: rest)
  | member {name : List UInt16} {tree : Json} {before written after body : List UInt8} :
      Blanks before → Blanks after → StringBody name written → Derives (.element tree) body →
      Derives (.member (name, tree)) (before ++ 34 :: (written ++ 34 :: (after ++ 58 :: body)))
  | lastMember {entry : List UInt16 × Json} {body : List UInt8} : Derives (.member entry) body →
      Derives (.members [entry]) body
  | nextMember {entry : List UInt16 × Json} {entries : List (List UInt16 × Json)}
      {body rest : List UInt8} : Derives (.member entry) body → Derives (.members entries) rest →
      Derives (.members (entry :: entries)) (body ++ 44 :: rest)

def JsonText (tree : Json) (bytes : List UInt8) : Prop := Derives (.element tree) bytes

/-! Rules for writing texts. -/

theorem isNumber_decimalBytes (n : Nat) : IsNumber (decimalBytes n) := by
  refine ⟨[], decimalBytes n, [], [], by simp, Or.inl rfl, ⟨decimalBytes_ne_nil n, ?_⟩, ?_,
    Or.inl rfl, Or.inl rfl⟩
  · intro c member
    exact isDigit_of_mem_decimalBytes member
  · intro head
    rcases decimalBytes_head n with zero | ⟨c, rest, numeral, nonzero⟩
    · exact zero
    · rw [numeral] at head
      exact absurd (Option.some.inj head) nonzero

def Json.ofNat (n : Nat) : Json := .number (decimalBytes n)

theorem derives_ofNat (n : Nat) : Derives (.value (.ofNat n)) (decimalBytes n) :=
  Derives.number (isNumber_decimalBytes n)

/-- The text is blank or a list of these trees. -/
def ListsTrees (trees : List Json) (text : List UInt8) : Prop :=
  (trees = [] ∧ Blanks text) ∨ Derives (.elements trees) text

section Padding

variable {before body after : List UInt8}

theorem Derives.element_before {tree : Json} (blank : Blanks before)
    (derived : Derives (.element tree) body) : Derives (.element tree) (before ++ body) := by
  cases derived with
  | element frontBlank behindBlank value =>
      rw [← List.append_assoc]
      exact Derives.element (blank.append frontBlank) behindBlank value

theorem Derives.element_after {tree : Json} (blank : Blanks after)
    (derived : Derives (.element tree) body) : Derives (.element tree) (body ++ after) := by
  cases derived with
  | element frontBlank behindBlank value =>
      rw [List.append_assoc, List.append_assoc]
      exact Derives.element frontBlank (behindBlank.append blank) value

theorem Derives.elements_before {trees : List Json} (blank : Blanks before)
    (derived : Derives (.elements trees) body) : Derives (.elements trees) (before ++ body) := by
  cases derived with
  | lastElement element => exact Derives.lastElement (element.element_before blank)
  | nextElement element remaining =>
      rw [← List.append_assoc]
      exact Derives.nextElement (element.element_before blank) remaining

theorem Derives.elements_after {trees : List Json} (blank : Blanks after)
    (derived : Derives (.elements trees) body) : Derives (.elements trees) (body ++ after) := by
  induction trees generalizing body with
  | nil => cases derived
  | cons tree trees ih =>
      cases derived with
      | lastElement element => exact Derives.lastElement (element.element_after blank)
      | nextElement element remaining =>
          rw [List.append_assoc]
          exact Derives.nextElement element (ih remaining)

theorem Derives.member_after {entry : List UInt16 × Json} (blank : Blanks after)
    (derived : Derives (.member entry) body) : Derives (.member entry) (body ++ after) := by
  cases derived with
  | member frontBlank behindBlank name element =>
      simp only [List.append_assoc, List.cons_append]
      exact Derives.member frontBlank behindBlank name (element.element_after blank)

theorem ListsTrees.array {trees : List Json} (lists : ListsTrees trees body)
    (beforeBlank : Blanks before) (afterBlank : Blanks after) :
    Derives (.value (.array trees)) (91 :: ((before ++ (body ++ after)) ++ [93])) := by
  rcases lists with ⟨rfl, blank⟩ | elements
  · exact Derives.emptyArray (beforeBlank.append (blank.append afterBlank))
  · exact Derives.array ((elements.elements_after afterBlank).elements_before beforeBlank)

end Padding

/-! Members by name. -/

/-- An object as its readers keep it: a later member replaces an earlier one of its name. -/
def byName (entries : List (List UInt16 × Json)) : List UInt16 → Option Json :=
  entries.foldl (fun kept entry => Function.update kept entry.1 (some entry.2)) fun _ => none

theorem byName_snoc (entries : List (List UInt16 × Json)) (entry : List UInt16 × Json) :
    byName (entries ++ [entry]) = Function.update (byName entries) entry.1 (some entry.2) := by
  rw [byName, List.foldl_append]
  rfl

theorem byName_mem {entries : List (List UInt16 × Json)} {name : List UInt16} {tree : Json}
    (kept : byName entries name = some tree) : (name, tree) ∈ entries := by
  induction entries using List.reverseRecOn with
  | nil => cases kept
  | append_singleton entries entry ih =>
      rw [byName_snoc] at kept
      by_cases same : name = entry.1
      · subst name
        rw [Function.update_self, Option.some.injEq] at kept
        subst tree
        simp
      · rw [Function.update_of_ne same] at kept
        simp [ih kept]

end CLib
