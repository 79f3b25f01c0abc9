/-!
The grammar of JSON texts as RFC 8259 gives it. It knows no limits: numbers may be of any size, any
four hexadecimal digits may stand in an escape, and values may nest at any depth.
-/
namespace Generation.Json.Grammar

/-- What may stand around every value, name and mark. -/
def IsBlank (cs : List Char) : Prop := ∀ c ∈ cs, c = ' ' ∨ c = '\t' ∨ c = '\n' ∨ c = '\r'

/-! Numbers -/

structure IsDigits (ds : List Char) : Prop where
  ne_nil : ds ≠ []
  isDigit : ∀ d ∈ ds, d.isDigit

inductive IsFraction : List Char → Prop where
  | none : IsFraction []
  | point {ds : List Char} : IsDigits ds → IsFraction ('.' :: ds)

inductive IsExponent : List Char → Prop where
  | none : IsExponent []
  | mark {c : Char} {sign ds : List Char} : c = 'e' ∨ c = 'E' →
    sign = [] ∨ sign = ['+'] ∨ sign = ['-'] → IsDigits ds → IsExponent (c :: (sign ++ ds))

/-- A number without its sign. A zero before the point stands alone. -/
inductive IsNumber : List Char → Prop where
  | mk {c : Char} {ds fraction exponent : List Char} : (∀ d ∈ c :: ds, d.isDigit) →
    (c = '0' → ds = []) → IsFraction fraction → IsExponent exponent →
    IsNumber (c :: (ds ++ (fraction ++ exponent)))

/-! Strings -/

/-- A character that stands for itself. -/
structure IsPlain (c : Char) : Prop where
  notQuote : c ≠ '"'
  notBackslash : c ≠ '\\'
  notControl : 0x20 ≤ c.toNat

instance (c : Char) : Decidable (IsPlain c) :=
  decidable_of_iff (c ≠ '"' ∧ c ≠ '\\' ∧ 0x20 ≤ c.toNat)
    ⟨fun h => ⟨h.1, h.2.1, h.2.2⟩, fun h => ⟨h.notQuote, h.notBackslash, h.notControl⟩⟩

/-- The letters of short escapes, with what they stand for. -/
def shortEscapes : List (Char × Char) :=
  [('"', '"'), ('\\', '\\'), ('/', '/'), ('b', '\x08'), ('f', '\x0c'), ('n', '\n'), ('r', '\r'),
    ('t', '\t')]

def hexDigit? (c : Char) : Option Nat :=
  if c.isDigit then some (c.toNat - '0'.toNat)
  else if 'a' ≤ c ∧ c ≤ 'f' then some (c.toNat - 'a'.toNat + 10)
  else if 'A' ≤ c ∧ c ≤ 'F' then some (c.toNat - 'A'.toNat + 10)
  else none

/-- Four hexadecimal digits with their value. -/
inductive IsUnit : List Char → Nat → Prop where
  | mk {a b c d : Char} {i j k l : Nat} : hexDigit? a = some i → hexDigit? b = some j →
    hexDigit? c = some k → hexDigit? d = some l →
    IsUnit [a, b, c, d] (((i * 16 + j) * 16 + k) * 16 + l)

/-- What may stand between the quotes of a string. -/
inductive IsString : List Char → Prop where
  | nil : IsString []
  | plain {c : Char} {cs : List Char} : IsPlain c → IsString cs → IsString (c :: cs)
  | short {l c : Char} {cs : List Char} : (l, c) ∈ shortEscapes → IsString cs →
    IsString ('\\' :: l :: cs)
  | unit {ds cs : List Char} {u : Nat} : IsUnit ds u → IsString cs →
    IsString ('\\' :: 'u' :: (ds ++ cs))

abbrev IsHighSurrogate (u : Nat) : Prop := 0xd800 ≤ u ∧ u ≤ 0xdbff

abbrev IsLowSurrogate (u : Nat) : Prop := 0xdc00 ≤ u ∧ u ≤ 0xdfff

/-- The characters that a string stands for. There are none if it has a surrogate without its
partner. -/
inductive Spells : List Char → List Char → Prop where
  | nil : Spells [] []
  | plain {c : Char} {cs ts : List Char} : IsPlain c → Spells cs ts → Spells (c :: cs) (c :: ts)
  | short {l c : Char} {cs ts : List Char} : (l, c) ∈ shortEscapes → Spells cs ts →
    Spells ('\\' :: l :: cs) (c :: ts)
  | unit {ds cs ts : List Char} {u : Nat} : IsUnit ds u → ¬ IsHighSurrogate u →
    ¬ IsLowSurrogate u → Spells cs ts → Spells ('\\' :: 'u' :: (ds ++ cs)) (.ofNat u :: ts)
  | pair {ds es cs ts : List Char} {high low : Nat} : IsUnit ds high → IsHighSurrogate high →
    IsUnit es low → IsLowSurrogate low → Spells cs ts →
    Spells ('\\' :: 'u' :: (ds ++ '\\' :: 'u' :: (es ++ cs)))
      (.ofNat (0x10000 + (high - 0xd800) * 0x400 + (low - 0xdc00)) :: ts)

theorem spells_of_plain {cs : List Char} (h : ∀ c ∈ cs, IsPlain c) : Spells cs cs := by
  induction cs with
  | nil => exact .nil
  | cons c cs ih => exact .plain (h c (by simp)) (ih fun d hd => h d (by simp [hd]))

theorem isString_of_spells {cs ts : List Char} (h : Spells cs ts) : IsString cs := by
  induction h with
  | nil => exact .nil
  | plain hc _ ih => exact .plain hc ih
  | short hl _ ih => exact .short hl ih
  | unit hds _ _ _ ih => exact .unit hds ih
  | pair hds _ hes _ _ ih => exact .unit hds (.unit hes ih)

theorem isString_of_plain {cs : List Char} (h : ∀ c ∈ cs, IsPlain c) : IsString cs :=
  isString_of_spells (spells_of_plain h)

/-! Values -/

/-- A value in a list, with the blanks around it. -/
structure Item where
  before : List Char
  value : List Char
  after : List Char

namespace Item

def text (i : Item) : List Char := i.before ++ (i.value ++ i.after)

structure Spaced (i : Item) : Prop where
  before : IsBlank i.before
  after : IsBlank i.after

end Item

/-- What stands before the value of a member: its name and a colon, with blanks around them. -/
structure Heading where
  before : List Char
  name : List Char
  beforeColon : List Char
  afterColon : List Char

namespace Heading

def text (h : Heading) : List Char :=
  h.before ++ '"' :: (h.name ++ '"' :: (h.beforeColon ++ ':' :: h.afterColon))

structure WellFormed (h : Heading) : Prop where
  before : IsBlank h.before
  name : IsString h.name
  beforeColon : IsBlank h.beforeColon
  afterColon : IsBlank h.afterColon

end Heading

/-- A member of an object. -/
structure Member where
  heading : Heading
  value : List Char
  after : List Char

namespace Member

def text (m : Member) : List Char := m.heading.text ++ (m.value ++ m.after)

structure WellFormed (m : Member) : Prop where
  heading : m.heading.WellFormed
  after : IsBlank m.after

end Member

/-- Texts with commas between them. -/
def listed : List (List Char) → List Char
  | [] => []
  | t :: ts => t ++ ts.flatMap fun t => ',' :: t

inductive IsValue : List Char → Prop where
  | null : IsValue "null".toList
  | true : IsValue "true".toList
  | false : IsValue "false".toList
  | positive {cs : List Char} : IsNumber cs → IsValue cs
  | negative {cs : List Char} : IsNumber cs → IsValue ('-' :: cs)
  | string {cs : List Char} : IsString cs → IsValue ('"' :: (cs ++ ['"']))
  | array {items : List Item} {blank : List Char} : (∀ i ∈ items, i.Spaced) →
    (∀ i ∈ items, IsValue i.value) → IsBlank blank →
    IsValue ('[' :: (listed (items.map Item.text) ++ (blank ++ [']'])))
  | object {members : List Member} {blank : List Char} : (∀ m ∈ members, m.WellFormed) →
    (∀ m ∈ members, IsValue m.value) → IsBlank blank →
    IsValue ('\x7b' :: (listed (members.map Member.text) ++ (blank ++ ['\x7d'])))

end Generation.Json.Grammar
