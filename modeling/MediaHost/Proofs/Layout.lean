import MediaHost.Json.Record
import Mathlib.Tactic.IntervalCases

/-!
# Proofs — Layout

The texts that are JSON, and what of them is layout: the spaces around values, keys and brackets.
`Spells` relates a quoted text to each of its spellings, `Numeral` holds the numbers, and `Value`
all values.  What a reader has to know of a value before it has read it is its first character
(`Value.head`), and of what follows the value, that it ends it (`Ends`).
-/

namespace MediaHost.Json

/-- Nothing but spaces. -/
def Blank (cs : List Char) : Prop := ∀ c ∈ cs, isSpace c

/-- What may follow a value: nothing, or what starts with a space, a comma or a closing
bracket. -/
def Ends (cs : List Char) : Prop :=
  ∀ c ∈ cs.head?, c ∈ [' ', '\n', '\t', '\r', ',', ']', '}']

/-! ### Quoted texts -/

/-- The letters of the short escapes, and what they stand for. -/
def shortEscapes : List (Char × Char) := [
  ('"', '"'), ('\\', '\\'), ('/', '/'), ('b', '\x08'), ('f', '\x0c'), ('n', '\n'), ('r', '\r'),
  ('t', '\t')]

/-- Four hexadecimal digits of the value `n`. -/
def Hex (n : Nat) (ds : List Char) : Prop :=
  ∃ a b c d, ds.map hexDigit? = [some a, some b, some c, some d] ∧
    n = ((a * 16 + b) * 16 + c) * 16 + d

/-- The ways of writing a text after its opening quote, the closing one included. -/
inductive Spells : List Char → List Char → Prop
  | close : Spells [] ['"']
  | plain {c : Char} {s l : List Char} (low : ' ' ≤ c) (quote : c ≠ '"') (slash : c ≠ '\\')
      (rest : Spells s l) : Spells (c :: s) (c :: l)
  | short {letter c : Char} {s l : List Char} (letter_mem : (letter, c) ∈ shortEscapes)
      (rest : Spells s l) : Spells (c :: s) ('\\' :: letter :: l)
  /-- The character's number.  No character has the number of a surrogate. -/
  | numeric {c : Char} {s ds l : List Char} (hex : Hex c.toNat ds) (rest : Spells s l) :
      Spells (c :: s) ('\\' :: 'u' :: (ds ++ l))
  /-- A character beyond the first 65536, by the two halves of its number. -/
  | pair {c : Char} {m n : Nat} {s ds es l : List Char} (high : Hex (0xd800 + m) ds)
      (low : Hex (0xdc00 + n) es) (hm : m < 0x400) (hn : n < 0x400)
      (number : c.toNat = 0x10000 + m * 0x400 + n) (rest : Spells s l) :
      Spells (c :: s) ('\\' :: 'u' :: (ds ++ '\\' :: 'u' :: (es ++ l)))

/-- A text without control characters, quotes and backslashes may stand as it is. -/
theorem Spells.plainly {s : List Char} (h : ∀ c ∈ s, ' ' ≤ c ∧ c ≠ '"' ∧ c ≠ '\\') :
    Spells s (s ++ ['"']) := by
  induction s with
  | nil => exact .close
  | cons c s ih =>
      obtain ⟨low, quote, slash⟩ := h c (by simp)
      exact .plain low quote slash (ih fun d hd => h d (by simp [hd]))

/-! ### Numbers -/

def decimalDigits : List Char := ['0', '1', '2', '3', '4', '5', '6', '7', '8', '9']

/-- Digits, and at least one. -/
def Digits (ds : List Char) : Prop := ds ≠ [] ∧ ∀ d ∈ ds, isDigit d

/-- A whole number, without zeros in front. -/
inductive Whole : List Char → Prop
  | zero : Whole ['0']
  | digits {d : Char} {ds : List Char} (first : d ≠ '0') (all : Digits (d :: ds)) :
      Whole (d :: ds)

/-- The decimal places, or none. -/
inductive Places : List Char → Prop
  | none : Places []
  | some {ds : List Char} (digits : Digits ds) : Places ('.' :: ds)

/-- The exponent, or none. -/
inductive Power : List Char → Prop
  | none : Power []
  | some {letter : Char} {sign ds : List Char} (letter_mem : letter ∈ ['e', 'E'])
      (sign_mem : sign ∈ [[], ['+'], ['-']]) (digits : Digits ds) : Power (letter :: (sign ++ ds))

/-- A number. -/
inductive Numeral : List Char → Prop
  | of {sign whole places power : List Char} (sign_mem : sign ∈ [[], ['-']])
      (whole_ok : Whole whole) (places_ok : Places places) (power_ok : Power power) :
      Numeral (sign ++ (whole ++ (places ++ power)))

/-! ### Arrays and objects -/

/-- A value and the spaces around it. -/
structure Slot where
  before : List Char
  value : List Char
  after : List Char

/-- A key with its value. -/
structure Member extends Slot where
  beforeKey : List Char
  name : String
  /-- The name as it is spelled after its opening quote. -/
  key : List Char
  afterKey : List Char

def Slot.text (s : Slot) : List Char := s.before ++ (s.value ++ s.after)

def Member.text (m : Member) : List Char :=
  m.beforeKey ++ '"' :: (m.key ++ (m.afterKey ++ ':' :: m.toSlot.text))

structure Slot.Formed (s : Slot) : Prop where
  before : Blank s.before
  after : Blank s.after

structure Member.Formed (m : Member) : Prop extends Slot.Formed m.toSlot where
  beforeKey : Blank m.beforeKey
  key : Spells m.name.toList m.key
  afterKey : Blank m.afterKey

/-- Entries with commas between them, and a comma before all of them unless they come first. -/
def entries : (first : Bool) → List (List Char) → List Char
  | _, [] => []
  | first, t :: ts => (if first then t else ',' :: t) ++ entries false ts

def arrayText (items : List Slot) (pad : List Char) : List Char :=
  '[' :: (entries true (items.map Slot.text) ++ (pad ++ [']']))

def objectText (ms : List Member) (pad : List Char) : List Char :=
  '{' :: (entries true (ms.map Member.text) ++ (pad ++ ['}']))

/-- A JSON value, without spaces around it. -/
inductive Value : List Char → Prop
  | nothing : Value ['n', 'u', 'l', 'l']
  | yes : Value ['t', 'r', 'u', 'e']
  | no : Value ['f', 'a', 'l', 's', 'e']
  | number {l : List Char} (numeral : Numeral l) : Value l
  | text {s l : List Char} (spelled : Spells s l) : Value ('"' :: l)
  | array {items : List Slot} {pad : List Char} (formed : ∀ s ∈ items, s.Formed)
      (values : ∀ s ∈ items, Value s.value) (blank : Blank pad) : Value (arrayText items pad)
  | object {ms : List Member} {pad : List Char} (formed : ∀ m ∈ ms, m.Formed)
      (values : ∀ m ∈ ms, Value m.value) (blank : Blank pad) : Value (objectText ms pad)

/-! ### What comes first and what follows -/

section
variable {b cs ds l : List Char} {c : Char}

theorem Blank.nil : Blank [] := by simp [Blank]

theorem Blank.append (hb : Blank b) (hc : Blank cs) : Blank (b ++ cs) :=
  fun _ h => (List.mem_append.mp h).elim (hb _) (hc _)

theorem skipSpaces_append (hb : Blank b) : skipSpaces (b ++ cs) = skipSpaces cs :=
  List.dropWhile_append_of_pos hb

theorem skipSpaces_cons (hc : isSpace c = false) : skipSpaces (c :: cs) = c :: cs :=
  List.dropWhile_cons_of_neg (by simp [hc])

theorem Ends.nil : Ends [] := by simp [Ends]

theorem Ends.cons (hc : c ∈ [',', ']', '}']) : Ends (c :: cs) := by
  rintro d ⟨⟩
  exact List.mem_append_right [' ', '\n', '\t', '\r'] hc

theorem Ends.append (hb : Blank b) (h : Ends cs) : Ends (b ++ cs) := by
  cases b with
  | nil => exact h
  | cons c b =>
      rintro d ⟨⟩
      have hc : isSpace c := hb c (by simp)
      simp only [isSpace, Bool.or_eq_true, beq_iff_eq] at hc
      rcases hc with ((rfl | rfl) | rfl) | rfl <;> simp

/-- A number ends there. -/
theorem Ends.not_digit (h : Ends cs) : ∀ c ∈ cs.head?, isDigit c = false := by
  have : ∀ c ∈ [' ', '\n', '\t', '\r', ',', ']', '}'], isDigit c = false := by
    simp [isDigit, digit?]
  exact fun c hc => this c (h c hc)

theorem mem_digits (hc : isDigit c) : c ∈ decimalDigits := by
  have hn : 48 ≤ c.toNat ∧ c.toNat ≤ 57 := by
    simp only [isDigit, digit?] at hc
    split at hc
    · next h => simpa [Char.le_def, UInt32.le_iff_toNat_le] using h
    · exact absurd hc (by simp)
  have : ∀ n, 48 ≤ n → n ≤ 57 → Char.ofNat n ∈ decimalDigits := by
    intro n h₁ h₂
    interval_cases n <;> decide
  rw [← Char.ofNat_toNat c]
  exact this _ hn.1 hn.2

theorem Whole.head (h : Whole l) : ∃ d ds, l = d :: ds ∧ isDigit d := by
  cases h with
  | zero => exact ⟨_, _, rfl, rfl⟩
  | digits first all => exact ⟨_, _, rfl, all.2 _ (by simp)⟩

theorem Numeral.head (h : Numeral l) :
    ∃ c cs, l = c :: cs ∧ c ∈ '-' :: decimalDigits := by
  obtain ⟨sign, whole, -, -⟩ := h
  obtain ⟨d, ds, rfl, hd⟩ := whole.head
  simp only [List.mem_cons, List.not_mem_nil, or_false] at sign
  rcases sign with rfl | rfl
  · exact ⟨d, _, rfl, List.mem_cons_of_mem _ (mem_digits hd)⟩
  · exact ⟨'-', _, rfl, by simp⟩

/-- The character that a value starts with. -/
theorem Value.head (h : Value l) :
    ∃ c cs, l = c :: cs ∧ isSpace c = false ∧ c ∉ [',', ':', ']', '}'] := by
  cases h with
  | number numeral =>
      obtain ⟨c, cs, rfl, hc⟩ := numeral.head
      have : ∀ c ∈ '-' :: decimalDigits, isSpace c = false ∧ c ∉ [',', ':', ']', '}'] := by
        simp [decimalDigits, isSpace]
      exact ⟨c, cs, rfl, this c hc⟩
  | _ => exact ⟨_, _, rfl, by decide⟩

end

end MediaHost.Json
