/-!
# Text — Utf8

Bytes read as UTF-8.  One step takes a character, or the longest run of bytes that begins a
character but does not complete it; a strict reading refuses such a run, and a lenient one
replaces each by a single U+FFFD.
-/

namespace MediaHost.Utf8

/-- A byte that continues a character. -/
def isContinuation (b : UInt8) : Bool := 0x80 ≤ b && b ≤ 0xbf

/-- How many bytes the character begun by `lead` has, and the range of the second one; none if
no character begins so. -/
def shape (lead : UInt8) : Option (Nat × UInt8 × UInt8) :=
  if 0xc2 ≤ lead && lead ≤ 0xdf then some (2, 0x80, 0xbf)
  else if lead == 0xe0 then some (3, 0xa0, 0xbf)
  else if lead == 0xed then some (3, 0x80, 0x9f)
  else if 0xe1 ≤ lead && lead ≤ 0xef then some (3, 0x80, 0xbf)
  else if lead == 0xf0 then some (4, 0x90, 0xbf)
  else if 0xf1 ≤ lead && lead ≤ 0xf3 then some (4, 0x80, 0xbf)
  else if lead == 0xf4 then some (4, 0x80, 0x8f)
  else none

/-- The bits that `lead` holds of a character of `length` bytes. -/
def leadBits (length : Nat) (lead : UInt8) : Nat :=
  lead.toNat % (1 <<< (7 - length))

/-- What the bytes begin with: a character, or nothing that can be completed; and the bytes
after it. -/
def next (lead : UInt8) (rest : List UInt8) : Option Char × List UInt8 :=
  if lead < 0x80 then (some (Char.ofNat lead.toNat), rest)
  else
    match shape lead, rest with
    | some (length, lo, hi), second :: rest₂ =>
      if lo ≤ second && second ≤ hi then
        let value := leadBits length lead * 64 + second.toNat % 64
        if length = 2 then (some (Char.ofNat value), rest₂)
        else
          match rest₂ with
          | [] => (none, [])
          | third :: rest₃ =>
            if isContinuation third then
              let value := value * 64 + third.toNat % 64
              if length = 3 then (some (Char.ofNat value), rest₃)
              else
                match rest₃ with
                | [] => (none, [])
                | fourth :: rest₄ =>
                  if isContinuation fourth then
                    (some (Char.ofNat (value * 64 + fourth.toNat % 64)), rest₄)
                  else (none, fourth :: rest₄)
            else (none, third :: rest₃)
      else (none, second :: rest₂)
    | _, rest => (none, rest)

theorem next_length_le (lead : UInt8) (rest : List UInt8) :
    (next lead rest).2.length ≤ rest.length := by
  unfold next
  repeat' split
  all_goals simp_all
  all_goals omega

/-- The characters of the bytes, with none for each run that is no character. -/
def chars : List UInt8 → List (Option Char)
  | [] => []
  | lead :: rest => (next lead rest).1 :: chars (next lead rest).2
termination_by bytes => bytes.length
decreasing_by
  have := next_length_le lead rest
  simp
  omega

/-- The text of the bytes, if they are UTF-8 throughout. -/
def decode? (bytes : List UInt8) : Option String :=
  ((chars bytes).mapM id).map String.ofList

/-- The text of the bytes, U+FFFD standing for each run that is no character. -/
def decodeLenient (bytes : List UInt8) : String :=
  String.ofList ((chars bytes).map (·.getD '\ufffd'))

end MediaHost.Utf8
