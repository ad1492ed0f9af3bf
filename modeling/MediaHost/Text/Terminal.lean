import MediaHost.Text.Quoted

/-!
# Text — Terminal

A text that is safe to show on a terminal: the characters that drive one are spelled by their
numbers.  Tabs, line breaks and the other controls stay as they are.
-/

namespace MediaHost
namespace Terminal

/-- Bell, backspace, form feed, escape and delete, which drive a terminal. -/
def isCommand (c : Char) : Bool :=
  c = '\x07' || c = '\x08' || c = '\x0c' || c = '\x1b' || c = '\x7f'

/-- The second set of controls, which some terminals read as escapes. -/
def isHighControl (c : Char) : Bool := 0x80 ≤ c.toNat && c.toNat ≤ 0x9f

/-- One character as it is shown. -/
def escape (c : Char) : String :=
  if isCommand c then "\\x" ++ String.ofList ((Nat.toDigits 16 c.toNat).leftpad 2 '0')
  else if isHighControl c then "\\u\x7b" ++ hexadecimal c.toNat ++ "\x7d"
  else c.toString

end Terminal

/-- The text as it is shown. -/
def terminalText (s : String) : String := s.foldl (fun out c => out ++ Terminal.escape c) ""

end MediaHost
