import MediaHost.Text.Invisible

/-!
# Text — Quoted

A text between double quotes, on one line and in visible characters: quotes and backslashes are
escaped, tab, line feed, carriage return and NUL have short names, and any other invisible
character is spelled by its number in hexadecimal.
-/

namespace MediaHost

/-- Lower-case hexadecimal, without leading zeros. -/
def hexadecimal (n : Nat) : String := String.ofList (Nat.toDigits 16 n)

namespace Quoted

/-- One character as it stands between quotes. -/
def escape (c : Char) : String :=
  match c with
  | '\x00' => "\\0"
  | '\t' => "\\t"
  | '\r' => "\\r"
  | '\n' => "\\n"
  | '"' => "\\\""
  | '\\' => "\\\\"
  | c => if isInvisible c then "\\u\x7b" ++ hexadecimal c.toNat ++ "\x7d" else c.toString

end Quoted

/-- The text between double quotes. -/
def quoted (s : String) : String :=
  "\"" ++ s.foldl (fun out c => out ++ Quoted.escape c) "" ++ "\""

end MediaHost
