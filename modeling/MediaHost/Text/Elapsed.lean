/-!
# Text — Elapsed

A span of time in its largest fitting unit, with as many decimal places as it needs.
-/

namespace MediaHost

/-- A span of whole milliseconds: in seconds from a second up, below that in milliseconds, and
no time at all in nanoseconds. -/
def elapsedText (milliseconds : Nat) : String :=
  if milliseconds = 0 then "0ns"
  else if milliseconds < 1000 then toString milliseconds ++ "ms"
  else
    let places := (Nat.toDigits 10 (milliseconds % 1000)).leftpad 3 '0'
    let kept := (places.reverse.dropWhile (· == '0')).reverse
    let fraction := if kept.isEmpty then "" else "." ++ String.ofList kept
    toString (milliseconds / 1000) ++ fraction ++ "s"

end MediaHost
