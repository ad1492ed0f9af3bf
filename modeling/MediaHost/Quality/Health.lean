import MediaHost.Quality.Report

/-!
# Quality — Health

The running account of a stream: what was shown, what the engine last reported, and how often
it failed or finished.
-/

namespace MediaHost

/-- The account since the last setup. -/
structure Health where
  /-- Pictures copied into the image. -/
  framesRendered : Nat := 0
  reports : Nat := 0
  /-- From the last report. -/
  processed : UInt64 := 0
  dropped : UInt64 := 0
  lastJitter : Int64 := 0
  /-- The largest jitter reported, and not below zero. -/
  maxJitter : Int64 := 0
  proportion : Double := Double.one
  errors : Nat := 0
  finishes : Nat := 0
deriving DecidableEq

namespace Health

instance : Inhabited Health := ⟨{}⟩

/-- A report replaces the one before; only the largest jitter and the count are kept. -/
def recordReport (h : Health) (r : QualityReport) : Health :=
  { h with
    reports := h.reports + 1
    processed := r.processed
    dropped := r.dropped
    lastJitter := r.jitter
    maxJitter := if h.maxJitter < r.jitter then r.jitter else h.maxJitter
    proportion := r.proportion }

/-- A picture was copied into the image. -/
def recordFrame (h : Health) : Health := { h with framesRendered := h.framesRendered + 1 }

/-- The engine reported an error. -/
def recordError (h : Health) : Health := { h with errors := h.errors + 1 }

/-- The media came to its end. -/
def recordFinish (h : Health) : Health := { h with finishes := h.finishes + 1 }

/-- The share of frames dropped, by the last report. -/
def dropRate (h : Health) : Except Error Double := MediaHost.dropRate h.processed h.dropped

/-- The account in one line, for the log. -/
def text (h : Health) : Except Error String :=
  h.dropRate.map fun rate =>
    "Health: " ++ toString h.framesRendered ++ " frames rendered, engine " ++
      toString h.processed.toNat ++ " processed / " ++ toString h.dropped.toNat ++ " dropped (" ++
      rate.toFixed 2 ++ "%), max jitter " ++ toString h.maxJitter.toInt ++ "ns over " ++
      toString h.reports ++ " QoS reports, " ++ toString h.errors ++ " errors, " ++
      toString h.finishes ++ " finishes"

end Health
end MediaHost
