import MediaHost.Error
import MediaHost.Numeric.FixedPoint

/-!
# Quality — Report

What the engine reports on the quality of a running stream.
-/

namespace MediaHost

/-- The share of `dropped` in all, which is counted in 64 bits, as a percentage; zero of nothing. -/
def dropRate (processed dropped : UInt64) : Except Error Double :=
  let total := processed.toNat + dropped.toNat
  if UInt64.size ≤ total then .error .overflow
  else if total = 0 then .ok .zero
  else .ok (((Binary.ofNat dropped.toNat).div (Binary.ofNat total)).mul (Binary.ofNat 100))

/-- A quality report.  Times are in nanoseconds, and the two counts are totals of the stream. -/
structure QualityReport where
  /-- How late the reported buffer is; negative if it is early. -/
  jitter : Int64 := 0
  runningTime : UInt64 := 0
  streamTime : UInt64 := 0
  timestamp : UInt64 := 0
  /-- The rate to run at to keep up; `1` is nominal. -/
  proportion : Double := .zero
  processed : UInt64 := 0
  dropped : UInt64 := 0
deriving DecidableEq

namespace QualityReport

def isLate (r : QualityReport) : Bool := 0 < r.jitter

/-- How far from its time the buffer is, in nanoseconds. -/
def distance (r : QualityReport) : Nat := r.jitter.toInt.natAbs

def dropRate (r : QualityReport) : Except Error Double := MediaHost.dropRate r.processed r.dropped

def text (r : QualityReport) : String :=
  "jitter " ++ toString r.jitter.toInt ++ "ns, proportion " ++ r.proportion.toFixed 3 ++ ", " ++
    toString r.processed.toNat ++ " processed / " ++ toString r.dropped.toNat ++ " dropped"

end QualityReport
end MediaHost
