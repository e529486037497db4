import LuaPages.Number.Format

namespace LuaPages

structure Duration where
  nanos : Nat
  deriving DecidableEq, Repr

namespace Duration

def nanosPerSecond : Nat := 1000000000

def maxSeconds : Nat := UInt64.size - 1

def wholeSeconds (d : Duration) : Nat := d.nanos / nanosPerSecond

def subsecondNanos (d : Duration) : Nat := d.nanos % nanosPerSecond

/-- The duration nearest to a number of seconds, a half nanosecond to the even neighbour. A number
below zero, one that is not finite or one that has too many seconds has none. -/
def ofSeconds? (x : Binary64) : Option Duration :=
  if !x.isFinite || (x.isNegative && !x.isZero) then none
  else
    let (n, m) := x.ratio
    let d : Duration := ⟨roundDiv (n * nanosPerSecond) m⟩
    if d.wholeSeconds ≤ maxSeconds then some d else none

/-- The seconds as a number: the nearest one to the whole seconds and the nearest one to the rest,
added. -/
def seconds (d : Duration) : Binary64 :=
  let (a, b) := (Binary64.ofRatio false d.wholeSeconds 1).ratio
  let (c, e) := (Binary64.ofRatio false d.subsecondNanos nanosPerSecond).ratio
  .ofRatio false (a * e + c * b) (b * e)

def text (d : Duration) : String :=
  Number.formatReal { Number.Directive.plain with precision := some 3 } 'f' d.seconds ++ "s"

end Duration

end LuaPages
