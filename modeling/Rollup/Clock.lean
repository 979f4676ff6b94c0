import Rollup.Duration

namespace Rollup

structure Clock where
  now : Int64
  skew : Duration := .zero
  deriving DecidableEq, Repr, Inhabited

namespace Clock

/-- The time before which data of a retention window may go. It is moved back by the
skew, so that nothing recorded by a clock running ahead goes too early. -/
def cutoff (clock : Clock) (window : Duration) : Int64 :=
  clock.now - window.secondsWord - clock.skew.secondsWord

def advance (clock : Clock) (span : Duration) : Clock :=
  { clock with now := clock.now + span.secondsWord }

end Clock

/-- A clock that remembers its greatest reading. The skew is a word of nanoseconds. -/
structure SteadyClock where
  highWater : Int64 := 0
  skewWord : Int64
  deriving DecidableEq, Repr

namespace SteadyClock

def new (skew : Duration) : SteadyClock := { skewWord := Int64.ofNat skew.nanoseconds }

def standard : SteadyClock := new (.ofSeconds 30)

def skew (clock : SteadyClock) : Duration := ⟨clock.skewWord.toUInt64.toNat⟩

/-- The reading in nanoseconds at a wall time: the wall time, or one more than the
last reading when the wall clock has not passed it. -/
def read (clock : SteadyClock) (wall : Int64) : Int64 × SteadyClock :=
  let next := clock.highWater + 1
  let reading := if wall < next then next else wall
  (reading, { clock with highWater := reading })

def readAll (clock : SteadyClock) : List Int64 → List Int64 × SteadyClock
  | [] => ([], clock)
  | wall :: walls =>
    let (reading, clock) := clock.read wall
    let (readings, clock) := clock.readAll walls
    (reading :: readings, clock)

def atReading (clock : SteadyClock) (reading : Int64) : Clock :=
  { now := reading / 1000000000, skew := clock.skew }

end SteadyClock

end Rollup
