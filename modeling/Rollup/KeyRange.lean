import Rollup.Bytes

namespace Rollup

structure KeyRange where
  start : Bytes
  stop : Option Bytes
  deriving DecidableEq, Repr

namespace KeyRange

def contains (range : KeyRange) (key : Bytes) : Bool :=
  !KeyOrder.before key range.start &&
    match range.stop with
    | none => true
    | some stop => KeyOrder.before key stop

end KeyRange

end Rollup
