import Rollup.CommandLine
import Std.Time

namespace Rollup

def readEnvironment : IO Environment := do
  let found ← Environment.names.filterMapM fun name => do
    return (← IO.getEnv name).map fun value => (name, value)
  return .ofList found

def wallTime : IO Int64 := do
  let now ← Std.Time.Timestamp.now
  return Int64.ofInt now.toNanosecondsSinceUnixEpoch.val

partial def waitForEnd (input : IO.FS.Stream) : IO Unit := do
  unless (← input.getLine).isEmpty do waitForEnd input

partial def serve (d : Deployment) (clock : SteadyClock) (last : Nat)
    (waiting : Task (Except IO.Error Unit)) : IO Deployment := do
  if ← IO.hasFinished waiting then return d
  IO.sleep 50
  let (reading, clock) := clock.read (← wallTime)
  let time ← IO.monoMsNow
  let d := (d.setClock (clock.atReading reading)).advance (.ofMilliseconds (time - last))
  serve d clock time waiting

def report (message : String) : IO UInt32 := do
  IO.eprintln s!"Error: {message}"
  return 1

def keep (options : Options) : IO UInt32 := do
  let (reading, clock) := SteadyClock.standard.read (← wallTime)
  match Deployment.launch options (← readEnvironment) (clock.atReading reading) with
  | .error e => report e.message
  | .ok d =>
    if options.setUpOnly then return 0
    let waiting ← IO.asTask (waitForEnd (← IO.getStdin))
    let d ← serve d clock (← IO.monoMsNow) waiting
    match d.close with
    | .ok () => return 0
    | .error e => report e.message

end Rollup

def main (words : List String) : IO UInt32 := do
  match Rollup.Options.ofArguments words with
  | .ok options => Rollup.keep options
  | .error fault =>
    IO.eprintln s!"error: {fault.message}"
    return 2
