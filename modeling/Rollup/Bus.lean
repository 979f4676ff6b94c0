import Rollup.Table.Catalog

namespace Rollup

structure Topic where
  space : String
  name : String
  deriving DecidableEq, Repr, Inhabited

namespace Topic

def system (name : String) : Topic := ⟨TableId.systemSpace, name⟩

def display (t : Topic) : String := s!"{t.space}:{t.name}"

instance : KeyOrder Topic :=
  KeyOrder.ofInjective (fun t => (t.space, t.name)) fun a b h => by
    cases a
    cases b
    simp_all

end Topic

structure Message where
  offset : Nat
  payload : Bytes
  deriving DecidableEq, Repr

structure Bus where
  topics : SortedMap Topic (List Bytes) := .empty
  deriving Inhabited

namespace Bus

def log (bus : Bus) (t : Topic) : Except Error (List Bytes) :=
  match bus.topics.get? t with
  | some log => .ok log
  | none => .error (.topicNotFound t.display)

def exists? (bus : Bus) (t : Topic) : Bool := bus.topics.contains t

def create (bus : Bus) (t : Topic) : Bus :=
  if bus.exists? t then bus else { topics := bus.topics.insert t [] }

/-- Removes a topic with its messages, and tells whether it was there. -/
def remove (bus : Bus) (t : Topic) : Bool × Bus :=
  (bus.exists? t, { topics := bus.topics.erase t })

def publish (bus : Bus) (t : Topic) (payload : Bytes) : Except Error (Nat × Bus) := do
  let log ← bus.log t
  return (log.length, { topics := bus.topics.insert t (log ++ [payload]) })

def messagesFrom (offset : Nat) : List Bytes → List Message
  | [] => []
  | payload :: rest => ⟨offset, payload⟩ :: messagesFrom (offset + 1) rest

/-- At most `limit` messages behind an offset, or from the start of the topic. -/
def fetch (bus : Bus) (t : Topic) (after : Option Nat) (limit : Nat) :
    Except Error (List Message) := do
  let log ← bus.log t
  let start := match after with
    | some offset => offset + 1
    | none => 0
  return messagesFrom start ((log.drop start).take limit)

def size (bus : Bus) : Nat := bus.topics.values.foldl (fun n log => n + log.length) 0

end Bus

end Rollup
