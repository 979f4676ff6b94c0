import Rollup.Text.Utf8

/-!
The cell that records how far a partition has been read: a JSON object with the offset and a
free text, written in one form and read in any.
-/

namespace Rollup

/-- The last offset of a partition that has been taken care of, and a text about who
recorded it. -/
structure Progress where
  offset : Nat
  metadata : String := ""
  deriving DecidableEq, Repr

namespace Progress

/-- The greatest offset that a cell can hold. -/
def maxOffset : Nat := 18446744073709551615

def hexDigit (n : Nat) : Char := if n < 10 then Char.ofNat (48 + n) else Char.ofNat (87 + n)

/-- A character inside quotes: quotes, backslashes and control characters are escaped. -/
def escape (c : Char) : List Char :=
  if c == '"' then ['\\', '"']
  else if c == '\\' then ['\\', '\\']
  else if c == '\x08' then ['\\', 'b']
  else if c == '\t' then ['\\', 't']
  else if c == '\n' then ['\\', 'n']
  else if c == '\x0c' then ['\\', 'f']
  else if c == '\r' then ['\\', 'r']
  else if c.toNat < 0x20 then
    ['\\', 'u', '0', '0', hexDigit (c.toNat / 16), hexDigit (c.toNat % 16)]
  else [c]

def quote (s : String) : String := String.ofList ('"' :: s.toList.flatMap escape ++ ['"'])

def encode (p : Progress) : Bytes :=
  Utf8.encode ("\x7b\"offset\":" ++ toString p.offset ++ ",\"metadata\":" ++ quote p.metadata
    ++ "\x7d")

def hexValue? (b : UInt8) : Option Nat :=
  if 0x30 ≤ b && b ≤ 0x39 then some (b.toNat - 0x30)
  else if 0x41 ≤ b && b ≤ 0x46 then some (b.toNat - 0x37)
  else if 0x61 ≤ b && b ≤ 0x66 then some (b.toNat - 0x57)
  else none

/-- What a letter after a backslash stands for. -/
def unescape? (b : UInt8) : Option UInt8 :=
  if b == 0x22 || b == 0x5C || b == 0x2F then some b
  else if b == 0x62 then some 0x08
  else if b == 0x66 then some 0x0C
  else if b == 0x6E then some 0x0A
  else if b == 0x72 then some 0x0D
  else if b == 0x74 then some 0x09
  else none

inductive StringState where
  | plain
  | escaped
  /-- Inside the four hexadecimal digits of a code unit, with `left` of them to come. -/
  | unit (left value : Nat)
  | paired (high : Nat)
  /-- Behind the backslash after the first half. -/
  | pairedEscaped (high : Nat)
  | pairedUnit (high left value : Nat)
  deriving DecidableEq, Repr

def charBytes (codePoint : Nat) : Bytes := Utf8.encode (String.singleton (Char.ofNat codePoint))

/-- Reads a string from behind its opening quote: the bytes of its content, and what
follows the closing quote. Surrogates must come in pairs. -/
def scanString : StringState → Bytes → Option (Bytes × Bytes)
  | _, [] => none
  | .plain, b :: rest =>
    if b == 0x22 then some ([], rest)
    else if b == 0x5C then scanString .escaped rest
    else if b < 0x20 then none
    else (scanString .plain rest).map fun r => (b :: r.1, r.2)
  | .escaped, b :: rest =>
    if b == 0x75 then scanString (.unit 4 0) rest
    else
      match unescape? b with
      | some c => (scanString .plain rest).map fun r => (c :: r.1, r.2)
      | none => none
  | .unit left value, b :: rest =>
    match hexValue? b with
    | none => none
    | some digit =>
      let value := value * 16 + digit
      if 1 < left then scanString (.unit (left - 1) value) rest
      else if 0xD800 ≤ value && value ≤ 0xDBFF then scanString (.paired value) rest
      else if 0xDC00 ≤ value && value ≤ 0xDFFF then none
      else (scanString .plain rest).map fun r => (charBytes value ++ r.1, r.2)
  | .paired high, b :: rest =>
    if b == 0x5C then scanString (.pairedEscaped high) rest else none
  | .pairedEscaped high, b :: rest =>
    if b == 0x75 then scanString (.pairedUnit high 4 0) rest else none
  | .pairedUnit high left value, b :: rest =>
    match hexValue? b with
    | none => none
    | some digit =>
      let value := value * 16 + digit
      if 1 < left then scanString (.pairedUnit high (left - 1) value) rest
      else if 0xDC00 ≤ value && value ≤ 0xDFFF then
        let codePoint := 0x10000 + (high - 0xD800) * 0x400 + (value - 0xDC00)
        (scanString .plain rest).map fun r => (charBytes codePoint ++ r.1, r.2)
      else none

def readText (bytes : Bytes) : Option (String × Bytes) :=
  match scanString .plain bytes with
  | none => none
  | some (content, rest) =>
    match Utf8.decode content with
    | .ok s => some (s, rest)
    | .error _ => none

/-- Passes over a string from behind its opening quote. Its content need not be text. -/
def skipString : StringState → Bytes → Option Bytes
  | .plain, b :: rest =>
    if b == 0x22 then some rest
    else if b == 0x5C then skipString .escaped rest
    else if b < 0x20 then none
    else skipString .plain rest
  | .escaped, b :: rest =>
    if b == 0x75 then skipString (.unit 4 0) rest
    else if (unescape? b).isSome then skipString .plain rest
    else none
  | .unit left value, b :: rest =>
    if (hexValue? b).isNone then none
    else if 1 < left then skipString (.unit (left - 1) value) rest
    else skipString .plain rest
  | _, _ => none

def isSpace (b : UInt8) : Bool := b == 0x20 || b == 0x09 || b == 0x0A || b == 0x0D

def skipSpace (bytes : Bytes) : Bytes := bytes.dropWhile isSpace

def isDigit (b : UInt8) : Bool := 0x30 ≤ b && b ≤ 0x39

/-- Passes over one digit or more. -/
def skipDigits (bytes : Bytes) : Option Bytes :=
  match bytes with
  | b :: rest => if isDigit b then some (rest.dropWhile isDigit) else none
  | [] => none

def skipWhole (bytes : Bytes) : Option Bytes :=
  match bytes with
  | 0x30 :: b :: rest => if isDigit b then none else some (b :: rest)
  | _ => skipDigits bytes

def skipFraction (bytes : Bytes) : Option Bytes :=
  match bytes with
  | 0x2E :: rest => skipDigits rest
  | _ => some bytes

def skipExponent (bytes : Bytes) : Option Bytes :=
  match bytes with
  | e :: rest =>
    if e == 0x65 || e == 0x45 then
      match rest with
      | sign :: digits =>
        if sign == 0x2B || sign == 0x2D then skipDigits digits else skipDigits rest
      | [] => none
    else some bytes
  | [] => some []

def skipNumber (bytes : Bytes) : Option Bytes := do
  let whole := match bytes with
    | 0x2D :: rest => rest
    | _ => bytes
  let rest ← skipWhole whole
  let rest ← skipFraction rest
  skipExponent rest

def skipWord (word bytes : Bytes) : Option Bytes :=
  if word.isPrefixOf bytes then some (bytes.drop word.length) else none

def skipScalar (bytes : Bytes) : Option Bytes :=
  match bytes with
  | 0x6E :: _ => skipWord [0x6E, 0x75, 0x6C, 0x6C] bytes
  | 0x74 :: _ => skipWord [0x74, 0x72, 0x75, 0x65] bytes
  | 0x66 :: _ => skipWord [0x66, 0x61, 0x6C, 0x73, 0x65] bytes
  | _ => skipNumber bytes

mutual

def skipValue : Nat → Bytes → Option Bytes
  | 0, _ => none
  | fuel + 1, bytes =>
    match skipSpace bytes with
    | 0x22 :: rest => skipString .plain rest
    | 0x5B :: rest =>
      match skipSpace rest with
      | 0x5D :: rest => some rest
      | rest => skipElements fuel rest
    | 0x7B :: rest =>
      match skipSpace rest with
      | 0x7D :: rest => some rest
      | rest => skipMembers fuel rest
    | rest => skipScalar rest

def skipElements : Nat → Bytes → Option Bytes
  | 0, _ => none
  | fuel + 1, bytes =>
    match skipValue fuel bytes with
    | none => none
    | some rest =>
      match skipSpace rest with
      | 0x2C :: rest => skipElements fuel rest
      | 0x5D :: rest => some rest
      | _ => none

def skipMembers : Nat → Bytes → Option Bytes
  | 0, _ => none
  | fuel + 1, bytes =>
    match skipSpace bytes with
    | 0x22 :: rest =>
      match (skipString .plain rest).map skipSpace with
      | some (0x3A :: rest) =>
        match (skipValue fuel rest).map skipSpace with
        | some (0x2C :: rest) => skipMembers fuel rest
        | some (0x7D :: rest) => some rest
        | _ => none
      | _ => none
    | _ => none

end

def readOffset (bytes : Bytes) : Option (Nat × Bytes) :=
  match skipWhole bytes with
  | none => none
  | some rest =>
    let digits := bytes.take (bytes.length - rest.length)
    let offset := digits.foldl (fun n b => n * 10 + (b.toNat - 0x30)) 0
    if offset ≤ maxOffset then some (offset, rest) else none

structure Members where
  offset : Option Nat := none
  metadata : Option String := none
  deriving DecidableEq, Repr

namespace Members

def progress? (m : Members) : Option Progress :=
  m.offset.map fun offset => { offset, metadata := m.metadata.getD "" }

/-- Reads the value of a member. A member with a meaning may not be repeated. -/
def readValue (m : Members) (name : String) (bytes : Bytes) : Option (Members × Bytes) :=
  if name == "offset" then
    match m.offset, readOffset (skipSpace bytes) with
    | none, some (offset, rest) => some ({ m with offset := some offset }, rest)
    | _, _ => none
  else if name == "metadata" then
    match m.metadata, skipSpace bytes with
    | none, 0x22 :: rest =>
      (readText rest).map fun r => ({ m with metadata := some r.1 }, r.2)
    | _, _ => none
  else (skipValue (2 * bytes.length + 2) bytes).map fun rest => (m, rest)

end Members

def readMembers : Nat → Members → Bytes → Option (Members × Bytes)
  | 0, _, _ => none
  | fuel + 1, members, bytes =>
    match skipSpace bytes with
    | 0x22 :: rest =>
      match readText rest with
      | none => none
      | some (name, rest) =>
        match skipSpace rest with
        | 0x3A :: rest =>
          match members.readValue name rest with
          | none => none
          | some (members, rest) =>
            match skipSpace rest with
            | 0x2C :: rest => readMembers fuel members rest
            | 0x7D :: rest => some (members, rest)
            | _ => none
        | _ => none
    | _ => none

/-- Reads the content as an array, the offset first and then the text if there is one. -/
def readElements (bytes : Bytes) : Option (Members × Bytes) :=
  match readOffset (skipSpace bytes) with
  | none => none
  | some (offset, rest) =>
    match skipSpace rest with
    | 0x5D :: rest => some ({ offset := some offset }, rest)
    | 0x2C :: rest =>
      match skipSpace rest with
      | 0x22 :: rest =>
        match readText rest with
        | none => none
        | some (metadata, rest) =>
          match skipSpace rest with
          | 0x5D :: rest => some ({ offset := some offset, metadata := some metadata }, rest)
          | _ => none
      | _ => none
    | _ => none

def decode? (cell : Bytes) : Option Progress :=
  let read := match skipSpace cell with
    | 0x7B :: rest => readMembers rest.length {} rest
    | 0x5B :: rest => readElements rest
    | _ => none
  match read with
  | none => none
  | some (members, rest) => if (skipSpace rest).isEmpty then members.progress? else none

end Progress

end Rollup
