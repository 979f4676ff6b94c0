import Rollup.Table.Catalog

/-!
The strings that are stored as numbers. For each kind of string the table has a counter row with
the last number given out, a row for each string with its number, and a row for each number with
its string.
-/

namespace Rollup

inductive EntityKind where
  | tagName
  | tagValue
  | metric
  deriving DecidableEq, Repr, Inhabited

namespace EntityKind

def name : EntityKind → String
  | tagName => "tag_name"
  | tagValue => "tag_value"
  | metric => "metric"

/-- The letter of a kind in row keys: `t`, `v` or `m`. -/
def code : EntityKind → UInt8
  | tagName => 0x74
  | tagValue => 0x76
  | metric => 0x6D

theorem code_injective (a b : EntityKind) (h : a.code = b.code) : a = b := by
  cases a <;> cases b <;> simp [code] at h ⊢

end EntityKind

structure Entity where
  kind : EntityKind
  name : String
  deriving DecidableEq, Repr, Inhabited

namespace Entity

instance : KeyOrder Entity :=
  KeyOrder.ofInjective (fun e => (e.kind.code, e.name)) fun a b h => by
    cases a
    cases b
    simp only [Prod.mk.injEq] at h
    simp [EntityKind.code_injective _ _ h.1, h.2]

/-- The row of a string: `n`, the kind and the string. -/
def nameRow (e : Entity) : Bytes := 0x6E :: e.kind.code :: Utf8.encode e.name

/-- The row of a number: `r`, the kind and the number. -/
def numberRow (kind : EntityKind) (id : UInt32) : Bytes :=
  0x72 :: kind.code :: Bytes.ofUInt32 id

/-- The row of the last number given out: `c` and the kind. -/
def counterRow (kind : EntityKind) : Bytes := [0x63, kind.code]

/-- The column of a string's number, `i`. -/
def idColumn : Bytes := [0x69]

/-- The column of a number's string, `n`. -/
def nameColumn : Bytes := [0x6E]

/-- The column of the counter, `c`. -/
def counterColumn : Bytes := [0x63]

def readId (cell : Bytes) : Except Error UInt32 :=
  if cell.length = 4 then .ok (Bytes.toUInt32 cell)
  else .error (.decode s!"entity id must be 4 bytes, got {cell.length}")

def readName (id : UInt32) (cell : Bytes) : Except Error String :=
  match Utf8.decode cell with
  | .ok name => .ok name
  | .error fault => .error (.decode s!"entity {id.toNat} name: {fault.message}")

theorem readId_ofUInt32 (id : UInt32) : readId (Bytes.ofUInt32 id) = .ok id := by
  simp [readId]

theorem nameRow_injective {a b : Entity} (h : a.nameRow = b.nameRow) : a = b := by
  simp only [nameRow, List.cons.injEq, true_and] at h
  cases a
  cases b
  simp only [Entity.mk.injEq]
  exact ⟨EntityKind.code_injective _ _ h.1, Utf8.encode_injective _ _ h.2⟩

end Entity

end Rollup
