import SuperFunctions.Lib.Objects

/-!
# Field values and records

Record fields hold JSON values. The members of a nested object are only ever copied or
replaced as a whole, so they are kept as their JSON text; array items are treated alike.
-/
namespace SuperFunctions.Datafn.Core

open Lib.Objects

/-- A field value of a record. -/
inductive Value where
  | null
  | bool (b : Bool)
  | num (n : Rat)
  | str (s : String)
  | array (json : String)
  | object (members : Assoc String String)
  deriving DecidableEq

/-- `Record<string, unknown>`: the fields a record owns. -/
abbrev Record := Assoc String Value

/-- A join row: its two ends and its edge metadata. -/
structure JoinRow where
  fromId : String
  toId : String
  metadata : Record
  deriving DecidableEq

end SuperFunctions.Datafn.Core

/-!
# Mutations

A mutation as a client stores it in its changelog and sends it to the server.
-/
namespace SuperFunctions.Datafn.Core

/-- The operations `executeMutationOp` accepts. -/
inductive Operation where
  | insert
  | merge
  | replace
  | delete
  | trash
  | restore
  | archive
  | unarchive
  | share
  | unshare
  | relate
  | modifyRelation
  | unrelate
  deriving DecidableEq

/-- An item of a relation payload: an id, or an object with `$ref` and edge metadata. -/
inductive RelationItem where
  | id (toId : String)
  | ref (toId : String) (metadata : Record)
  deriving DecidableEq

structure Mutation where
  mutationId : Option String
  clientId : Option String
  resource : String
  id : Option String
  operation : Operation
  record : Option Record
  relations : Option (Lib.Objects.Assoc String (List RelationItem))
  deriving DecidableEq

/-- `isRecordMutationOperation` -/
def isRecordMutationOperation : Operation → Bool
  | .insert | .merge | .replace => true
  | _ => false

@[simp] theorem not_isRecordMutationOperation_delete :
    isRecordMutationOperation .delete = false := rfl

end SuperFunctions.Datafn.Core

/-!
# Strings

The string functions of the language that the sync code uses, on code points.
-/
namespace SuperFunctions.Datafn.Core

/-- The white space and line terminators `trim` removes. -/
def isSpace (c : Char) : Bool :=
  c.toNat ∈ [9, 10, 11, 12, 13, 32, 160, 5760, 8232, 8233, 8239, 8287, 12288, 65279] ∨
    (8192 ≤ c.toNat ∧ c.toNat ≤ 8202)

def trim (s : String) : String :=
  String.ofList ((s.toList.dropWhile isSpace).reverse.dropWhile isSpace).reverse

def startsWith (s start : String) : Bool := start.toList.isPrefixOf s.toList

/-- `s.includes(part)` -/
def includes (s part : String) : Bool :=
  s.toList.tails.any fun rest => part.toList.isPrefixOf rest

/-- `s.split(":")` -/
def splitColon (s : String) : List String := (s.toList.splitOn ':').map String.ofList

/-- The text of a field in a template literal. Edges hold their ends as strings. -/
def templateText : Option Value → String
  | some (.str s) => s
  | some (.num n) => toString n
  | some (.bool b) => if b then "true" else "false"
  | some (.array json) => json
  | some (.object _) => "[object Object]"
  | some .null => "null"
  | none => "undefined"

def normalizeNonEmptyString (value : Option Value) : Option String :=
  match value with
  | some (.str s) => if trim s = "" then none else some (trim s)
  | _ => none

theorem normalizeNonEmptyString_ne_empty {value : Option Value} {s : String}
    (h : normalizeNonEmptyString value = some s) : s ≠ "" := by
  unfold normalizeNonEmptyString at h
  split at h
  · split at h
    · cases h
    case isFalse hne => exact Option.some.inj h ▸ hne
  · cases h

/-- `!resource.startsWith("join_") && !resource.startsWith("__datafn_")` -/
def isDataResourceKey (resource : String) : Bool :=
  !startsWith resource "join_" && !startsWith resource "__datafn_"

def isJoinStoreKey (resource : String) : Bool := startsWith resource "join_"

theorem isDataResourceKey_of_join {resource : String} (h : isJoinStoreKey resource = true) :
    isDataResourceKey resource = false := by
  unfold isJoinStoreKey at h
  simp [isDataResourceKey, h]

end SuperFunctions.Datafn.Core
