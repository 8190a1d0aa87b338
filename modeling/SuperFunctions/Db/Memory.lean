import Mathlib.Data.List.Sort
import SuperFunctions.Lib.Objects
import SuperFunctions.Lib.OrderedMap

/-!
# Where clauses

The clauses of a query and the evaluation of a clause list. A connector belongs to the clause it
introduces, and the list is evaluated from left to right.
-/
namespace SuperFunctions.Db.Where

open Lib.Objects

inductive Operator where
  | eq
  | ne
  | gt
  | gte
  | lt
  | lte
  | isIn
  | notIn
  | contains
  | startsWith
  | endsWith
  | unknown

inductive Connector where
  | and
  | or
  deriving DecidableEq

/-- The `value` of a clause: the operators `in` and `not_in` take an array. -/
inductive Operand (V : Type) where
  | one (value : V)
  | list (values : List V)

structure Clause (V : Type) where
  field : String
  operator : Operator
  value : Operand V
  connector : Option Connector

/-- The own fields of a row; one that is not there is `undefined`. -/
abbrev Row (V : Type) := Assoc String V

variable {V : Type}

/-- The connector of the first clause is not looked at. -/
def matchesWhere (matchesClause : Option V → Clause V → Bool) (row : Row V) :
    List (Clause V) → Bool
  | [] => true
  | first :: rest =>
    rest.foldl (fun matched clause =>
      if clause.connector = some .or then
        matched || matchesClause (row.lookup clause.field) clause
      else matched && matchesClause (row.lookup clause.field) clause)
      (matchesClause (row.lookup first.field) first)

theorem matchesWhere_append (matchesClause : Option V → Clause V → Bool) (row : Row V)
    (clauses : List (Clause V)) {clause : Clause V} (h : clause.connector ≠ some .or) :
    matchesWhere matchesClause row (clauses ++ [clause]) =
      (matchesWhere matchesClause row clauses &&
        matchesClause (row.lookup clause.field) clause) := by
  cases clauses with
  | nil => rfl
  | cons first rest =>
    rw [List.cons_append, matchesWhere, List.foldl_append]
    simp only [List.foldl_cons, List.foldl_nil, if_neg h]
    rfl

end SuperFunctions.Db.Where

/-!
# The memory adapter

Tables of rows under their keys, and the operations of the adapter on them. `Engine` is what the
operations take from the adapter and from the language.
-/
namespace SuperFunctions.Db.Memory

open Lib.Objects Lib.OrderedMap Where

structure OrderBy where
  field : String
  descending : Bool

/-- How a clause is matched, how rows are ordered, the key under which a row is stored, which
values count as false, and the ids the adapter generates. -/
structure Engine (V K : Type) where
  str : String → V
  truthy : V → Bool
  matchesClause : Option V → Clause V → Bool
  order : List OrderBy → List (Row V) → List (Row V)
  keyOf : Row V → K
  freshId : Nat → V

abbrev Table (V K : Type) := OMap K (Row V)

/-- The tables, and how many ids were generated. -/
structure Store (V K : Type) where
  tables : OMap String (Table V K)
  generated : Nat

inductive Call (V : Type) where
  | create (model : String) (data : Row V) (select : Option (List String))
  | createMany (model : String) (data : List (Row V)) (select : Option (List String))
  | findOne (model : String) (clauses : Option (List (Clause V))) (select : Option (List String))
  | findMany (model : String) (clauses : Option (List (Clause V))) (orderBy : Option (List OrderBy))
    (offset limit : Option Nat) (select : Option (List String))
  | update (model : String) (clauses : Option (List (Clause V))) (data : Row V)
    (select : Option (List String))
  | updateMany (model : String) (clauses : Option (List (Clause V))) (data : Row V)
  | delete (model : String) (clauses : Option (List (Clause V)))
  | deleteMany (model : String) (clauses : Option (List (Clause V)))
  | upsert (model : String) (clauses : Option (List (Clause V))) (create update : Row V)
    (conflictTarget : Option (List String)) (select : Option (List String))
  | count (model : String) (clauses : Option (List (Clause V)))

inductive Failure where
  | unique (model : String)
  | notFound (model : String)
  | emptyWhere
  deriving DecidableEq

/-- What an operation hands out. Rows are as they are stored; the selection comes later. -/
inductive Answer (V : Type) where
  | rows (rows : List (Row V))
  | number (n : Nat)
  | failed (failure : Failure)

def Answer.handedOut {V : Type} : Answer V → List (Row V)
  | .rows found => found
  | _ => []

variable {V K : Type} [DecidableEq K]

namespace Store

def table (st : Store V K) (model : String) : Table V K := (st.tables.get model).getD OMap.empty

def setTable (st : Store V K) (model : String) (table : Table V K) : Store V K :=
  { st with tables := st.tables.set model table }

end Store

/-- A table that is not there stays away. -/
def changeTable (st : Store V K) (model : String) (f : Table V K → Table V K) : Store V K :=
  match st.tables.get model with
  | some table => st.setTable model (f table)
  | none => st

section
variable (e : Engine V K)

/-- `where` may be missing. -/
def Engine.matches (row : Row V) (clauses : Option (List (Clause V))) : Bool :=
  matchesWhere e.matchesClause row (clauses.getD [])

/-- `transformInput` of a create: an id that counts as false is generated. -/
def transformCreate (generated : Nat) (data : Row V) : Row V × Nat :=
  if (data.lookup "id").any e.truthy then (data, generated)
  else (data.insert "id" (e.freshId generated), generated + 1)

def transformCreates (generated : Nat) : List (Row V) → List (Row V) × Nat
  | [] => ([], generated)
  | data :: rest =>
    let (first, generated) := transformCreate e generated data
    let (others, generated) := transformCreates generated rest
    (first :: others, generated)

/-- A row under a key that is taken is refused. -/
def insertRow (st : Store V K) (model : String) (row : Row V) : Store V K × Answer V :=
  match (st.table model).get (e.keyOf row) with
  | some _ => (st, .failed (.unique model))
  | none => (st.setTable model ((st.table model).set (e.keyOf row) row), .rows [row])

/-- The rows are created one after the other, up to the first that fails. -/
def insertRows (st : Store V K) (model : String) : List (Row V) → Store V K × Answer V
  | [] => (st, .rows [])
  | row :: rest =>
    match insertRow e st model row with
    | (st, .rows created) =>
      match insertRows st model rest with
      | (st, .rows more) => (st, .rows (created ++ more))
      | failed => failed
    | failed => failed

def findEntry (st : Store V K) (model : String) (clauses : Option (List (Clause V))) :
    Option (K × Row V) :=
  (st.table model).entries.find? fun entry => e.matches entry.2 clauses

def filterRows (st : Store V K) (model : String) (clauses : Option (List (Clause V))) :
    List (Row V) :=
  ((st.table model).entries.filter fun entry => e.matches entry.2 clauses).map Prod.snd

/-- An offset or a limit of 0 counts as none. -/
def page (offset limit : Option Nat) (rows : List (Row V)) : List (Row V) :=
  let rest := rows.drop (offset.getD 0)
  match limit with
  | some n => if n = 0 then rest else rest.take n
  | none => rest

def updateRow (st : Store V K) (model : String) (clauses : Option (List (Clause V)))
    (data : Row V) : Store V K × Answer V :=
  if (clauses.getD []).isEmpty then (st, .failed .emptyWhere)
  else
    match findEntry e st model clauses with
    | some entry =>
      let updated := Assoc.spread entry.2 data
      (st.setTable model ((st.table model).set entry.1 updated), .rows [updated])
    | none => (st, .failed (.notFound model))

def call (st : Store V K) : Call V → Store V K × Answer V
  | .create model data _ =>
    let (row, generated) := transformCreate e st.generated data
    insertRow e { st with generated := generated } model row
  | .createMany model data _ =>
    let (rows, generated) := transformCreates e st.generated data
    insertRows e { st with generated := generated } model rows
  | .findOne model clauses _ =>
    (st, .rows (((findEntry e st model clauses).map Prod.snd).toList))
  | .findMany model clauses orderBy offset limit _ =>
    let found := filterRows e st model clauses
    (st, .rows (page offset limit (orderBy.elim found fun o => e.order o found)))
  | .update model clauses data _ => updateRow e st model clauses data
  | .updateMany model clauses data =>
    (changeTable st model fun table => table.mapValues fun row =>
      if e.matches row clauses then Assoc.spread row data else row,
      .number (filterRows e st model clauses).length)
  | .delete model clauses =>
    if (clauses.getD []).isEmpty then (st, .failed .emptyWhere)
    else
      match findEntry e st model clauses with
      | some entry => (st.setTable model ((st.table model).delete entry.1), .number 1)
      | none => (st, .number 0)
  | .deleteMany model clauses =>
    (changeTable st model fun table => table.filterEntries fun entry =>
      !e.matches entry.2 clauses,
      .number (filterRows e st model clauses).length)
  | .upsert model clauses create update _ _ =>
    let (row, generated) := transformCreate e st.generated create
    let st := { st with generated := generated }
    match findEntry e st model clauses with
    | some _ => updateRow e st model clauses update
    | none => insertRow e st model row
  | .count model clauses => (st, .number (filterRows e st model clauses).length)

end

/-! ## Values of the memory adapter -/

/-- Arrays, dates and other objects are told apart by identity. -/
inductive Value where
  | null
  | bool (b : Bool)
  | num (n : Rat)
  | str (s : String)
  | object (identity : Nat)
  deriving DecidableEq

/-- Relational operators between values of any kind, and the ids that are drawn. -/
structure Runtime where
  relational : Operator → Option Value → Operand Value → Bool
  less : Option Value → Option Value → Bool
  randomUUID : Nat → String

def isNullish : Option Value → Bool
  | none => true
  | some v => v = .null

def Value.truthy : Value → Bool
  | .null => false
  | .bool b => b
  | .num n => n ≠ 0
  | .str s => s ≠ ""
  | .object _ => true

/-- `includes`, `startsWith` and `endsWith` of strings, false for anything else. -/
def textTest (test : List Char → List Char → Bool) : Option Value → Operand Value → Bool
  | some (.str s), .one (.str t) => test t.toList s.toList
  | _, _ => false

def matchesClause (rt : Runtime) (value : Option Value) (clause : Clause Value) : Bool :=
  match clause.operator with
  | .eq =>
    match clause.value with
    | .one .null => isNullish value
    | .one v => value = some v
    | .list _ => false
  | .ne =>
    match clause.value with
    | .one .null => !isNullish value
    | .one v => value ≠ some v
    | .list _ => true
  | .isIn =>
    match clause.value with
    | .list vs => vs.any fun v => value = some v
    | .one _ => false
  | .notIn =>
    match clause.value with
    | .list vs => !vs.any fun v => value = some v
    | .one _ => false
  | .contains => textTest (fun t s => t <:+: s) value clause.value
  | .startsWith => textTest (fun t s => t.isPrefixOf s) value clause.value
  | .endsWith => textTest (fun t s => t.isSuffixOf s) value clause.value
  | .unknown => false
  | operator => rt.relational operator value clause.value

/-- The comparator of `applyOrdering` puts `a` after `b`. -/
def comesAfter (rt : Runtime) (a b : Row Value) : List OrderBy → Bool
  | [] => false
  | order :: rest =>
    let aVal := a.lookup order.field
    let bVal := b.lookup order.field
    if rt.less aVal bVal then order.descending
    else if rt.less bVal aVal then !order.descending
    else comesAfter rt a b rest

def applyOrdering (rt : Runtime) (orderBy : List OrderBy) (results : List (Row Value)) :
    List (Row Value) :=
  results.insertionSort fun a b => comesAfter rt a b orderBy = false

/-- For data that is never compared. -/
def quietRuntime : Runtime :=
  ⟨fun _ _ _ => false, fun _ _ => false, fun n => "generated" ++ toString n⟩

def memoryEngine (rt : Runtime) : Engine Value (Option Value) where
  str := .str
  truthy := Value.truthy
  matchesClause := matchesClause rt
  order := applyOrdering rt
  keyOf row := row.lookup "id"
  freshId n := .str (rt.randomUUID n)

end SuperFunctions.Db.Memory
