import SuperFunctions.Lib.Processes
import SuperFunctions.Db.Memory

/-!
# Row-level namespaces

The wrapper that puts the namespace of a call into its clauses and its data, and takes the
namespace column out of what the call hands out.
-/
namespace SuperFunctions.Db.RowLevelNamespace

open Lib.Objects Where Memory

structure Config where
  columnName : String
  mandatory : Bool

variable {V K : Type} [DecidableEq K]

/-! ## Clauses and data -/

/-- Without a namespace the call is not scoped; a mandatory one may not be missing. -/
def resolveNamespace (ns : Option String) (mandatory : Bool) : Option (Option String) :=
  match ns with
  | some "" => if mandatory then none else some none
  | some n => some (some n)
  | none => if mandatory then none else some none

def removeNamespaceWhere (clauses : Option (List (Clause V))) (col : String) :
    Option (List (Clause V)) :=
  clauses.map fun cs => cs.filter fun clause => clause.field ≠ col

section
variable (e : Engine V K)

def namespaceWhereClause (col ns : String) : Clause V := ⟨col, .eq, .one (e.str ns), none⟩

def withNamespaceWhere (clauses : Option (List (Clause V))) (col : String) :
    Option String → Option (List (Clause V))
  | some ns => some (clauses.getD [] ++ [namespaceWhereClause e col ns])
  | none => clauses

def buildScopedWhere (clauses : Option (List (Clause V))) (col : String) (ns : Option String) :
    Option (List (Clause V)) :=
  some ((withNamespaceWhere e (removeNamespaceWhere clauses col) col ns).getD [])

def removeColumnFromData (data : Row V) (col : String) : Row V := data.erase col

def stampData (data : Row V) (col : String) : Option String → Row V
  | some ns => data.insert col (e.str ns)
  | none => data

def sanitizeConflictTarget (conflictTarget : Option (List String)) (col : String)
    (ns : Option String) : Option (List String) :=
  match (conflictTarget.getD []).filter (· ≠ col) with
  | [] => none
  | visible => some ((if ns.isSome then visible ++ [col] else visible).eraseDups)

/-- What the adapter is called with; a single update or delete needs a visible clause. -/
def scopedCall (col : String) (ns : Option String) : Call V → Option (Call V)
  | .create model data select =>
    some (.create model (stampData e (removeColumnFromData data col) col ns) select)
  | .createMany model data select =>
    some (.createMany model
      (data.map fun d => stampData e (removeColumnFromData d col) col ns) select)
  | .findOne model clauses select =>
    some (.findOne model (buildScopedWhere e clauses col ns) select)
  | .findMany model clauses orderBy offset limit select =>
    some (.findMany model (buildScopedWhere e clauses col ns) orderBy offset limit select)
  | .update model clauses data select =>
    if ((removeNamespaceWhere clauses col).getD []).isEmpty then none
    else some (.update model (withNamespaceWhere e (removeNamespaceWhere clauses col) col ns)
      (removeColumnFromData data col) select)
  | .updateMany model clauses data =>
    some (.updateMany model (buildScopedWhere e clauses col ns) (removeColumnFromData data col))
  | .delete model clauses =>
    if ((removeNamespaceWhere clauses col).getD []).isEmpty then none
    else some (.delete model (withNamespaceWhere e (removeNamespaceWhere clauses col) col ns))
  | .deleteMany model clauses => some (.deleteMany model (buildScopedWhere e clauses col ns))
  | .upsert model clauses create update conflictTarget select =>
    some (.upsert model (buildScopedWhere e clauses col ns)
      (stampData e (removeColumnFromData create col) col ns) (removeColumnFromData update col)
      (sanitizeConflictTarget conflictTarget col ns) select)
  | .count model clauses => some (.count model (buildScopedWhere e clauses col ns))

end

/-! ## Replies -/

/-- The fields a caller sees; a selected field that the row does not have is `undefined`. -/
abbrev Shown (V : Type) := Assoc String (Option V)

def selectOf : Call V → Option (List String)
  | .create _ _ select => select
  | .createMany _ _ select => select
  | .findOne _ _ select => select
  | .findMany _ _ _ _ _ select => select
  | .update _ _ _ select => select
  | .upsert _ _ _ _ _ select => select
  | _ => none

/-- A selection lists every field it names. -/
def selectRow (select : Option (List String)) (row : Row V) : Shown V :=
  match select with
  | some fields => fields.foldl (fun shown field => shown.insert field (row.lookup field)) ∅
  | none => Assoc.mapEntries (fun _ v => some v) row

def stripColumn (col : String) (shown : Shown V) : Shown V := shown.erase col

inductive Reply (V : Type) where
  | rows (rows : List (Shown V))
  | number (n : Nat)
  | failed (failure : Failure)
  | namespaceRequired
  deriving DecidableEq

def reply (col : String) (select : Option (List String)) : Answer V → Reply V
  | .rows found => .rows (found.map fun row => stripColumn col (selectRow select row))
  | .number n => .number n
  | .failed failure => .failed failure

/-! ## Calls of one namespace -/

/-- The store, what was handed out before the columns were taken out, and what the caller saw. -/
structure Session (V K : Type) where
  store : Store V K
  handedOut : List (Row V)
  replies : List (Reply V)

/-- `wrapWithRowLevelNamespace` -/
def wrappedCall (e : Engine V K) (config : Config) (ns : Option String) (st : Store V K)
    (c : Call V) : Store V K × List (Row V) × Reply V :=
  match resolveNamespace ns config.mandatory with
  | none => (st, [], .namespaceRequired)
  | some ns =>
    match scopedCall e config.columnName ns c with
    | none => (st, [], .failed .emptyWhere)
    | some inner =>
      let (st, answer) := call e st inner
      (st, answer.handedOut, reply config.columnName (selectOf inner) answer)

def step (e : Engine V K) (config : Config) (ns : Option String) (s : Session V K) (c : Call V) :
    Option (Session V K) :=
  let (st, rows, r) := wrappedCall e config ns s.store c
  some ⟨st, s.handedOut ++ rows, s.replies ++ [r]⟩

end SuperFunctions.Db.RowLevelNamespace
