import SuperFunctions.Db.Memory
import SuperFunctions.Lib.Processes

/-!
# The database of the memory adapter

The tables of the models, the schema versions and the internal tables, and the operations of the
adapter on all of them.
-/
namespace SuperFunctions.Db.MemoryDatabase

open Lib.Objects Lib.OrderedMap Where Memory

/-- What a snapshot of the adapter holds. -/
structure Content (V K : Type) where
  tables : OMap String (Table V K)
  schemaVersions : OMap String Nat
  internalStore : OMap String (Table V K)
  ensuredTables : List String

/-- The content, and how many ids were generated. -/
structure Database (V K : Type) where
  content : Content V K
  generated : Nat

/-- The operations of `adapter.internal`. -/
inductive InternalCall (V : Type) where
  | ensureTable (name : String)
  | create (table : String) (data : Row V)
  | findOne (table : String) (clauses : List (Clause V))
  | findMany (table : String) (clauses : List (Clause V)) (orderBy : Option OrderBy)
    (limit : Option Nat)
  | update (table : String) (clauses : List (Clause V)) (data : Row V)
  | delete (table : String) (clauses : List (Clause V))
  | createMany (table : String) (data : List (Row V))

inductive Op (V : Type) where
  | call (c : Call V)
  | getSchemaVersion (ns : String)
  | setSchemaVersion (ns : String) (version : Nat)
  | internal (c : InternalCall V)

inductive OpAnswer (V : Type) where
  | answered (answer : Answer V)
  | version (n : Nat)
  | records (rows : List (Row V))
  | count (n : Nat)
  | done
  | threw

/-- The operation was refused or threw. -/
def OpAnswer.refused {V : Type} : OpAnswer V → Bool
  | .answered (.failed _) => true
  | .threw => true
  | _ => false

/-- Operations that only read. -/
def Op.reads {V : Type} : Op V → Bool
  | .call (.findOne _ _ _) => true
  | .call (.findMany _ _ _ _ _ _) => true
  | .call (.count _ _) => true
  | .getSchemaVersion _ => true
  | .internal (.findOne _ _) => true
  | .internal (.findMany _ _ _ _) => true
  | _ => false

variable {V K : Type}

/-! ## Internal tables -/

def internalOperator : Operator → Bool
  | .contains => false
  | .startsWith => false
  | .endsWith => false
  | .unknown => false
  | _ => true

/-- Every clause has to hold; one with an unsupported operator throws when it is reached. -/
def matchesInternalWhere (e : Engine V K) (row : Row V) : List (Clause V) → Option Bool
  | [] => some true
  | clause :: rest =>
    if internalOperator clause.operator = false then none
    else if e.matchesClause (row.lookup clause.field) clause then matchesInternalWhere e row rest
    else some false

def findInternal (e : Engine V K) (clauses : List (Clause V)) :
    List (Row V) → Option (Option (Row V))
  | [] => some none
  | row :: rest =>
    match matchesInternalWhere e row clauses with
    | none => none
    | some true => some (some row)
    | some false => findInternal e clauses rest

def filterInternal (e : Engine V K) (clauses : List (Clause V)) :
    List (Row V) → Option (List (Row V))
  | [] => some []
  | row :: rest =>
    match matchesInternalWhere e row clauses, filterInternal e clauses rest with
    | some true, some found => some (row :: found)
    | some false, some found => some found
    | _, _ => none

/-- The loop of `update` and of `delete`: the table after it, and the count unless it threw. -/
def visitInternal (e : Engine V K) (clauses : List (Clause V))
    (change : Table V K → K × Row V → Table V K) :
    List (K × Row V) → Table V K → Table V K × Option Nat
  | [], table => (table, some 0)
  | entry :: rest, table =>
    match matchesInternalWhere e entry.2 clauses with
    | none => (table, none)
    | some true =>
      let (table, count) := visitInternal e clauses change rest (change table entry)
      (table, count.map (· + 1))
    | some false => visitInternal e clauses change rest table

/-- `^__datafn_[a-z0-9_]+$` -/
def internalTableName (name : String) : Bool :=
  let rest := name.toList.drop "__datafn_".length
  "__datafn_".toList.isPrefixOf name.toList && !rest.isEmpty &&
    rest.all fun c => c.isLower || c.isDigit || c = '_'

variable [DecidableEq K]

/-- A row of an internal table replaces the one that has its id. -/
def putInternal (e : Engine V K) (table : Table V K) (rows : List (Row V)) : Table V K :=
  rows.foldl (fun table row => table.set (e.keyOf row) row) table

def internalCall (e : Engine V K) (db : Database V K) : InternalCall V → Database V K × OpAnswer V
  | .ensureTable name =>
    let c := db.content
    if !internalTableName name then (db, .threw)
    else if name ∈ c.ensuredTables then (db, .done)
    else
      let internalStore :=
        if (c.internalStore.get name).isSome then c.internalStore
        else c.internalStore.set name OMap.empty
      ({ db with content := { c with
        internalStore := internalStore, ensuredTables := c.ensuredTables ++ [name] } }, .done)
  | .create table data =>
    let (row, generated) := transformCreate e db.generated data
    let records := (db.content.internalStore.get table).getD OMap.empty
    ({ content := { db.content with
        internalStore := db.content.internalStore.set table (putInternal e records [row]) },
       generated := generated }, .records [row])
  | .findOne table clauses =>
    match findInternal e clauses (((db.content.internalStore.get table).map OMap.values).getD []) with
    | some found => (db, .records found.toList)
    | none => (db, .threw)
  | .findMany table clauses orderBy limit =>
    match filterInternal e clauses
      (((db.content.internalStore.get table).map OMap.values).getD []) with
    | some found =>
      let ordered := orderBy.elim found fun o => e.order [o] found
      (db, .records (limit.elim ordered fun n => ordered.take n))
    | none => (db, .threw)
  | .update table clauses data =>
    match db.content.internalStore.get table with
    | none => (db, .count 0)
    | some records =>
      let (changed, count) := visitInternal e clauses
        (fun t entry => t.set entry.1 (Assoc.spread entry.2 data)) records.entries records
      ({ db with content := { db.content with
          internalStore := db.content.internalStore.set table changed } },
        count.elim .threw OpAnswer.count)
  | .delete table clauses =>
    match db.content.internalStore.get table with
    | none => (db, .count 0)
    | some records =>
      let (changed, count) := visitInternal e clauses
        (fun t entry => t.delete entry.1) records.entries records
      ({ db with content := { db.content with
          internalStore := db.content.internalStore.set table changed } },
        count.elim .threw OpAnswer.count)
  | .createMany table data =>
    let (rows, generated) := transformCreates e db.generated data
    let records := (db.content.internalStore.get table).getD OMap.empty
    ({ content := { db.content with
        internalStore := db.content.internalStore.set table (putInternal e records rows) },
       generated := generated }, .records rows)

/-! ## Operations -/

def exec (e : Engine V K) (db : Database V K) : Op V → Database V K × OpAnswer V
  | .call c =>
    let (st, answer) := call e ⟨db.content.tables, db.generated⟩ c
    (⟨{ db.content with tables := st.tables }, st.generated⟩, .answered answer)
  | .getSchemaVersion ns => (db, .version ((db.content.schemaVersions.get ns).getD 0))
  | .setSchemaVersion ns version =>
    ({ db with content := { db.content with
      schemaVersions := db.content.schemaVersions.set ns version } }, .done)
  | .internal c => internalCall e db c

end SuperFunctions.Db.MemoryDatabase

/-!
# Transactions of the memory adapter

The calls of all callers wait in one queue. A transaction is one entry of the queue: while its
callback runs, what the callback does through the transaction adapter goes straight to the
database, and a rollback puts back the snapshot that was taken when it began.
-/
namespace SuperFunctions.Db.MemoryTransactions

open Lib.OrderedMap Memory MemoryDatabase

/-- What a caller puts into the queue. -/
inductive Job (V : Type) where
  | op (op : Op V)
  | transaction
  | close

/-- A callback that has not settled. -/
structure Live (V K : Type) where
  snapshot : Content V K
  rolledBack : Bool

/-- `ended` are the snapshots that the transaction adapters of settled callbacks still hold. -/
structure System (V K : Type) where
  db : Database V K
  queue : List (Job V)
  live : Option (Live V K)
  ended : List (Content V K)
  answers : List (OpAnswer V)

/-- What callers, the callback that runs, and those that ran before may do next. -/
inductive Action (V : Type) where
  | submit (job : Job V)
  | serve
  | use (op : Op V)
  | commit
  | rollback
  | settle (threw : Bool)
  | useEnded (op : Op V)
  | rollbackEnded (n : Nat)

variable {V K : Type}

/-- `restoreStore` and `restore` of the internal tables; the ids that were drawn stay drawn. -/
def restore (snapshot : Content V K) (db : Database V K) : Database V K :=
  { db with content := snapshot }

def close (db : Database V K) : Database V K :=
  { db with content := { db.content with tables := OMap.empty, schemaVersions := OMap.empty } }

def begin (db : Database V K) : System V K := ⟨db, [], none, [], []⟩

section
variable [DecidableEq K] (e : Engine V K)

def System.exec (s : System V K) (op : Op V) : System V K :=
  let (db, answer) := MemoryDatabase.exec e s.db op
  { s with db := db, answers := s.answers ++ [answer] }

/-- The head of the queue is served when the entry before it is through. -/
def serve (s : System V K) : Option (System V K) :=
  match s.live, s.queue with
  | none, .op op :: rest => some (System.exec e { s with queue := rest } op)
  | none, .transaction :: rest =>
    some { s with queue := rest, live := some ⟨s.db.content, false⟩ }
  | none, .close :: rest => some { s with queue := rest, db := close s.db }
  | _, _ => none

def step (s : System V K) : Action V → Option (System V K)
  | .submit job => some { s with queue := s.queue ++ [job] }
  | .serve => serve e s
  | .use op => s.live.map fun _ => s.exec e op
  | .commit => s.live.map fun _ => s
  | .rollback => s.live.map fun live =>
    { s with db := restore live.snapshot s.db, live := some { live with rolledBack := true } }
  | .settle threw => s.live.map fun live =>
    { s with
      db := if threw && !live.rolledBack then restore live.snapshot s.db else s.db
      live := none
      ended := s.ended ++ [live.snapshot] }
  | .useEnded op => if s.ended.isEmpty then none else some (s.exec e op)
  | .rollbackEnded n => s.ended[n]?.map fun snapshot => { s with db := restore snapshot s.db }

end

/-! ## Transactions as they are meant -/

/-- The copy that a transaction works on. -/
structure Staged (V K : Type) where
  db : Database V K
  rolledBack : Bool

structure Atomic (V K : Type) where
  committed : Database V K
  queue : List (Job V)
  live : Option (Staged V K)
  ended : Nat
  answers : List (OpAnswer V)

namespace Atomic

def begin (db : Database V K) : Atomic V K := ⟨db, [], none, 0, []⟩

/-- What is undone leaves no trace but the ids that were drawn. -/
def undo (db drawn : Database V K) : Database V K := { db with generated := drawn.generated }

section
variable [DecidableEq K] (e : Engine V K)

/-- An operation that is refused is undone. -/
def atomically (db : Database V K) (op : Op V) : Database V K × OpAnswer V :=
  let (changed, answer) := exec e db op
  (if answer.refused then undo db changed else changed, answer)

def serve (a : Atomic V K) : Option (Atomic V K) :=
  match a.live, a.queue with
  | none, .op op :: rest =>
    let (db, answer) := atomically e a.committed op
    some { a with committed := db, queue := rest, answers := a.answers ++ [answer] }
  | none, .transaction :: rest => some { a with queue := rest, live := some ⟨a.committed, false⟩ }
  | none, .close :: rest => some { a with queue := rest, committed := close a.committed }
  | _, _ => none

/-- A transaction works on a copy, which counts when its callback returns without a rollback.
An adapter whose transaction has ended reads what is committed and changes nothing. -/
def step (a : Atomic V K) : Action V → Option (Atomic V K)
  | .submit job => some { a with queue := a.queue ++ [job] }
  | .serve => serve e a
  | .use op => a.live.map fun staged =>
    let (db, answer) := exec e staged.db op
    { a with live := some { staged with db := db }, answers := a.answers ++ [answer] }
  | .commit => a.live.map fun _ => a
  | .rollback => a.live.map fun staged =>
    { a with live := some ⟨undo a.committed staged.db, true⟩ }
  | .settle threw => a.live.map fun staged =>
    { a with
      committed := if threw || staged.rolledBack then undo a.committed staged.db else staged.db
      live := none
      ended := a.ended + 1 }
  | .useEnded op =>
    if a.ended = 0 then none
    else some { a with answers := a.answers ++ [(exec e a.committed op).2] }
  | .rollbackEnded n => if n < a.ended then some a else none

end

end Atomic

end SuperFunctions.Db.MemoryTransactions
