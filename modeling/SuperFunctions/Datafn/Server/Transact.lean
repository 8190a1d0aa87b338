import SuperFunctions.Datafn.Server.Idempotency

/-!
# Transactions

`executeTransaction`: the steps inside one database transaction, whose callback the adapter may
run several times, or one after the other when the database has no transactions. The results
array and an in-memory idempotency store live outside of the transaction.
-/
namespace SuperFunctions.Datafn.Server.Transact

open Lib.OrderedMap Datafn.Core Idempotency

universe u

/-- An error that is thrown. -/
structure Thrown where
  code : Option String
  message : String

/-- A query is kept as its JSON text. -/
inductive Step where
  | query (text : String)
  | mutation (mutation : Mutation)

inductive StepResult where
  | query (result : String)
  | mutation (result : MutationResult)
  | rolledBack (result : StepResult)
  | error (code message : String)

/-! ## The idempotency stores -/

inductive StoreKind where
  | durable
  | memory (maxEntries : Nat)

/-- The database holds the tables, the change log and the rows of `__datafn_idempotency`; the
store in memory is beside it. -/
structure World (σ : Type u) where
  db : σ
  rows : List IdempotencyRow
  memory : OMap String MutationResult

/-- `MemoryIdempotencyStore.getKey` -/
def memoryKey (key : MutationKey) : String := key.clientId ++ ":" ++ key.mutationId

namespace World

variable {σ : Type u} (w : World σ)

def cachedResult (kind : StoreKind) (key : MutationKey) : Option MutationResult :=
  match kind with
  | .durable => get w.rows key
  | .memory _ => w.memory.get (memoryKey key)

/-- `get` moves an entry of the store in memory to the end. -/
def touch (kind : StoreKind) (key : MutationKey) : World σ :=
  match kind with
  | .durable => w
  | .memory _ =>
    match w.memory.get (memoryKey key) with
    | some result =>
      { w with memory := (w.memory.delete (memoryKey key)).set (memoryKey key) result }
    | none => w

/-- A store in memory that is full drops its oldest entry. -/
def evict (maxEntries : Nat) (key : String) : OMap String MutationResult :=
  if maxEntries ≤ w.memory.entries.length ∧ w.memory.get key = none then
    match w.memory.entries.head? with
    | some oldest => w.memory.delete oldest.1
    | none => w.memory
  else w.memory

/-- A database error of `set` is swallowed. -/
def setResult (kind : StoreKind) (fails : Bool) (key : MutationKey) (result : MutationResult) :
    World σ :=
  match kind with
  | .durable =>
    if fails then w else { w with rows := write w.rows key (findOne w.rows key) result }
  | .memory maxEntries =>
    match w.memory.get (memoryKey key) with
    | some existing =>
      if isRetryableMutationResult (some existing) then
        { w with memory := w.memory.set (memoryKey key) result }
      else w
    | none => { w with memory := (w.evict maxEntries (memoryKey key)).set (memoryKey key) result }

/-- What the transaction wrote is undone. -/
def rollback (before : World σ) : World σ := { w with db := before.db, rows := before.rows }

end World

/-! ## One step -/

/-- How a mutation ends between its idempotency lookup and its idempotency write: it has
returned a result, or thrown. -/
inductive Operated (σ : Type u) where
  | returned (db : σ) (result : MutationResult)
  | threw (db : σ) (error : Thrown)

/-- What one run of the steps gets from the database. -/
structure Answers (σ : Type u) where
  executeQuery : String → σ → Except Thrown String
  executeOperation : Mutation → σ → Operated σ
  idempotencyGetError : Nat → Option Thrown
  idempotencySetFails : Nat → Bool

inductive StepOutcome (σ : Type u) where
  | returned (w : World σ) (result : StepResult)
  | threw (w : World σ) (error : Thrown)

section Steps

variable {σ : Type u} (kind : StoreKind) (answers : Answers σ)

/-- The result that answers the mutation without executing it. -/
def dedupedResult (w : World σ) (mutation : Mutation) : Option MutationResult :=
  match mutationKey mutation with
  | some key =>
    match w.cachedResult kind key with
    | some cached =>
      if isRetryableMutationResult (some cached) then none
      else some { cached with deduped := true }
    | none => none
  | none => none

def afterLookup (w : World σ) (mutation : Mutation) : World σ :=
  match mutationKey mutation with
  | some key => w.touch kind key
  | none => w

/-- The result is stored when both ids were given. -/
def recordResult (i : Nat) (mutation : Mutation) (result : MutationResult) (w : World σ) :
    World σ :=
  match mutationKey mutation with
  | some key => w.setResult kind (answers.idempotencySetFails i) key result
  | none => w

def executeMutation (i : Nat) (mutation : Mutation) (w : World σ) : StepOutcome σ :=
  match (mutationKey mutation).bind fun _ => answers.idempotencyGetError i with
  | some error => .threw w error
  | none =>
    let looked := afterLookup kind w mutation
    match dedupedResult kind w mutation with
    | some cached => .returned looked (.mutation cached)
    | none =>
      match answers.executeOperation mutation looked.db with
      | .threw db error => .threw { looked with db := db } error
      | .returned db result =>
        .returned (recordResult kind answers i mutation result { looked with db := db })
          (.mutation result)

def executeStep (i : Nat) (step : Step) (w : World σ) : StepOutcome σ :=
  match step with
  | .query text =>
    match answers.executeQuery text w.db with
    | .ok result => .returned w (.query result)
    | .error error => .threw w error
  | .mutation mutation => executeMutation kind answers i mutation w

end Steps

/-- A mutation whose result is not ok. -/
def StepResult.mutationFailed : StepResult → Bool
  | .mutation result => !result.ok
  | _ => false

/-! ## The callback of the transaction -/

/-- REL-003: the ok results before the failed step. -/
def annotateRolledBack (failed : Nat) (results : List StepResult) : List StepResult :=
  results.mapIdx fun j result =>
    match result with
    | .mutation r => if j < failed ∧ r.ok = true then .rolledBack result else result
    | other => other

inductive CallbackEnd where
  | completed
  | stepFailed (i : Nat)
  | threw (error : Thrown)

/-- How the callback ends, the state it leaves and the results array after it. -/
structure CallbackRun (σ : Type u) where
  ending : CallbackEnd
  world : World σ
  results : List StepResult

def callback {σ : Type u} (kind : StoreKind) (answers : Answers σ) :
    Nat → List Step → World σ → List StepResult → CallbackRun σ
  | _, [], w, results => ⟨.completed, w, results⟩
  | i, step :: steps, w, results =>
    match executeStep kind answers i step w with
    | .threw w' error => ⟨.threw error, w', results⟩
    | .returned w' result =>
      if result.mutationFailed then
        ⟨.stepFailed i, w', annotateRolledBack i (results ++ [result])⟩
      else callback kind answers (i + 1) steps w' (results ++ [result])

/-! ## The adapter's transaction -/

/-- What the adapter does with the callback: it refuses to begin, it runs the callback and then
again, or it runs it for the last time and commits when the callback has completed and the
commit does not fail. -/
inductive Attempts (σ : Type u) where
  | refuse (error : Thrown)
  | rerun (answers : Answers σ) (rest : Attempts σ)
  | last (answers : Answers σ) (commitError : Option Thrown)

/-- `db.transaction(callback)`; the callback always starts from the committed database. -/
def transaction {σ : Type u} (kind : StoreKind) (steps : List Step) :
    Attempts σ → World σ → List StepResult → CallbackRun σ
  | .refuse error, w, results => ⟨.threw error, w, results⟩
  | .rerun answers rest, w, results =>
    let tried := callback kind answers 0 steps w results
    transaction kind steps rest (tried.world.rollback w) tried.results
  | .last answers commitError, w, results =>
    let tried := callback kind answers 0 steps w results
    match tried.ending, commitError with
    | .completed, none => tried
    | .completed, some error => ⟨.threw error, tried.world.rollback w, tried.results⟩
    | ending, _ => ⟨ending, tried.world.rollback w, tried.results⟩

/-! ## Sequential execution -/

def invalidateQueries (resource : String) (queryCache : OMap String StepResult) :
    OMap String StepResult :=
  (queryCache.keys.filter fun key => includes key ("\"" ++ resource ++ "\"")).foldl
    (fun cache key => cache.delete key) queryCache

def errorResult (error : Thrown) : StepResult :=
  .error (match error.code with
    | some code => if code = "" then "INTERNAL" else code
    | none => "INTERNAL") error.message

/-- The state and the results of the steps that were executed, and whether they stopped. -/
structure SequentialRun (σ : Type u) where
  stopped : Bool
  world : World σ
  results : List StepResult

def sequential {σ : Type u} (kind : StoreKind) (answers : Answers σ)
    (isAtomic : Bool) : Nat → List Step → World σ → List StepResult → OMap String StepResult →
      SequentialRun σ
  | _, [], w, results, _ => ⟨false, w, results⟩
  | i, .query text :: steps, w, results, queryCache =>
    match queryCache.get text with
    | some result =>
      sequential kind answers isAtomic (i + 1) steps w (results ++ [result]) queryCache
    | none =>
      match executeStep kind answers i (.query text) w with
      | .returned w' result =>
        sequential kind answers isAtomic (i + 1) steps w' (results ++ [result])
          (queryCache.set text result)
      | .threw w' error =>
        if isAtomic then ⟨true, w', results ++ [errorResult error]⟩
        else sequential kind answers isAtomic (i + 1) steps w'
          (results ++ [errorResult error]) queryCache
  | i, .mutation mutation :: steps, w, results, queryCache =>
    match executeStep kind answers i (.mutation mutation) w with
    | .returned w' result =>
      if isAtomic ∧ result.mutationFailed = true then ⟨true, w', results ++ [result]⟩
      else sequential kind answers isAtomic (i + 1) steps w' (results ++ [result])
        (invalidateQueries mutation.resource queryCache)
    | .threw w' error =>
      if isAtomic then ⟨true, w', results ++ [errorResult error]⟩
      else sequential kind answers isAtomic (i + 1) steps w' (results ++ [errorResult error])
        queryCache

/-! ## `executeTransaction` -/

inductive TransactError where
  | rolledBack (stepIndex : Nat)
  | internal (message : String)

/-- `ok` is that of the inner result, and false with an internal error. -/
structure TransactResult where
  ok : Bool
  results : List StepResult
  error : Option TransactError

/-- The message says that the adapter has no transactions. -/
def unsupported (message : String) : Bool :=
  includes message "not supported" || includes message "not implemented"

def anyFailed (results : List StepResult) : Bool :=
  results.any fun result =>
    match result with
    | .query _ => false
    | .mutation r => !r.ok
    | .rolledBack _ => true
    | .error _ _ => true

def executeSequentially {σ : Type u} (kind : StoreKind) (answers : Answers σ)
    (isAtomic : Bool) (steps : List Step) (w : World σ) : TransactResult × World σ :=
  let done := sequential kind answers isAtomic 0 steps w [] OMap.empty
  (⟨!done.stopped && !anyFailed done.results, done.results, none⟩, done.world)

/-- `attempts` is what the transaction of the adapter does, when it has one; `answers` is what
the steps get from the database outside of a transaction. -/
def executeTransaction {σ : Type u} (kind : StoreKind) (atomic : Option Bool)
    (steps : List Step) (attempts : Option (Attempts σ)) (answers : Answers σ) (w : World σ) :
    TransactResult × World σ :=
  let isAtomic := atomic != some false
  match attempts with
  | some attempts =>
    if isAtomic then
      let settled := transaction kind steps attempts w []
      match settled.ending with
      | .completed => (⟨true, settled.results, none⟩, settled.world)
      | .stepFailed i => (⟨false, settled.results, some (.rolledBack i)⟩, settled.world)
      | .threw error =>
        if unsupported error.message then
          executeSequentially kind answers isAtomic steps settled.world
        else (⟨false, [], some (.internal error.message)⟩, settled.world)
    else executeSequentially kind answers isAtomic steps w
  | none => executeSequentially kind answers isAtomic steps w

end SuperFunctions.Datafn.Server.Transact
