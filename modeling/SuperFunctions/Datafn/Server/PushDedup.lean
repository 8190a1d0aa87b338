import SuperFunctions.Lib.Processes
import SuperFunctions.Datafn.Server.Idempotency

/-!
# Deduplication in `executePush`

Any number of pushes under way over one database. Each takes its mutations in turn: it looks up
the stored result, checks access, runs the mutation's transaction and then, outside of that
transaction, stores the result. A push may stop at any point, and every access to the
idempotency table may fail.
-/
namespace SuperFunctions.Datafn.Server.PushDedup

open Lib.OrderedMap Datafn.Core Idempotency PlainResource

universe u

/-- What the push calls with the database: the access check, the body of the transaction (the
operation and its change entries), and how a record is read. -/
structure Executor (σ : Type u) where
  validateShareableOperationAccess : String → Mutation → σ → Option OpFailure
  executeMutationOp : String → Mutation → σ → Except OpFailure σ
  findRecord : σ → String → String → String → Option Record

/-- An error of the push response. -/
structure PushError where
  mutationId : String
  error : MutationError

/-- How far the push is with its first remaining mutation. -/
inductive Stage where
  | ready
  | missed (key : MutationKey)
  | authorized (key : MutationKey)
  | settled (key : MutationKey) (result : MutationResult)
  | storing (key : MutationKey) (existing : Option IdempotencyRow) (result : MutationResult)

structure PushRun where
  ns : String
  mutations : List Mutation
  batchLocalSeen : OMap String Bool
  applied : List String
  errors : List PushError
  stage : Stage

/-- A committed transaction of a mutation, with the mutation's record before and after it. -/
structure Execution where
  key : MutationKey
  ns : String
  resource : String
  id : Option String
  before : Option Record
  after : Option Record

structure ServerState (σ : Type u) where
  db : σ
  idempotency : List IdempotencyRow
  pushes : OMap Nat PushRun
  history : List Execution

/-! ## One mutation of a push -/

def batchKey (key : MutationKey) : String := key.clientId ++ ":" ++ key.mutationId

namespace PushRun

variable (push : PushRun)

/-- On to the next mutation. -/
def next : PushRun := { push with mutations := push.mutations.tail, stage := .ready }

def addError (mutationId : String) (error : MutationError) : PushRun :=
  { push with errors := push.errors ++ [⟨mutationId, error⟩] }

def addApplied (mutationId : String) : PushRun :=
  { push with applied := push.applied ++ [mutationId] }

def see (key : MutationKey) (ok : Bool) : PushRun :=
  { push with batchLocalSeen := push.batchLocalSeen.set (batchKey key) ok }

/-- The cross-batch deduplication of a mutation with a stored result. -/
def answerCached (key : MutationKey) (cached : MutationResult) : PushRun :=
  if cached.ok then ((push.addApplied key.mutationId).see key true).next
  else
    match cached.errors with
    | first :: _ =>
      if isRetryableMutationResult (some cached) then { push with stage := .missed key }
      else
        ((push.addError key.mutationId
          ⟨first.code, first.message, if first.path = "" then "$" else first.path, false⟩).see
            key false).next
    | [] => { push with stage := .missed key }

/-- The required fields and the two deduplications. -/
def lookup (idempotency : List IdempotencyRow) (mutation : Mutation) : PushRun :=
  match mutationKey mutation with
  | none =>
    (push.addError (mutation.mutationId.getD "")
      ⟨"DFQL_INVALID", "Invalid DFQL: missing clientId or mutationId", "$", false⟩).next
  | some key =>
    match push.batchLocalSeen.get (batchKey key) with
    | some true => (push.addApplied key.mutationId).next
    | some false => push.next
    | none =>
      match get idempotency key with
      | some cached => push.answerCached key cached
      | none => { push with stage := .missed key }

/-- `recordMutationFailure`, up to its idempotency write. -/
def recordMutationFailure (key : MutationKey) (mutation : Mutation) (failure : OpFailure) :
    PushRun :=
  let retryable := failure.code = "INTERNAL" ∨ failure.code = "MUTATION_FAILED" ∨
    failure.code = "NOT_FOUND" ∨
    (failure.code = "CONFLICT" ∧ failure.path = "id" ∧ mutation.operation = .insert)
  let error : MutationError := ⟨failure.code, failure.message, failure.path, retryable⟩
  { push.addError key.mutationId error with
    stage := .settled key ⟨false, key.mutationId, [], [error], false, by simp⟩ }

/-- `recordMutationSuccess`, up to its idempotency write. -/
def recordMutationSuccess (key : MutationKey) (mutation : Mutation) : PushRun :=
  { push.addApplied key.mutationId with
    stage := .settled key ⟨true, key.mutationId, [mutation.id.getD ""], [], false, reported_ok⟩ }

end PushRun

def mutationFailed (key : MutationKey) : OpFailure :=
  ⟨"MUTATION_FAILED", "Mutation failed", "mutations[" ++ key.mutationId ++ "]"⟩

/-! ## The server -/

namespace ServerState

variable {σ : Type u} (ex : Executor σ) (s : ServerState σ)

def setPush (p : Nat) (push : PushRun) : ServerState σ :=
  { s with pushes := s.pushes.set p push }

def recordOf (db : σ) (ns : String) (mutation : Mutation) : Option Record :=
  mutation.id.bind fun id => ex.findRecord db ns mutation.resource id

def startPush (p : Nat) (ns : String) (mutations : List Mutation) : Option (ServerState σ) :=
  match s.pushes.get p with
  | some _ => none
  | none => some (s.setPush p ⟨ns, mutations, OMap.empty, [], [], .ready⟩)

def lookup (p : Nat) : Option (ServerState σ) :=
  match s.pushes.get p with
  | some push =>
    match push.stage, push.mutations with
    | .ready, mutation :: _ => some (s.setPush p (push.lookup s.idempotency mutation))
    | _, _ => none
  | none => none

def authorize (p : Nat) : Option (ServerState σ) :=
  match s.pushes.get p with
  | some push =>
    match push.stage, push.mutations with
    | .missed key, mutation :: _ =>
      match ex.validateShareableOperationAccess push.ns mutation s.db with
      | some failure => some (s.setPush p (push.recordMutationFailure key mutation failure))
      | none => some (s.setPush p { push with stage := .authorized key })
    | _, _ => none
  | none => none

/-- The transaction of one mutation, which the database may also abort. -/
def transact (p : Nat) (aborts : Bool) : Option (ServerState σ) :=
  match s.pushes.get p with
  | some push =>
    match push.stage, push.mutations with
    | .authorized key, mutation :: _ =>
      if aborts then
        some (s.setPush p (push.recordMutationFailure key mutation (mutationFailed key)))
      else
        match ex.executeMutationOp push.ns mutation s.db with
        | .error failure => some (s.setPush p (push.recordMutationFailure key mutation failure))
        | .ok db =>
          some { s.setPush p (push.recordMutationSuccess key mutation) with
            db := db
            history := s.history ++ [⟨key, push.ns, mutation.resource, mutation.id,
              recordOf ex s.db push.ns mutation, recordOf ex db push.ns mutation⟩] }
    | _, _ => none
  | none => none

/-- `set` looks for the row of the key. -/
def findStored (p : Nat) (fails : Bool) : Option (ServerState σ) :=
  match s.pushes.get p with
  | some push =>
    match push.stage with
    | .settled key result =>
      if fails then some (s.setPush p (push.see key result.ok).next)
      else some (s.setPush p { push with stage := .storing key (findOne s.idempotency key) result })
    | _ => none
  | none => none

/-- `set` writes what it has to, and the push goes on. -/
def storeResult (p : Nat) (fails : Bool) : Option (ServerState σ) :=
  match s.pushes.get p with
  | some push =>
    match push.stage with
    | .storing key existing result =>
      some { s.setPush p (push.see key result.ok).next with
        idempotency :=
          if fails then s.idempotency else write s.idempotency key existing result }
    | _ => none
  | none => none

/-- The push has answered, or its process has stopped. -/
def endPush (p : Nat) : Option (ServerState σ) :=
  match s.pushes.get p with
  | some _ => some { s with pushes := s.pushes.delete p }
  | none => none

end ServerState

inductive PushAction where
  | startPush (p : Nat) (ns : String) (mutations : List Mutation)
  | lookup (p : Nat)
  | authorize (p : Nat)
  | transact (p : Nat) (aborts : Bool)
  | findStored (p : Nat) (fails : Bool)
  | storeResult (p : Nat) (fails : Bool)
  | endPush (p : Nat)

def pushStep {σ : Type u} (ex : Executor σ) (s : ServerState σ) :
    PushAction → Option (ServerState σ)
  | .startPush p ns mutations => s.startPush p ns mutations
  | .lookup p => s.lookup p
  | .authorize p => s.authorize ex p
  | .transact p aborts => s.transact ex p aborts
  | .findStored p fails => s.findStored p fails
  | .storeResult p fails => s.storeResult p fails
  | .endPush p => s.endPush p

def serverStart {σ : Type u} (db : σ) (idempotency : List IdempotencyRow) : ServerState σ :=
  ⟨db, idempotency, OMap.empty, []⟩

end SuperFunctions.Datafn.Server.PushDedup
