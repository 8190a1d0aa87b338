import SuperFunctions.Lib.Processes
import SuperFunctions.Datafn.Server.Pull

/-!
# Pushes and pulls under way

The server of one namespace with any number of pushes and pulls under way. A push reserves
sequence numbers and commits them one mutation at a time; a pull reads the change stream of
each requested resource at its own moment.
-/
namespace SuperFunctions.Datafn.Server.Sessions

open Lib.OrderedMap Datafn.Core ChangeLog ChangeStreams Pull

structure SequenceAllocation where
  initialBatchAllocated : Bool
  pool : List Nat

/-- A change of a mutation, before it has a number. -/
structure PendingChange where
  resource : String
  id : String
  op : ChangeOp
  record : Option Record

/-- The transaction of one mutation: its copy of the allocation and its uncommitted changes. -/
structure Transaction where
  txSequenceAllocation : SequenceAllocation
  written : List ChangeEntry

structure PushRun where
  client : Nat
  mutations : Nat
  remaining : Nat
  sequenceAllocation : SequenceAllocation
  resourceSeqs : OMap String Nat
  tx : Option Transaction

structure PullRun where
  client : Nat
  request : PullRequest
  limit : Nat
  streams : OMap String (List ChangeEntry)

/-- A committed change and the client whose push it came from. -/
structure Commit where
  client : Nat
  entry : ChangeEntry
  deriving DecidableEq

/-- A cursor some pull has returned, and how many changes were committed by then. -/
structure ReturnedCursor where
  resource : String
  cursor : Nat
  committed : Nat
  deriving DecidableEq

/-- The numbers come from an external sequence store, or from the namespace's row in the
database; a transaction that took numbers from the row keeps it locked, with its uncommitted
next number, until it ends. -/
structure ServerState where
  externalStore : Bool
  nextServerSeq : Nat
  rowLock : Option (Nat × Nat)
  commits : List Commit
  pushes : OMap Nat PushRun
  pulls : OMap Nat PullRun
  returned : List ReturnedCursor

def emptyNamespace (externalStore : Bool) : ServerState where
  externalStore := externalStore
  nextServerSeq := 1
  rowLock := none
  commits := []
  pushes := OMap.empty
  pulls := OMap.empty
  returned := []

namespace ServerState

variable (s : ServerState)

def log : List ChangeEntry := s.commits.map Commit.entry

def setPush (p : Nat) (push : PushRun) : ServerState :=
  { s with pushes := s.pushes.set p push }

def setPull (k : Nat) (pull : PullRun) : ServerState := { s with pulls := s.pulls.set k pull }

/-! ## Sequence numbers -/

/-- `getNextServerSeqBatch`; it waits while another transaction keeps the row locked. -/
def getNextServerSeqBatch (p count : Nat) : Option (List Nat × ServerState) :=
  if s.externalStore then
    some (List.range' s.nextServerSeq count, { s with nextServerSeq := s.nextServerSeq + count })
  else
    match s.rowLock with
    | none =>
      some (List.range' s.nextServerSeq count,
        { s with rowLock := some (p, s.nextServerSeq + count) })
    | some (owner, uncommitted) =>
      if owner = p then
        some (List.range' uncommitted count, { s with rowLock := some (p, uncommitted + count) })
      else none

/-- The first number of the push reserves one for each of its mutations. -/
def takeNextServerSeq (p mutations : Nat) (allocation : SequenceAllocation) :
    Option (Nat × SequenceAllocation × ServerState) :=
  match allocation.pool with
  | n :: pool => some (n, { allocation with pool := pool }, s)
  | [] =>
    let count := if allocation.initialBatchAllocated then 1 else max 1 mutations
    match s.getNextServerSeqBatch p count with
    | some (n :: pool, s') => some (n, ⟨true, pool⟩, s')
    | _ => none

/-! ## A push -/

def startPush (p client mutations : Nat) : Option ServerState :=
  match s.pushes.get p with
  | some _ => none
  | none =>
    some (s.setPush p ⟨client, mutations, mutations, ⟨false, []⟩, OMap.empty, none⟩)

def beginMutation (p : Nat) : Option ServerState :=
  match s.pushes.get p with
  | some push =>
    if push.tx.isNone ∧ 0 < push.remaining then
      some (s.setPush p { push with
        remaining := push.remaining - 1
        tx := some ⟨push.sequenceAllocation, []⟩ })
    else none
  | none => none

def recordChange (p : Nat) (change : PendingChange) : Option ServerState :=
  match s.pushes.get p with
  | some push =>
    match push.tx with
    | some tx =>
      match s.takeNextServerSeq p push.mutations tx.txSequenceAllocation with
      | some (seq, allocation, s') =>
        let entry : ChangeEntry := ⟨seq, change.resource, change.id, change.op, change.record⟩
        some (s'.setPush p { push with tx := some ⟨allocation, tx.written ++ [entry]⟩ })
      | none => none
    | none => none
  | none => none

/-- What the end of the transaction of `p` does to the row it may keep locked. -/
def releaseRow (p : Nat) (commit : Bool) : ServerState :=
  match s.rowLock with
  | some (owner, uncommitted) =>
    if owner = p then
      { s with
        rowLock := none
        nextServerSeq := if commit then uncommitted else s.nextServerSeq }
    else s
  | none => s

def raiseResourceSeqs (resourceSeqs : OMap String Nat) (written : List ChangeEntry) :
    OMap String Nat :=
  written.foldl (fun seqs e =>
    seqs.set e.resource (max ((seqs.get e.resource).getD 0) e.serverSeq)) resourceSeqs

def commitMutation (p : Nat) : Option ServerState :=
  match s.pushes.get p with
  | some push =>
    match push.tx with
    | some tx =>
      let released := s.releaseRow p true
      let committed : ServerState :=
        { released with commits := released.commits ++ tx.written.map (⟨push.client, ·⟩) }
      some (committed.setPush p { push with
        sequenceAllocation := tx.txSequenceAllocation
        resourceSeqs := raiseResourceSeqs push.resourceSeqs tx.written
        tx := none })
    | none => none
  | none => none

/-- A failed mutation leaves the shared allocation untouched. -/
def rollbackMutation (p : Nat) : Option ServerState :=
  match s.pushes.get p with
  | some push =>
    if push.tx.isSome then some ((s.releaseRow p false).setPush p { push with tx := none })
    else none
  | none => none

def finishPush (p : Nat) : Option ServerState :=
  match s.pushes.get p with
  | some push =>
    if push.tx.isNone ∧ push.remaining = 0 then
      some { s with pushes := s.pushes.delete p }
    else none
  | none => none

/-! ## A pull -/

def startPull (k client : Nat) (request : PullRequest) (maxPullLimit : Option Nat) :
    Option ServerState :=
  match s.pulls.get k with
  | some _ => none
  | none =>
    if request.limit = some 0 then none
    else some (s.setPull k ⟨client, request, pageLimit maxPullLimit request, OMap.empty⟩)

def requestCursor (request : PullRequest) (resource : String) : Nat :=
  (request.cursors.get resource).getD 0

def readChanges (k : Nat) (resource : String) : Option ServerState :=
  match s.pulls.get k with
  | some pull =>
    if resource ∈ requestedResourceKeys pull.request ∧ (pull.streams.get resource).isNone then
      let changes := getChangesSince s.log resource (requestCursor pull.request resource)
        (pull.limit + 1)
      some (s.setPull k { pull with streams := pull.streams.set resource changes })
    else none
  | none => none

end ServerState

namespace PullRun

variable (pull : PullRun)

def answerable : Bool :=
  (requestedResourceKeys pull.request).all fun resource => (pull.streams.get resource).isSome

def selection : MergedStreams :=
  mergeCanonicalChangeStreamsBounded
    ((requestedResourceKeys pull.request).map fun resource =>
      (resource, (pull.streams.get resource).getD [])) pull.limit

/-- The cursors of the answer, the permission feed's apart. -/
def cursors : OMap String Nat := pageCursors none pull.request pull.selection

def cursor (resource : String) : Nat := (pull.cursors.get resource).getD 0

end PullRun

def ServerState.answerPull (s : ServerState) (k : Nat) : Option ServerState :=
  match s.pulls.get k with
  | some pull =>
    if pull.answerable then
      some { s with
        pulls := s.pulls.delete k
        returned := s.returned ++ (requestedResourceKeys pull.request).map fun resource =>
          ⟨resource, pull.cursor resource, s.commits.length⟩ }
    else none
  | none => none

/-! ## The system -/

inductive Action where
  | startPush (p client mutations : Nat)
  | beginMutation (p : Nat)
  | recordChange (p : Nat) (change : PendingChange)
  | commitMutation (p : Nat)
  | rollbackMutation (p : Nat)
  | finishPush (p : Nat)
  | startPull (k client : Nat) (request : PullRequest) (maxPullLimit : Option Nat)
  | readChanges (k : Nat) (resource : String)
  | answerPull (k : Nat)

def step (s : ServerState) : Action → Option ServerState
  | .startPush p client mutations => s.startPush p client mutations
  | .beginMutation p => s.beginMutation p
  | .recordChange p change => s.recordChange p change
  | .commitMutation p => s.commitMutation p
  | .rollbackMutation p => s.rollbackMutation p
  | .finishPush p => s.finishPush p
  | .startPull k client request maxPullLimit => s.startPull k client request maxPullLimit
  | .readChanges k resource => s.readChanges k resource
  | .answerPull k => s.answerPull k

end SuperFunctions.Datafn.Server.Sessions
