import SuperFunctions.Lib.OrderedMap
import SuperFunctions.Lib.Processes

/-!
# The permission directory and its outbox

The external directory of one region, its outbox and the processes that keep it: mutations that
share or unshare a grant, and drainers. A grant id has its own row, entry and tasks. Every
operation a process awaits is one action, and a process that crashes, or whose error leaves
nothing more to do, is gone. A transaction writes the row when it commits.
-/
namespace SuperFunctions.Datafn.Server.PermissionDirectory

open Lib.OrderedMap

variable {Grant : Type}

/-! ## State -/

/-- What a task asks for: reconciliation, or first the compensation of a share that failed. -/
inductive Work (Grant : Type) where
  | sync
  | compensate (expected : Grant) (prior : Option Grant)

structure OutboxTask (Grant : Type) where
  nextAttemptAt : Nat
  work : Work Grant

/-- The row and the directory entry of a grant id, and its tasks. -/
structure Store (Grant : Type) where
  row : Option Grant
  directory : Option Grant
  outbox : OMap Nat (OutboxTask Grant)
  nextTask : Nat

/-- Where a reconciliation waits: `syncDatafnPermissionGrantAfterCommit` up to `removeRevoked`,
`reconcileCompensatedGrantDirectory` from `read` on. -/
inductive Sync (Grant : Type) where
  | lookup
  | remove
  | index (grant : Grant) (attempt : Nat)
  | verify (grant : Grant) (attempt : Nat)
  | removeRevoked
  | read (attempt : Nat)
  | write (current : Option Grant) (attempt : Nat)
  | settle (current : Option Grant) (attempt : Nat)
  | finished
  | failed

inductive Operation (Grant : Type) where
  | share (grant : Grant)
  | unshare

/-- Where a process waits. A pending task goes with the lease its heartbeat renews, a claimed
one with the claim. -/
inductive Proc (Grant : Type) where
  | starting (operation : Operation Grant) (transactional : Bool)
  | sharing (task lease : Nat) (grant : Grant)
  | snapshotted (task lease : Nat) (grant : Grant) (prior : Option Grant)
  | shared (task lease : Nat) (grant : Grant) (prior : Option Grant)
  | unsharing (task lease : Nat) (transactional : Bool)
  | found (task lease : Nat) (transactional existing : Bool)
  | invalidated (task lease : Nat) (transactional existing : Bool)
  | restoring (task lease : Nat) (expected : Grant) (prior : Option Grant)
  | compensating (task lease : Nat) (expected : Grant) (prior : Option Grant) (sync : Sync Grant)
  | compensatingInTransaction (sync : Sync Grant)
  | discarding (task lease : Nat)
  | deferring (task lease : Nat) (expected : Grant) (prior : Option Grant)
  | fencing (task replacement : Nat)
  | releasing (task lease : Nat) (rethrow : Bool)
  | requeueing
  | fetching (task : Nat) (claim : Option Nat) (ofMutation : Bool)
  | restoringTask (task : Nat) (claim : Option Nat) (ofMutation : Bool) (expected : Grant)
    (prior : Option Grant)
  | draining (task : Nat) (claim : Option Nat) (ofMutation : Bool) (sync : Sync Grant)

structure State (Grant : Type) where
  store : Store Grant
  procs : OMap Nat (Proc Grant)

inductive Event where
  | persistTask (now : Nat)
  | commitShare (now : Nat)
  | compensateInTransaction
  | snapshot
  | writeGrant
  | writeThrows
  | refuse
  | mirrorThrows
  | inheritanceFails
  | trackingThrows
  | succeed
  | lookupGrant
  | invalidate
  | removeGrant (rethrow : Bool)
  | keepGrant
  | restore
  | syncStep
  | compensationThrows
  | compensated
  | discard
  | discardMissed (now : Nat)
  | deferInPlace (now : Nat)
  | deferToReplacement (now : Nat) (applied : Bool)
  | fence
  | release (now : Nat)
  | releaseThrows
  | requeue (now : Nat)
  | fetch
  | acknowledge
  | retryLater (nextAttemptAt : Nat)
  | renew (now : Nat) (reply : Bool)

inductive Action (Grant : Type) where
  | start (id : Nat) (operation : Operation Grant) (transactional : Bool)
  | claim (id task now : Nat)
  | crash (id : Nat)
  | event (id : Nat) (event : Event)

/-! ## The outbox -/

def precommitTaskLeaseMs : Nat := 5 * 60 * 1000

def drainClaimLeaseMs : Nat := 60 * 1000

def Store.enqueue (st : Store Grant) (nextAttemptAt : Nat) (work : Work Grant) : Store Grant :=
  { st with outbox := st.outbox.set st.nextTask ⟨nextAttemptAt, work⟩, nextTask := st.nextTask + 1 }

/-- The `where` of a conditional update or delete; without a claim the id alone decides. -/
def Store.matching (st : Store Grant) (task : Nat) (claim : Option Nat) :
    Option (OutboxTask Grant) :=
  (st.outbox.get task).filter fun t => claim.all fun c => t.nextAttemptAt = c

def Store.setTask (st : Store Grant) (task : Nat) (t : OutboxTask Grant) : Store Grant :=
  { st with outbox := st.outbox.set task t }

def Store.deleteTask (st : Store Grant) (task : Nat) : Store Grant :=
  { st with outbox := st.outbox.delete task }

/-- `update ... where`: the next attempt of a task that matches. -/
def Store.reschedule (st : Store Grant) (task : Nat) (claim : Option Nat) (nextAttemptAt : Nat) :
    Store Grant :=
  match st.matching task claim with
  | some t => st.setTask task { t with nextAttemptAt := nextAttemptAt }
  | none => st

/-! ## Reconciliation -/

section
variable [DecidableEq Grant]

/-- One operation of a reconciliation. An absent row is not read again once its entry is gone. -/
def perform (st : Store Grant) : Sync Grant → Option (Store Grant × Sync Grant)
  | .lookup =>
    match st.row with
    | some grant => some (st, .index grant 0)
    | none => some (st, .remove)
  | .remove => some ({ st with directory := none }, .finished)
  | .index grant attempt => some ({ st with directory := some grant }, .verify grant attempt)
  | .verify grant attempt =>
    match st.row with
    | none => some (st, .removeRevoked)
    | some current =>
      if current = grant then some (st, .finished)
      else if attempt + 1 < 3 then some (st, .index current (attempt + 1))
      else some (st, .failed)
  | .removeRevoked => some ({ st with directory := none }, .finished)
  | .read attempt => some (st, .write st.row attempt)
  | .write current attempt => some ({ st with directory := current }, .settle current attempt)
  | .settle current attempt =>
    if st.row = current then some (st, .finished)
    else if attempt + 1 < 3 then some (st, .read (attempt + 1))
    else some (st, .failed)
  | .finished => none
  | .failed => none

/-- `conditionallyRestoreGrantRecord` -/
def restoreRow (st : Store Grant) (expected : Grant) (prior : Option Grant) : Store Grant :=
  if st.row = some expected then { st with row := prior } else st

end

/-! ## Processes -/

/-- The task a live heartbeat renews, and its lease. -/
def lease : Proc Grant → Option (Nat × Nat)
  | .sharing task l _ => some (task, l)
  | .snapshotted task l _ _ => some (task, l)
  | .shared task l _ _ => some (task, l)
  | .unsharing task l _ => some (task, l)
  | .found task l _ _ => some (task, l)
  | .invalidated task l _ _ => some (task, l)
  | .restoring task l _ _ => some (task, l)
  | .compensating task l _ _ _ => some (task, l)
  | .discarding task l => some (task, l)
  | .deferring task l _ _ => some (task, l)
  | .releasing task l _ => some (task, l)
  | _ => none

def withLease (l : Nat) : Proc Grant → Proc Grant
  | .sharing task _ grant => .sharing task l grant
  | .snapshotted task _ grant prior => .snapshotted task l grant prior
  | .shared task _ grant prior => .shared task l grant prior
  | .unsharing task _ transactional => .unsharing task l transactional
  | .found task _ transactional existing => .found task l transactional existing
  | .invalidated task _ transactional existing => .invalidated task l transactional existing
  | .restoring task _ expected prior => .restoring task l expected prior
  | .compensating task _ expected prior sync => .compensating task l expected prior sync
  | .discarding task _ => .discarding task l
  | .deferring task _ expected prior => .deferring task l expected prior
  | .releasing task _ rethrow => .releasing task l rethrow
  | p => p

/-- The owner drains its task once the mutation has settled. -/
def drainOwn (task : Nat) : Option (Proc Grant) := some (.fetching task none true)

section
variable [DecidableEq Grant]

/-- What an event makes of the process it happens to; no process is one that has ended. -/
def advance (st : Store Grant) : Proc Grant → Event → Option (Store Grant × Option (Proc Grant))
  -- a transactional share inserts its task with the grant
  | .starting (.share grant) true, .commitShare now =>
    some ({ st.enqueue now .sync with row := some grant }, drainOwn st.nextTask)
  | .starting (.share _) true, .compensateInTransaction =>
    some (st, some (.compensatingInTransaction (.read 0)))
  | .starting (.share grant) false, .persistTask now =>
    some (st.enqueue (now + precommitTaskLeaseMs) .sync,
      some (.sharing st.nextTask (now + precommitTaskLeaseMs) grant))
  | .starting .unshare transactional, .persistTask now =>
    some (st.enqueue (now + precommitTaskLeaseMs) .sync,
      some (.unsharing st.nextTask (now + precommitTaskLeaseMs) transactional))
  | .sharing task l grant, .snapshot => some (st, some (.snapshotted task l grant st.row))
  | .sharing task l _, .refuse => some (st, some (.discarding task l))
  | .snapshotted task l grant prior, .writeGrant =>
    some ({ st with row := some grant }, some (.shared task l grant prior))
  | .snapshotted task l grant prior, .writeThrows => some (st, some (.restoring task l grant prior))
  | .shared task l grant prior, .mirrorThrows => some (st, some (.restoring task l grant prior))
  -- a failure after `executeShare` carries no compensation
  | .shared task l _ _, .inheritanceFails => some (st, some (.discarding task l))
  | .shared task l _ _, .trackingThrows => some (st, some (.releasing task l true))
  | .shared task l _ _, .succeed => some (st, some (.releasing task l false))
  | .unsharing task l transactional, .lookupGrant =>
    some (st, some (.found task l transactional st.row.isSome))
  | .unsharing task l _, .refuse => some (st, some (.releasing task l false))
  | .found task l transactional existing, .invalidate =>
    some ({ st with directory := none }, some (.invalidated task l transactional existing))
  | .found task l _ _, .refuse => some (st, some (.releasing task l false))
  | .invalidated task l transactional true, .removeGrant rethrow =>
    if transactional && rethrow then none
    else some ({ st with row := none }, some (.releasing task l rethrow))
  -- nothing to delete, a delete that throws, or a rollback
  | .invalidated task l _ _, .keepGrant => some (st, some (.releasing task l false))
  | .restoring task l expected prior, .restore =>
    some (restoreRow st expected prior, some (.compensating task l expected prior (.read 0)))
  | .restoring task l expected prior, .compensationThrows =>
    some (st, some (.deferring task l expected prior))
  | .compensating task l expected prior sync, .syncStep =>
    (perform st sync).map fun next => (next.1, some (.compensating task l expected prior next.2))
  | .compensating task l expected prior _, .compensationThrows =>
    some (st, some (.deferring task l expected prior))
  | .compensating task l _ _ .finished, .compensated => some (st, some (.discarding task l))
  | .compensatingInTransaction sync, .syncStep =>
    (perform st sync).map fun next => (next.1, some (.compensatingInTransaction next.2))
  | .discarding task l, .discard =>
    (st.matching task (some l)).map fun _ => (st.deleteTask task, none)
  | .discarding _ _, .discardMissed now => some (st.enqueue now .sync, drainOwn st.nextTask)
  | .deferring task l expected prior, .deferInPlace now =>
    (st.matching task (some l)).map fun _ =>
      (st.setTask task ⟨now, .compensate expected prior⟩, drainOwn task)
  -- the update missed or threw; one that threw may have been applied
  | .deferring task l expected prior, .deferToReplacement now applied =>
    let updated := match st.matching task (some l) with
      | some _ => if applied then st.setTask task ⟨now, .compensate expected prior⟩ else st
      | none => st
    some (updated.enqueue now (.compensate expected prior), some (.fencing task st.nextTask))
  | .fencing task replacement, .fence =>
    match st.outbox.get task with
    | some ⟨_, .sync⟩ => some (st.deleteTask task, drainOwn replacement)
    | _ => some (st, drainOwn replacement)
  | .releasing task l rethrow, .release now =>
    match st.matching task (some l) with
    | some t =>
      some (st.setTask task { t with nextAttemptAt := now },
        if rethrow then none else drainOwn task)
    | none => some (st, if rethrow then none else some .requeueing)
  | .releasing task _ rethrow, .releaseThrows =>
    some (st, if rethrow then none else drainOwn task)
  | .requeueing, .requeue now => some (st.enqueue now .sync, drainOwn st.nextTask)
  | .fetching task claim ofMutation, .fetch =>
    match st.matching task claim with
    | some ⟨_, .sync⟩ => some (st, some (.draining task claim ofMutation .lookup))
    | some ⟨_, .compensate expected prior⟩ =>
      some (st, some (.restoringTask task claim ofMutation expected prior))
    | none => some (st, none)
  | .restoringTask task claim ofMutation expected prior, .restore =>
    some (restoreRow st expected prior, some (.draining task claim ofMutation (.read 0)))
  | .restoringTask task claim _ _ _, .retryLater nextAttemptAt =>
    some (st.reschedule task claim nextAttemptAt, none)
  | .draining task claim ofMutation sync, .syncStep =>
    (perform st sync).map fun next => (next.1, some (.draining task claim ofMutation next.2))
  | .draining task claim _ .finished, .acknowledge =>
    match st.matching task claim with
    | some _ => some (st.deleteTask task, none)
    | none => some (st, none)
  | .draining task claim _ _, .retryLater nextAttemptAt =>
    some (st.reschedule task claim nextAttemptAt, none)
  | p, .renew now reply =>
    (lease p).map fun held =>
      (st.reschedule held.1 (some held.2) (now + precommitTaskLeaseMs),
        some (if reply ∧ (st.matching held.1 (some held.2)).isSome then
          withLease (now + precommitTaskLeaseMs) p else p))
  | _, _ => none

def putProc (procs : OMap Nat (Proc Grant)) (id : Nat) : Option (Proc Grant) → OMap Nat (Proc Grant)
  | some p => procs.set id p
  | none => procs.delete id

def step (s : State Grant) : Action Grant → Option (State Grant)
  | .start id operation transactional =>
    match s.procs.get id with
    | none => some { s with procs := s.procs.set id (.starting operation transactional) }
    | some _ => none
  | .claim id task now =>
    match s.procs.get id, s.store.outbox.get task with
    | none, some t =>
      if t.nextAttemptAt ≤ now then
        some ⟨s.store.setTask task { t with nextAttemptAt := now + drainClaimLeaseMs },
          s.procs.set id (.fetching task (some (now + drainClaimLeaseMs)) false)⟩
      else none
    | _, _ => none
  | .crash id => some { s with procs := s.procs.delete id }
  | .event id e =>
    (s.procs.get id).bind fun p =>
      (advance s.store p e).map fun next => ⟨next.1, putProc s.procs id next.2⟩

/-! ## A region -/

/-- The state of every grant id. -/
abbrev Region (Grant : Type) := String → State Grant

def regionStep (region : Region Grant) (a : String × Action Grant) : Option (Region Grant) :=
  (step (region a.1) a.2).map fun s => Function.update region a.1 s

end

/-- A mutation that has not returned; drainers are none. -/
def isMutation : Proc Grant → Bool
  | .fetching _ _ ofMutation => ofMutation
  | .restoringTask _ _ ofMutation _ _ => ofMutation
  | .draining _ _ ofMutation _ => ofMutation
  | _ => true

/-- No mutation is in flight and the outbox holds no task. -/
def Quiescent (s : State Grant) : Prop :=
  (∀ p ∈ s.procs.values, isMutation p = false) ∧ s.store.outbox.keys = []

/-- The directory holds an entry exactly if the row exists, with the row's content. -/
def Converged (s : State Grant) : Prop := s.store.directory = s.store.row

/-- Nothing is going on, and the directory agrees with the rows. -/
def Settled (s : State Grant) : Prop :=
  s.procs.keys = [] ∧ s.store.outbox.keys = [] ∧ Converged s

end SuperFunctions.Datafn.Server.PermissionDirectory
