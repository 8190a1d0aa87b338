import SuperFunctions.Lib.Processes

/-!
# The chained sequence store

`ChainedSequenceStore` over an atomic counter and the `next_server_seq` row of `__datafn_meta`,
for one namespace and any number of processes. A call of `getNextN` is a small program; every
operation it awaits is one action, together with the reply of the store. The in-process lock is
not modelled, so calls of one process interleave as freely as those of several.
-/
namespace SuperFunctions.Datafn.Server.SequenceStore

/-- Where `DatabaseSequenceStore.ensureMinSeq` waits. -/
inductive EnsureStage where
  | find
  | create
  | refind
  | cas (current : Nat)
  deriving DecidableEq

/-- Who called `ensureMinSeq`: the high-water mark of a range that ends in `last`, or the
failover, inside or outside the `try` block. -/
inductive EnsurePurpose where
  | highWater (last : Nat)
  | failover (inTry : Bool)
  deriving DecidableEq

/-- Where an attempt of `DatabaseSequenceStore.getNextN` waits. -/
inductive AllocateStage where
  | find
  | create
  | cas (current : Nat)
  deriving DecidableEq

/-- Where `ChainedSequenceStore.getNextN` waits. -/
inductive Pc where
  | checkHealth
  | readCurrents (primary secondary : Option Nat)
  | syncRead (target : Nat)
  | syncLoop (target current : Nat)
  | allocatePrimary
  | recordPrimary (last : Nat)
  | ensureMin (needed : Nat) (stage : EnsureStage) (purpose : EnsurePurpose)
  | allocateSecondary (attempt : Nat) (stage : AllocateStage) (inTry : Bool)
  | returned
  | failed
  deriving DecidableEq

structure Call where
  process : Nat
  count : Nat
  pc : Pc

structure State where
  /-- the atomic counter -/
  counter : Nat
  /-- `next_server_seq`, once the row exists -/
  row : Option Nat
  /-- `lastKnownPrimarySeq` of each process -/
  lastKnown : Nat → Option Nat
  calls : Nat → Option Call
  /-- the arrays returned so far, the latest first -/
  issued : List (List Nat)

/-- The reply to an awaited operation. An operation that throws may have taken effect. -/
inductive Reply where
  | ok
  | zeroRows
  | throws (effect : Bool)
  deriving DecidableEq

inductive Action where
  | getNextN (id process count : Nat)
  | isHealthy (id : Nat) (answer : Option Bool)
  | readPrimary (id : Nat) (reply : Reply)
  | readSecondary (id : Nat) (reply : Reply)
  | syncPrimary (id : Nat) (reply : Reply)
  | incr (id : Nat) (reply : Reply)
  | setLastKnown (id : Nat)
  | ensureMinSeq (id : Nat) (reply : Reply)
  | allocate (id : Nat) (reply : Reply)

/-- `(meta.next_server_seq as number) || 1` -/
def orOne (n : Nat) : Nat := if n = 0 then 1 else n

/-- The number the row would allocate next. -/
def rowNext (s : State) : Nat := (s.row.map orOne).getD 1

def validCount (count : Nat) : Prop := 1 ≤ count ∧ count ≤ 1000

instance (count : Nat) : Decidable (validCount count) :=
  inferInstanceAs (Decidable (1 ≤ count ∧ count ≤ 1000))

def maxRetries : Nat := 10

/-- `Array.from({ length: count }, (_, i) => start + i)` -/
def seqs (start count : Nat) : List Nat := List.range' start count

/-- `syncSecondaryOnFailover`, then the database path. -/
def enterFailover (lastKnown : Option Nat) (inTry : Bool) : Pc :=
  match lastKnown with
  | none => .allocateSecondary 0 .find inTry
  | some last =>
    if 0 < last then .ensureMin (last + 1) .find (.failover inTry)
    else .allocateSecondary 0 .find inTry

/-- Inside the `try` block an error leads to the failover, in the `catch` block to a rejection. -/
def onThrow (lastKnown : Option Nat) (inTry : Bool) : Pc :=
  if inTry then enterFailover lastKnown false else .failed

def nextAttempt (lastKnown : Option Nat) (attempt : Nat) (inTry : Bool) : Pc :=
  if attempt + 1 < maxRetries then .allocateSecondary (attempt + 1) .find inTry
  else onThrow lastKnown inTry

/-- Both currents are read: synchronize the primary when it is behind. -/
def compareCurrents (primary secondary : Option Nat) : Pc :=
  match primary, secondary with
  | some p, some d => if d ≤ p then .allocatePrimary else .syncRead d
  | p, d => .readCurrents p d

def syncFrom (target current : Nat) : Pc :=
  if current < target then .syncLoop target current else .allocatePrimary

def State.setPc (s : State) (id : Nat) (c : Call) (pc : Pc) : State :=
  { s with calls := Function.update s.calls id (some { c with pc := pc }) }

/-- The call resolves with `values`. -/
def State.resolve (s : State) (id : Nat) (c : Call) (values : List Nat) : State :=
  { s.setPc id c .returned with issued := values :: s.issued }

/-! ## The operations -/

def stepHealth (s : State) (id : Nat) (c : Call) : Option Bool → Option State
  | some true => if c.pc = .checkHealth then s.setPc id c (.readCurrents none none) else none
  | some false => if c.pc = .checkHealth
      then s.setPc id c (enterFailover (s.lastKnown c.process) true) else none
  | none => if c.pc = .checkHealth
      then s.setPc id c (enterFailover (s.lastKnown c.process) false) else none

def stepReadPrimary (s : State) (id : Nat) (c : Call) (reply : Reply) : Option State :=
  match c.pc, reply with
  | .readCurrents none d, .ok => some (s.setPc id c (compareCurrents (some s.counter) d))
  | .readCurrents none _, .throws _ =>
    some (s.setPc id c (enterFailover (s.lastKnown c.process) false))
  | _, _ => none

def stepReadSecondary (s : State) (id : Nat) (c : Call) (reply : Reply) : Option State :=
  match c.pc, reply with
  | .readCurrents p none, .ok =>
    let current := match s.row with
      | none => 0
      | some n => orOne n - 1
    some (s.setPc id c (compareCurrents p (some current)))
  | .readCurrents _ none, .throws _ =>
    some (s.setPc id c (enterFailover (s.lastKnown c.process) false))
  | _, _ => none

/-- `AtomicSequenceStore.ensureMinSeq`: read the counter, then increment it up to the target. -/
def stepSyncPrimary (s : State) (id : Nat) (c : Call) (reply : Reply) : Option State :=
  match c.pc, reply with
  | .syncRead target, .ok => some (s.setPc id c (syncFrom target s.counter))
  | .syncRead _, .throws _ => some (s.setPc id c (enterFailover (s.lastKnown c.process) false))
  | .syncLoop target current, .ok =>
    let counter := s.counter + min (target - current) 1000
    some ({ s with counter := counter }.setPc id c (syncFrom target counter))
  | .syncLoop target current, .throws effect =>
    let counter := if effect then s.counter + min (target - current) 1000 else s.counter
    some ({ s with counter := counter }.setPc id c (enterFailover (s.lastKnown c.process) false))
  | _, _ => none

/-- `AtomicSequenceStore.getNextN`: one increment by `count`. -/
def stepIncr (s : State) (id : Nat) (c : Call) (reply : Reply) : Option State :=
  match c.pc, reply with
  | .allocatePrimary, .ok =>
    if validCount c.count then
      some ({ s with counter := s.counter + c.count }.setPc id c
        (.recordPrimary (s.counter + c.count)))
    else some (s.setPc id c (enterFailover (s.lastKnown c.process) false))
  | .allocatePrimary, .throws effect =>
    let counter := if effect ∧ validCount c.count then s.counter + c.count else s.counter
    some ({ s with counter := counter }.setPc id c (enterFailover (s.lastKnown c.process) false))
  | _, _ => none

/-- Remember the last number of the range; the high-water mark is written next. -/
def stepSetLastKnown (s : State) (id : Nat) (c : Call) : Option State :=
  match c.pc with
  | .recordPrimary last =>
    some ({ s with lastKnown := Function.update s.lastKnown c.process (some last) }.setPc id c
      (.ensureMin (last + 1) .find (.highWater last)))
  | _ => none

/-- `ensureMinSeq` is over: the range is returned, or the failover goes on to the database. -/
def ensureDone (s : State) (id : Nat) (c : Call) : EnsurePurpose → State
  | .highWater last => s.resolve id c (seqs (last + 1 - c.count) c.count)
  | .failover inTry => s.setPc id c (.allocateSecondary 0 .find inTry)

def ensureFailed (s : State) (id : Nat) (c : Call) : EnsurePurpose → State
  | .highWater _ => s.setPc id c (enterFailover (s.lastKnown c.process) false)
  | .failover inTry => s.setPc id c (onThrow (s.lastKnown c.process) inTry)

/-- Compare the row that was read with the mark it has to reach. -/
def ensureCompare (s : State) (id : Nat) (c : Call) (needed current : Nat)
    (purpose : EnsurePurpose) : State :=
  if current < needed then s.setPc id c (.ensureMin needed (.cas current) purpose)
  else ensureDone s id c purpose

def stepEnsureMinSeq (s : State) (id : Nat) (c : Call) (reply : Reply) : Option State :=
  match c.pc with
  | .ensureMin needed stage purpose =>
    match stage, reply with
    | .find, .ok =>
      match s.row with
      | none => some (s.setPc id c (.ensureMin needed .create purpose))
      | some n => some (ensureCompare s id c needed (orOne n) purpose)
    | .find, .throws _ => some (ensureFailed s id c purpose)
    | .create, .ok =>
      if s.row = none then some (ensureDone { s with row := some needed } id c purpose)
      else some (s.setPc id c (.ensureMin needed .refind purpose))
    | .create, .throws effect =>
      let row := if effect ∧ s.row = none then some needed else s.row
      some ({ s with row := row }.setPc id c (.ensureMin needed .refind purpose))
    | .refind, .ok => some (ensureCompare s id c needed (rowNext s) purpose)
    | .refind, .throws _ => some (ensureFailed s id c purpose)
    -- the number of affected rows is not looked at
    | .cas current, .ok =>
      let row := if s.row = some current then some needed else s.row
      some (ensureDone { s with row := row } id c purpose)
    | .cas _, .zeroRows => some (ensureDone s id c purpose)
    | .cas current, .throws effect =>
      let row := if effect ∧ s.row = some current then some needed else s.row
      some (ensureFailed { s with row := row } id c purpose)
    | _, .zeroRows => none
  | _ => none

/-- `DatabaseSequenceStore.getNextN`: at most ten attempts of a read and a create or update. -/
def stepAllocate (s : State) (id : Nat) (c : Call) (reply : Reply) : Option State :=
  match c.pc with
  | .allocateSecondary attempt stage inTry =>
    let lastKnown := s.lastKnown c.process
    if ¬ validCount c.count then some (s.setPc id c (onThrow lastKnown inTry))
    else
      match stage, reply with
      | .find, .ok =>
        match s.row with
        | none => some (s.setPc id c (.allocateSecondary attempt .create inTry))
        | some n => some (s.setPc id c (.allocateSecondary attempt (.cas (orOne n)) inTry))
      | .find, .throws _ => some (s.setPc id c (nextAttempt lastKnown attempt inTry))
      | .create, .ok =>
        if s.row = none then
          some ({ s with row := some (1 + c.count) }.resolve id c (seqs 1 c.count))
        else some (s.setPc id c (nextAttempt lastKnown attempt inTry))
      | .create, .throws effect =>
        let row := if effect ∧ s.row = none then some (1 + c.count) else s.row
        some ({ s with row := row }.setPc id c (nextAttempt lastKnown attempt inTry))
      | .cas current, .ok =>
        if s.row = some current then
          some ({ s with row := some (current + c.count) }.resolve id c (seqs current c.count))
        else some (s.setPc id c (nextAttempt lastKnown attempt inTry))
      | .cas _, .zeroRows => some (s.setPc id c (nextAttempt lastKnown attempt inTry))
      | .cas current, .throws effect =>
        let row := if effect ∧ s.row = some current then some (current + c.count) else s.row
        some ({ s with row := row }.setPc id c (nextAttempt lastKnown attempt inTry))
      | _, .zeroRows => none
  | _ => none

def step (s : State) : Action → Option State
  | .getNextN id process count =>
    if s.calls id = none then
      some { s with calls := Function.update s.calls id (some ⟨process, count, .checkHealth⟩) }
    else none
  | .isHealthy id answer => (s.calls id).bind fun c => stepHealth s id c answer
  | .readPrimary id reply => (s.calls id).bind fun c => stepReadPrimary s id c reply
  | .readSecondary id reply => (s.calls id).bind fun c => stepReadSecondary s id c reply
  | .syncPrimary id reply => (s.calls id).bind fun c => stepSyncPrimary s id c reply
  | .incr id reply => (s.calls id).bind fun c => stepIncr s id c reply
  | .setLastKnown id => (s.calls id).bind fun c => stepSetLastKnown s id c
  | .ensureMinSeq id reply => (s.calls id).bind fun c => stepEnsureMinSeq s id c reply
  | .allocate id reply => (s.calls id).bind fun c => stepAllocate s id c reply

end SuperFunctions.Datafn.Server.SequenceStore
