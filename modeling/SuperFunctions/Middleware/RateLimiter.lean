import SuperFunctions.Lib.LockQueues
import SuperFunctions.Lib.OrderedMap
import SuperFunctions.Lib.Processes
import SuperFunctions.Lib.StableSort
import SuperFunctions.Middleware.RateLimitBounds
import Mathlib.Data.String.Basic

/-!
# The rate limiter

`check` and `checkMany` of any number of processes, each call a process of the model that takes
its locks, reads the clock, and reads and writes the store one call at a time. Time passes before
any step. The limiter of a process keeps the queues of its locks in `keyLocks`, where the promise
under a key waits for all those before it.
-/
namespace SuperFunctions.Middleware.RateLimiter

open Lib.LockQueues
open Lib.OrderedMap (OMap)
open Lib.Processes
open Lib.StableSort (nodup_eraseDups)
open RateLimitAlgorithms RateLimitBounds

structure RateLimitConfig where
  windowMs : Rat
  maxRequests : Rat
  keyPrefix : String
  algorithm : RateLimitAlgorithm
  /-- Whether an `atomicStore` is given; the default store is one for each process. -/
  atomic : Bool

structure CheckLimitInput where
  key : String
  windowSeconds : Option Rat
  limit : Option Rat

structure CheckManyLimitsInput where
  keys : List String
  limitsByKey : OMap String Rat
  windowSeconds : Option Rat
  limit : Option Rat

/-! ## The store -/

/-- A key in the store that a process uses. -/
abbrev Place := Nat × String

structure Entry (S : Type) where
  value : S
  expiresAt : Option Rat

/-- The in-memory store forgets an entry past its time, the shared one at its time. -/
def Entry.expired {S : Type} (entry : Entry S) (atomic : Bool) (clock : Rat) : Bool :=
  entry.expiresAt.any fun t => if atomic then t ≤ clock else t ≠ 0 ∧ clock > t

abbrev Store (S : Type) := OMap Place (Entry S)

/-- `get`: that an expired entry is also deleted shows in no later `get`, since the clock does
not go back. -/
def readKey {S : Type} (atomic : Bool) (clock : Rat) (store : Store S) (place : Place) : Option S :=
  (store.get place).bind fun entry =>
    if entry.expired atomic clock then none else some entry.value

/-- `set`, and the write of a `compareAndSet`. -/
def writeKey {S : Type} (clock : Rat) (store : Store S) (place : Place) (value : S) (ttlMs : Rat) :
    Store S :=
  let ttlSeconds : Rat := ⌈ttlMs / 1000⌉
  store.set place
    { value, expiresAt := if ttlSeconds > 0 then some (clock + ttlSeconds * 1000) else none }

/-! ## The calls -/

/-- One key of a call, with the limit that applies to it. -/
structure Target where
  key : String
  namespacedKey : String
  limit : Rat

structure Job where
  process : Nat
  many : Bool
  targets : List Target
  windowMs : Rat
  total : Rat
  nodup : (targets.map (·.namespacedKey)).Nodup
  one : many = false → targets.length = 1

/-- `windowSeconds * 1000 ?? windowMs` -/
def effectiveWindowMs (config : RateLimitConfig) (windowSeconds : Option Rat) : Rat :=
  (windowSeconds.map (· * 1000)).getD config.windowMs

def check (config : RateLimitConfig) (process : Nat) (input : CheckLimitInput) : Job where
  process
  many := false
  targets := [⟨input.key, config.keyPrefix ++ input.key, input.limit.getD config.maxRequests⟩]
  windowMs := effectiveWindowMs config input.windowSeconds
  total := input.limit.getD config.maxRequests
  nodup := List.nodup_singleton _
  one := fun _ => rfl

def checkMany (config : RateLimitConfig) (process : Nat) (input : CheckManyLimitsInput) : Job where
  process
  many := true
  targets := input.keys.eraseDups.map fun key => ⟨key, config.keyPrefix ++ key,
    (input.limitsByKey.get key).getD (input.limit.getD config.maxRequests)⟩
  windowMs := effectiveWindowMs config input.windowSeconds
  total := input.limit.getD config.maxRequests
  nodup := by
    rw [List.map_map]
    apply (nodup_eraseDups input.keys).map
    intro a b hab
    exact String.append_right_inj _ |>.mp hab
  one := nofun

/-- A call, and the process in which it is made. -/
inductive Call
  | check (process : Nat) (input : CheckLimitInput)
  | checkMany (process : Nat) (input : CheckManyLimitsInput)

def Call.job (config : RateLimitConfig) : Call → Job
  | .check process input => RateLimiter.check config process input
  | .checkMany process input => RateLimiter.checkMany config process input

structure RateLimitManyResult where
  allowed : Bool
  blockedKeys : Option (List String)
  remainingByKey : List (String × Rat)
  resetAtByKey : List (String × Rat)
  resetAt : Rat
  total : Rat

inductive Outcome
  | single (result : RateLimitResult)
  | many (result : RateLimitManyResult)
  | failed (error : RateLimitError)

/-- `checkMany` of no keys. -/
def emptyResult (job : Job) (clock : Rat) : RateLimitManyResult where
  allowed := true
  blockedKeys := none
  remainingByKey := []
  resetAtByKey := []
  resetAt := clock
  total := job.total

/-- What each key is told, whether or not all of them were allowed. -/
def manyResult (job : Job) (results : List RateLimitResult) (allowed : Bool) :
    RateLimitManyResult :=
  let keys := job.targets.map (·.key)
  let blocked := results.filter fun r => !r.allowed
  { allowed
    blockedKeys := if allowed then none else
      some (((keys.zip results).filter fun e => !e.2.allowed).map Prod.fst)
    remainingByKey := keys.zip (results.map (·.remaining))
    resetAtByKey := keys.zip (results.map (·.resetAt))
    resetAt := if allowed then ((results.map (·.resetAt)).min?).getD 0
      else ((blocked.map (·.resetAt)).max?).getD 0
    total := job.total }

/-! ## The steps -/

inductive Phase (S : Type)
  | entering
  | locking (acquired todo : List String)
  | waiting (acquired : List String) (key : String) (todo : List String)
  | timing
  | preflight (currentTime : Rat) (results : List (Option RateLimitResult))
  | committing (currentTime : Rat) (preflight committed : List RateLimitResult) (attempt : Nat)
  | writing (currentTime : Rat) (preflight committed : List RateLimitResult) (attempt : Nat)
      (target : Target) (expected : Option S) (result : RateLimitResult) (value : S) (ttlMs : Rat)
  | unlocking (outcome : Outcome)
  | done (outcome : Outcome)

structure Caller (S : Type) where
  job : Job
  phase : Phase S

structure Mark (algorithm : RateLimitAlgorithm) where
  task : Nat
  place : Place
  admission : Admission algorithm

structure Shared (algorithm : RateLimitAlgorithm) where
  clock : Rat
  store : Store (State algorithm)
  locks : List (Place × Nat)
  log : List (Mark algorithm)

/-- The time that passes before a step, and which pending read of a preflight it answers. -/
structure Choice where
  elapsed : Rat
  index : Nat

/-- `[...new Set(keys)].sort()` -/
def Job.sortedKeys (job : Job) : List String :=
  (job.targets.map (·.namespacedKey)).insertionSort (· ≤ ·)

def Job.lock (job : Job) (key : String) : Place := (job.process, key)

variable (config : RateLimitConfig)

abbrev Stored := State config.algorithm

/-- Where a process keeps a key: in its own store, or in the shared one. -/
def Job.place (job : Job) (key : String) : Place := (if config.atomic then 0 else job.process, key)

def Caller.to {S : Type} (t : Caller S) (phase : Phase S) : Caller S := { t with phase := phase }

@[simp] theorem Caller.to_job {S : Type} (t : Caller S) (phase : Phase S) :
    (t.to phase).job = t.job := rfl

@[simp] theorem Caller.to_phase {S : Type} (t : Caller S) (phase : Phase S) :
    (t.to phase).phase = phase := rfl

/-- How a call goes on with the result of a commit. -/
def settle {S : Type} (t : Caller S) (currentTime : Rat) (preflight committed : List RateLimitResult)
    (result : RateLimitResult) : Phase S :=
  let charged := committed ++ [result]
  if !t.job.many then .unlocking (.single result)
  else if !result.allowed then
    .unlocking (.many (manyResult t.job (charged ++ preflight.drop charged.length) false))
  else .committing currentTime preflight charged 0

/-- The step of `evaluateKey` or `evaluateAtomicKey` that reads the store. -/
def evaluateKey (σ : Shared config.algorithm) (t : Caller (Stored config)) (currentTime : Rat)
    (preflight committed : List RateLimitResult) (attempt : Nat) (target : Target) :
    Phase (Stored config) :=
  let expected := readKey config.atomic σ.clock σ.store (t.job.place config target.namespacedKey)
  match evaluateState currentTime t.job.windowMs target.limit true config.algorithm expected with
  | .error e => .unlocking (.failed e)
  | .ok evaluation =>
    match evaluation.next with
    | none => settle t currentTime preflight committed evaluation.result
    | some (value, ttlMs) =>
      .writing currentTime preflight committed attempt target expected evaluation.result value ttlMs

/-- A write of call `i` that went through. -/
def record (σ : Shared config.algorithm) (i : Nat) (place : Place) (currentTime : Rat)
    (value : Stored config) (charged : Bool) (ttlMs : Rat) : Shared config.algorithm :=
  { σ with
    store := writeKey σ.clock σ.store place value ttlMs
    log := ⟨i, place, ⟨currentTime, value, charged⟩⟩ :: σ.log }

/-- Whether the write of a call goes through: `compareAndSet` finds what was read. -/
def goesThrough (σ : Shared config.algorithm) (place : Place) (expected : Option (Stored config)) :
    Bool :=
  !config.atomic || decide (readKey config.atomic σ.clock σ.store place = expected)

/-- The next step of a call, at the time of the step. -/
def advance (σ : Shared config.algorithm) (i : Nat) (t : Caller (Stored config)) (index : Nat) :
    Option (Shared config.algorithm × Caller (Stored config)) :=
  match t.phase with
  | .entering =>
    some (σ, t.to (if t.job.targets = [] then .done (.many (emptyResult t.job σ.clock))
      else .locking [] t.job.sortedKeys))
  | .locking _ [] => some (σ, t.to .timing)
  | .locking acquired (key :: todo) =>
    some ({ σ with locks := enqueue σ.locks (t.job.lock key) i }, t.to (.waiting acquired key todo))
  | .waiting acquired key todo =>
    if holder σ.locks (t.job.lock key) = some i then
      some (σ, t.to (.locking (acquired ++ [key]) todo))
    else none
  | .timing =>
    some (σ, t.to (if t.job.many then .preflight σ.clock (t.job.targets.map fun _ => none)
      else .committing σ.clock [] [] 0))
  | .preflight currentTime results =>
    if results.all Option.isSome then
      let preflight := results.filterMap id
      some (σ, t.to (if preflight.all (·.allowed) then .committing currentTime preflight [] 0
        else .unlocking (.many (manyResult t.job preflight false))))
    else
      match t.job.targets[index]?, results[index]? with
      | some target, some none =>
        match evaluateState currentTime t.job.windowMs target.limit false config.algorithm
            (readKey config.atomic σ.clock σ.store (t.job.place config target.namespacedKey)) with
        | .error e => some (σ, t.to (.unlocking (.failed e)))
        | .ok evaluation =>
          some (σ, t.to (.preflight currentTime (results.set index (some evaluation.result))))
      | _, _ => none
  | .committing currentTime preflight committed attempt =>
    match t.job.targets[committed.length]? with
    | none => some (σ, t.to (.unlocking (.many (manyResult t.job committed true))))
    | some target =>
      some (σ, t.to (evaluateKey config σ t currentTime preflight committed attempt target))
  | .writing currentTime preflight committed attempt target expected result value ttlMs =>
    let place := t.job.place config target.namespacedKey
    if goesThrough config σ place expected then
      some (record config σ i place currentTime value result.allowed ttlMs,
        t.to (settle t currentTime preflight committed result))
    else if attempt + 1 < 16 then
      some (σ, t.to (.committing currentTime preflight committed (attempt + 1)))
    else some (σ, t.to (.unlocking (.failed .atomicContention)))
  | .unlocking outcome =>
    some ({ σ with locks := leave σ.locks i }, t.to (.done outcome))
  | .done _ => none

/-- Time passes; it does not go back. -/
def Shared.wait {algorithm : RateLimitAlgorithm} (σ : Shared algorithm) (elapsed : Rat) :
    Shared algorithm :=
  { σ with clock := σ.clock + max 0 elapsed }

def next (σ : Shared config.algorithm) (i : Nat) (t : Caller (Stored config)) (c : Choice) :
    Option (Shared config.algorithm × Caller (Stored config)) :=
  advance config (σ.wait c.elapsed) i t c.index

abbrev Limiters := System (Shared config.algorithm) (Caller (Stored config))

def start (clock : Rat) : Limiters config := ⟨⟨clock, OMap.empty, [], []⟩, []⟩

def Call.caller (call : Call) : Caller (Stored config) := ⟨call.job config, .entering⟩

abbrev step : Limiters config → Act Call Choice → Option (Limiters config) :=
  act (Call.caller config) (next config)

/-! ## What is recorded -/

variable {algorithm : RateLimitAlgorithm}

/-- The evaluations stored under a key, the latest first. -/
def storedAt (log : List (Mark algorithm)) (place : Place) : List (Admission algorithm) :=
  (log.filter fun m => m.place = place).map (·.admission)

/-- How often a call has charged a key. -/
def chargesBy (log : List (Mark algorithm)) (i : Nat) (place : Place) : Nat :=
  log.countP fun m => m.task = i ∧ m.place = place ∧ m.admission.charged = true

end SuperFunctions.Middleware.RateLimiter
