import SuperFunctions.Lib.Processes

/-!
# Identity placement

A directory holds one placement record for an identity: its region, an epoch and a state. Six
operations change it, gateways claim it on first use and route by a copy they keep for a while, and
a cell reads it before it lets a routed request in. Every one of them is a process here that makes
one call of the directory at a time.
-/
namespace SuperFunctions.Authfn.Placement

open Lib.Processes (System Act act)

inductive AuthFnIdentityPlacementState
  | active | moving | deleting | tombstoned
deriving DecidableEq

structure AuthFnIdentityPlacement where
  identityKey : String
  regionId : String
  epoch : Nat
  state : AuthFnIdentityPlacementState
  movingToRegionId : Option String
  previousRegionId : Option String
  updatedAt : String
deriving DecidableEq

def blank (text : String) : Bool := text.toList.all Char.isWhitespace

def maxSafeInteger : Nat := 9007199254740991

def validatePlacement (placement : AuthFnIdentityPlacement) : Bool :=
  !blank placement.identityKey && !blank placement.regionId &&
    placement.epoch ≤ maxSafeInteger && 1 ≤ placement.epoch

/-- How a directory keeps a record: a store-backed one as a text that it reads and then replaces
by compare-and-set on the text, the in-memory one as the record itself. -/
structure Directory (R : Type) where
  serialize : AuthFnIdentityPlacement → R
  parse : R → Option AuthFnIdentityPlacement
  storeBacked : Bool

def inMemoryPlacementDirectory : Directory AuthFnIdentityPlacement := ⟨id, some, false⟩

structure CachedPlacement where
  placement : AuthFnIdentityPlacement
  expiresAt : Int

/-- The record of the identity in the directory, and the copy each gateway keeps of it. -/
structure Shared (R : Type) where
  raw : Option R
  caches : List (Option CachedPlacement)

inductive Operation
  | move (sourceRegionId targetRegionId : String) (resumesSource : Bool)
  | tombstone
  | fence
  | finalize (expectedFenceEpoch : Option Nat)
  | restore (expectedFenceEpoch : Option Nat)
  /-- A client request at one of the gateways. -/
  | request (gateway : Nat) (allowInitialPlacement : Bool)
  /-- A routing assertion that reaches a cell by any other way. -/
  | assertion (regionId : String) (epoch : Nat)

/-- The argument of `compareAndSet`. -/
structure Swap where
  expectedEpoch : Nat
  expectedState : AuthFnIdentityPlacementState
  placement : AuthFnIdentityPlacement
deriving DecidableEq

/-- What a compare-and-set was made for. -/
inductive Purpose
  | fenceSource
  | activateTarget
  | rollBack
  | settle
deriving DecidableEq

inductive Phase (R : Type)
  | entered
  | swapping (purpose : Purpose) (swap : Swap)
  /-- A store-backed directory has read the text and found the expected record in it. -/
  | replacing (purpose : Purpose) (swap : Swap) (existingRaw : R)
  | migrating (moving : AuthFnIdentityPlacement) (callbacks : Nat)
  | resumingSource (moving : AuthFnIdentityPlacement)
  | loading (attempt : Nat) (bypassCache : Bool)
  | claiming (attempt : Nat)
  /-- An assertion for a region and an epoch is on its way to a cell. -/
  | dispatched (attempt : Nat) (regionId : String) (epoch : Nat)
  | mismatched (attempt : Nat)
  | admitted (regionId : String) (epoch : Nat)
  | answered
  | returned (placement : Option AuthFnIdentityPlacement)
  | threw
deriving DecidableEq

structure Call (R : Type) where
  operation : Operation
  phase : Phase R

/-- What the surroundings contribute to a move: whether a call of the directory or a callback
throws, the clock, and the region the caller's configuration names. -/
structure Choice where
  fails : Bool
  updatedAt : String
  clock : Int
  regionId : String
  accepts : Bool

section Directory

variable {R : Type} (directory : Directory R) (identityKey : String)

def Shared.record (s : Shared R) : Option AuthFnIdentityPlacement := s.raw.bind directory.parse

/-- The record that a compare-and-set replaces. -/
def expects (swap : Swap) (record : Option AuthFnIdentityPlacement) : Bool :=
  record.any fun existing =>
    existing.epoch = swap.expectedEpoch ∧ existing.state = swap.expectedState

def admissible (placement : AuthFnIdentityPlacement) : Bool :=
  validatePlacement placement && placement.identityKey = identityKey

def Shared.store (s : Shared R) (placement : AuthFnIdentityPlacement) : Shared R :=
  { s with raw := some (directory.serialize placement) }

def swapped (purpose : Purpose) (swap : Swap) : Phase R :=
  match purpose with
  | .fenceSource => .migrating swap.placement 0
  | .activateTarget => .returned (some swap.placement)
  | .rollBack => .threw
  | .settle => .returned (some swap.placement)

/-- The first call of a compare-and-set: the only one in memory, the read of a store. -/
def compareAndSet (s : Shared R) (choice : Choice) (purpose : Purpose) (swap : Swap) :
    Shared R × Phase R :=
  if choice.fails || !admissible identityKey swap.placement then (s, .threw)
  else
    match s.raw with
    | none => (s, .threw)
    | some existingRaw =>
      if expects swap (directory.parse existingRaw) then
        if directory.storeBacked then (s, .replacing purpose swap existingRaw)
        else (s.store directory swap.placement, swapped purpose swap)
      else (s, .threw)

/-- The second call of a compare-and-set on a store. -/
def replace [DecidableEq R] (s : Shared R) (choice : Choice) (purpose : Purpose) (swap : Swap)
    (existingRaw : R) : Shared R × Phase R :=
  if choice.fails then (s, .threw)
  else if s.raw = some existingRaw then (s.store directory swap.placement, swapped purpose swap)
  else (s, .threw)

end Directory

section Operations

variable {R : Type}

def settle (current : AuthFnIdentityPlacement) (state : AuthFnIdentityPlacementState)
    (updatedAt : String) : Phase R :=
  .swapping .settle
    { expectedEpoch := current.epoch
      expectedState := current.state
      placement := { current with
        epoch := current.epoch + 1
        state := state
        movingToRegionId := none
        updatedAt := updatedAt } }

def moveAuthFnIdentityPlacement (current : Option AuthFnIdentityPlacement)
    (sourceRegionId targetRegionId updatedAt : String) : Phase R :=
  match current with
  | none => .threw
  | some current =>
    if current.state = .active ∧ current.regionId = sourceRegionId then
      .swapping .fenceSource
        { expectedEpoch := current.epoch
          expectedState := .active
          placement := { current with
            epoch := current.epoch + 1
            state := .moving
            movingToRegionId := some targetRegionId
            previousRegionId := some sourceRegionId
            updatedAt := updatedAt } }
    else .threw

def tombstoneAuthFnIdentityPlacement (current : Option AuthFnIdentityPlacement)
    (updatedAt : String) : Phase R :=
  match current with
  | none => .returned none
  | some current =>
    if current.state = .tombstoned then .returned (some current)
    else settle current .tombstoned updatedAt

def fenceAuthFnIdentityDeletion (current : Option AuthFnIdentityPlacement)
    (updatedAt : String) : Phase R :=
  match current with
  | none => .threw
  | some current =>
    if current.state = .active then settle current .deleting updatedAt else .threw

/-- The fence that the caller has set is not the one in force any more. -/
def fenceChanged (current : Option AuthFnIdentityPlacement) (expectedFenceEpoch : Option Nat) :
    Bool :=
  expectedFenceEpoch.any fun epoch =>
    !current.any fun c => c.state = .deleting ∧ c.epoch = epoch

/-- Leaving the deletion fence, to the tombstone or back to the active state. -/
def leaveFence (current : Option AuthFnIdentityPlacement) (expectedFenceEpoch : Option Nat)
    (state : AuthFnIdentityPlacementState) (updatedAt : String) : Phase R :=
  if fenceChanged current expectedFenceEpoch then .threw
  else
    match current with
    | none => .threw
    | some current =>
      if current.state = state then .returned (some current)
      else if current.state = .deleting then settle current state updatedAt
      else .threw

def finalizeAuthFnIdentityDeletion (current : Option AuthFnIdentityPlacement)
    (updatedAt : String) (expectedFenceEpoch : Option Nat) : Phase R :=
  leaveFence current expectedFenceEpoch .tombstoned updatedAt

def restoreAuthFnIdentityDeletion (current : Option AuthFnIdentityPlacement)
    (updatedAt : String) (expectedFenceEpoch : Option Nat) : Phase R :=
  leaveFence current expectedFenceEpoch .active updatedAt

/-- The record that ends a move, in the target or back in the source. -/
def afterMove (identityKey : String) (moving : AuthFnIdentityPlacement)
    (regionId previousRegionId updatedAt : String) : Swap where
  expectedEpoch := moving.epoch
  expectedState := .moving
  placement :=
    { identityKey := identityKey
      regionId := regionId
      epoch := moving.epoch + 1
      state := .active
      movingToRegionId := none
      previousRegionId := some previousRegionId
      updatedAt := updatedAt }

/-- The callbacks of a move, in turn: five before the target resumes, and that of the target. -/
def migrate (identityKey : String) (choice : Choice)
    (sourceRegionId targetRegionId : String) (resumesSource : Bool)
    (moving : AuthFnIdentityPlacement) (callbacks : Nat) : Phase R :=
  if callbacks < 5 then
    if choice.fails then if resumesSource then .resumingSource moving else .threw
    else .migrating moving (callbacks + 1)
  else if choice.fails then .threw
  else .swapping .activateTarget
    (afterMove identityKey moving targetRegionId sourceRegionId choice.updatedAt)

end Operations

section Gateway

variable {R : Type} (directory : Directory R) (identityKey : String) (placementCacheTtlMs : Int)

/-- A request goes on to the cell of an active placement, if the gateway can resolve it. -/
def forward (choice : Choice) (attempt : Nat) (placement : AuthFnIdentityPlacement) : Phase R :=
  if placement.state = .active ∧ choice.regionId = placement.regionId then
    .dispatched attempt placement.regionId placement.epoch
  else .answered

def Shared.cachePlacement (s : Shared R) (gateway : Nat) (clock : Int)
    (placement : AuthFnIdentityPlacement) : Shared R :=
  { s with caches := s.caches.set gateway (some ⟨placement, clock + placementCacheTtlMs⟩) }

def Shared.forget (s : Shared R) (gateway : Nat) : Shared R :=
  { s with caches := s.caches.set gateway none }

/-- `resolveOrClaimPlacement` up to the claim: the copy of the gateway, or the directory. -/
def loadPlacement (s : Shared R) (choice : Choice) (gateway attempt : Nat)
    (bypassCache allowInitialPlacement : Bool) : Shared R × Phase R :=
  let cached := (s.caches[gateway]?).join.filter fun c =>
    !bypassCache && choice.clock < c.expiresAt
  match cached with
  | some c => (s, forward choice attempt c.placement)
  | none =>
    if choice.fails then (s, .answered)
    else
      match s.record directory with
      | some placement =>
        (s.cachePlacement placementCacheTtlMs gateway choice.clock placement,
          forward choice attempt placement)
      | none =>
        (s.forget gateway, if allowInitialPlacement then .claiming attempt else .answered)

/-- The claim of an identity that no one has placed yet. -/
def claimPlacement (s : Shared R) (choice : Choice) (gateway attempt : Nat) : Shared R × Phase R :=
  let claimed : AuthFnIdentityPlacement :=
    ⟨identityKey, choice.regionId, 1, .active, none, none, choice.updatedAt⟩
  if choice.fails || !validatePlacement claimed then (s, .answered)
  else
    match s.raw with
    | none =>
      ((s.store directory claimed).cachePlacement placementCacheTtlMs gateway choice.clock claimed,
        forward choice attempt claimed)
    | some existing =>
      match directory.parse existing with
      | none => (s, .answered)
      | some placement =>
        (s.cachePlacement placementCacheTtlMs gateway choice.clock placement,
          forward choice attempt placement)

/-- The check of the cell middleware, by the record it reads; `cellRegionId` is the cell's own. -/
def cellAdmits (record : Option AuthFnIdentityPlacement) (cellRegionId regionId : String)
    (epoch attempt : Nat) : Phase R :=
  match record with
  | none => .answered
  | some placement =>
    if placement.state ≠ .active then .answered
    else if placement.regionId ≠ cellRegionId ∨ regionId ≠ cellRegionId ∨
        epoch ≠ placement.epoch then .mismatched attempt
    else .admitted regionId epoch

end Gateway

section System

variable {R : Type} [DecidableEq R] (directory : Directory R) (identityKey : String)
  (placementCacheTtlMs : Int)

/-- The first call of an operation. -/
def enter (s : Shared R) (choice : Choice) (operation : Operation) : Phase R :=
  match operation with
  | .request _ _ => .loading 0 false
  | .assertion regionId epoch => .dispatched 1 regionId epoch
  | .move source target _ =>
    if choice.fails then .threw
    else moveAuthFnIdentityPlacement (s.record directory) source target choice.updatedAt
  | .tombstone =>
    if choice.fails then .threw
    else tombstoneAuthFnIdentityPlacement (s.record directory) choice.updatedAt
  | .fence =>
    if choice.fails then .threw
    else fenceAuthFnIdentityDeletion (s.record directory) choice.updatedAt
  | .finalize expected =>
    if choice.fails then .threw
    else finalizeAuthFnIdentityDeletion (s.record directory) choice.updatedAt expected
  | .restore expected =>
    if choice.fails then .threw
    else restoreAuthFnIdentityDeletion (s.record directory) choice.updatedAt expected

/-- The callbacks of a move and its way back; other operations have none. -/
def moveOn (choice : Choice) (operation : Operation) (phase : Phase R) : Option (Phase R) :=
  match operation, phase with
  | .move source target resumes, .migrating moving callbacks =>
    some (migrate identityKey choice source target resumes moving callbacks)
  | .move source target _, .resumingSource moving =>
    some (if choice.fails then .threw
      else .swapping .rollBack (afterMove identityKey moving source target choice.updatedAt))
  | _, _ => none

/-- The steps of a request at its gateway. -/
def requestOn (s : Shared R) (choice : Choice) (operation : Operation) (phase : Phase R) :
    Option (Shared R × Phase R) :=
  match operation, phase with
  | .request gateway allow, .loading attempt bypass =>
    some (loadPlacement directory placementCacheTtlMs s choice gateway attempt bypass allow)
  | .request gateway _, .claiming attempt =>
    some (claimPlacement directory identityKey placementCacheTtlMs s choice gateway attempt)
  | .request gateway _, .mismatched attempt =>
    if attempt = 0 ∧ choice.accepts then some (s.forget gateway, .loading 1 true)
    else some (s, .answered)
  | _, _ => none

def advance (s : Shared R) (choice : Choice) (operation : Operation) (phase : Phase R) :
    Option (Shared R × Phase R) :=
  match phase with
  | .entered => some (s, enter directory s choice operation)
  | .swapping purpose swap => some (compareAndSet directory identityKey s choice purpose swap)
  | .replacing purpose swap existingRaw => some (replace directory s choice purpose swap existingRaw)
  | .dispatched attempt regionId epoch =>
    if choice.fails then some (s, .answered)
    else some (s, cellAdmits (s.record directory) choice.regionId regionId epoch attempt)
  | phase =>
    match moveOn identityKey choice operation phase with
    | some next => some (s, next)
    | none => requestOn directory identityKey placementCacheTtlMs s choice operation phase

def step (s : Shared R) (_ : Nat) (call : Call R) (choice : Choice) : Option (Shared R × Call R) :=
  (advance directory identityKey placementCacheTtlMs s choice call.operation call.phase).map
    fun r => (r.1, { call with phase := r.2 })

abbrev Deployment (R : Type) := System (Shared R) (Call R)

def newCall (operation : Operation) : Call R := ⟨operation, .entered⟩

def deploymentStep : Deployment R → Act Operation Choice → Option (Deployment R) :=
  act newCall (step directory identityKey placementCacheTtlMs)

end System

end SuperFunctions.Authfn.Placement
