import SuperFunctions.Datafn.Server.Principals
import SuperFunctions.Lib.Questions
import SuperFunctions.Lib.OrderedMap

/-!
# Cached resolution of principals

The tables of principals, the cache of one handler and the calls under way. A call reads the
tables and the cache in steps of its own, between which tables change, the cache is invalidated
and other calls go on.
-/
namespace SuperFunctions.Datafn.Server.AuthCache

open Lib.Questions Lib.OrderedMap Datafn.Core Principals

/-! ## The resolution -/

structure ExecutionError where
  code : String
  message : String
  path : String
  details : Option (Nat × String)
  deriving DecidableEq

def maxDepthInvalid : ExecutionError :=
  ⟨"DFQL_INVALID", "maxDepth must be a positive integer", "maxDepth", none⟩

def maxDepthExceeded (maxDepth : Nat) (principalId : String) : ExecutionError :=
  ⟨"DFQL_INVALID", "Principal hierarchy maxDepth exceeded", "__datafn_principal_hierarchy",
    some (maxDepth, principalId)⟩

def cycleDetected : ExecutionError :=
  ⟨"DFQL_INVALID", "Principal hierarchy cycle detected", "__datafn_principal_hierarchy", none⟩

/-- A resolution asks for the parents of one principal after the other. -/
abbrev Resolution (α : Type) := Interaction String (List String) (Except ExecutionError α)

def andThen {α β : Type} (c : Resolution α) (f : α → Resolution β) : Resolution β :=
  c.bind fun
    | .ok a => f a
    | .error e => .done (.error e)

/-- The loop of `walk` over the parents of a principal. -/
def walkParents (walkOne : Walk → String → Resolution Walk) (expanding : List String) :
    Walk → List String → Resolution Walk
  | w, [] => .done (.ok w)
  | w, parent :: rest =>
    if parent ∈ expanding then .done (.error cycleDetected)
    else
      andThen (walkOne { w with effective := addPrincipal w.effective parent } parent) fun w =>
        walkParents walkOne expanding w rest

/-- `walk`; the second number is how many levels may still be entered. -/
def walk (maxDepth : Nat) : Nat → List String → Walk → String → Resolution Walk
  | 0, _, _, principalId => .done (.error (maxDepthExceeded maxDepth principalId))
  | levels + 1, expanding, w, principalId =>
    if principalId ∈ w.expanded then .done (.ok w)
    else if principalId ∈ expanding then .done (.error cycleDetected)
    else
      .ask principalId fun parents =>
        andThen (walkParents (walk maxDepth levels (principalId :: expanding))
          (principalId :: expanding) w parents) fun w =>
            .done (.ok { w with expanded := principalId :: w.expanded })

def walkAll (maxDepth : Nat) : Walk → List String → Resolution Walk
  | w, [] => .done (.ok w)
  | w, principalId :: rest =>
    andThen (walk maxDepth maxDepth [] w principalId) fun w => walkAll maxDepth w rest

/-- `resolveEffectivePrincipals` from the direct memberships on. -/
def expand (rt : Runtime) (actorId : String) (maxDepth : Nat) (memberships : List String) :
    Resolution (List String) :=
  let direct := uniqueSorted rt memberships
  andThen (walkAll maxDepth ⟨direct, []⟩ direct) fun w =>
    .done (.ok (addPrincipal w.effective (canonicalizeActorPrincipal actorId)))

/-- What the tables say about the parents of a principal. -/
def parentsOf (rt : Runtime) (t : PrincipalTables) (principalId : String) : List String :=
  loadParents rt emptyCache t principalId

/-- `resolveEffectivePrincipals` without a cache. -/
def resolveUncached (rt : Runtime) (t : PrincipalTables) (actorId : String) (maxDepth : Nat) :
    Except ExecutionError (List String) :=
  if maxDepth < 1 then .error maxDepthInvalid
  else (expand rt actorId maxDepth (getDirectMemberships t actorId)).run (parentsOf rt t)

/-! ## The cache -/

structure CachedPrincipalResolution where
  maxDepth : Nat
  hierarchyRevision : Nat
  membershipRevision : Nat
  actorMembershipRevision : Nat
  principals : List String

structure NamespaceCacheState where
  hierarchyRevision : Nat
  membershipRevision : Nat
  actorMembershipRevision : OMap String Nat
  parentsByPrincipal : OMap String (List String)
  resolvedByActor : OMap String CachedPrincipalResolution

def createNamespaceState : NamespaceCacheState := ⟨0, 0, OMap.empty, OMap.empty, OMap.empty⟩

abbrev AuthResolverCache := OMap String NamespaceCacheState

namespace AuthResolverCache

def getState (cache : AuthResolverCache) (ns : String) : NamespaceCacheState :=
  (cache.get ns).getD createNamespaceState

def getHierarchyParents (cache : AuthResolverCache) (ns principalId : String) :
    Option (List String) := (getState cache ns).parentsByPrincipal.get principalId

def setHierarchyParents (cache : AuthResolverCache) (ns principalId : String)
    (parents : List String) : AuthResolverCache :=
  let state := getState cache ns
  cache.set ns { state with
    parentsByPrincipal := state.parentsByPrincipal.set principalId parents }

def getResolvedPrincipals (cache : AuthResolverCache) (ns actorId : String) (maxDepth : Nat) :
    Option (List String) :=
  let state := getState cache ns
  match state.resolvedByActor.get actorId with
  | none => none
  | some cached =>
    if cached.maxDepth = maxDepth ∧ cached.hierarchyRevision = state.hierarchyRevision ∧
        cached.membershipRevision = state.membershipRevision ∧
        cached.actorMembershipRevision = (state.actorMembershipRevision.get actorId).getD 0 then
      some cached.principals
    else none

/-- The entry is stamped with the revisions of the moment it is written. -/
def setResolvedPrincipals (cache : AuthResolverCache) (ns actorId : String) (maxDepth : Nat)
    (principals : List String) : AuthResolverCache :=
  let state := getState cache ns
  cache.set ns { state with
    resolvedByActor := state.resolvedByActor.set actorId
      ⟨maxDepth, state.hierarchyRevision, state.membershipRevision,
        (state.actorMembershipRevision.get actorId).getD 0, principals⟩ }

def invalidateHierarchy (cache : AuthResolverCache) (ns : String) : AuthResolverCache :=
  let state := getState cache ns
  cache.set ns { state with
    hierarchyRevision := state.hierarchyRevision + 1
    parentsByPrincipal := OMap.empty
    resolvedByActor := OMap.empty }

/-- The empty actor id counts as none. -/
def invalidateMembership (cache : AuthResolverCache) (ns : String) (actorId : Option String) :
    AuthResolverCache :=
  let state := getState cache ns
  match actorId.filter (· ≠ "") with
  | some actorId =>
    cache.set ns { state with
      actorMembershipRevision := state.actorMembershipRevision.set actorId
        ((state.actorMembershipRevision.get actorId).getD 0 + 1)
      resolvedByActor := state.resolvedByActor.delete actorId }
  | none =>
    cache.set ns { state with
      membershipRevision := state.membershipRevision + 1
      actorMembershipRevision := OMap.empty
      resolvedByActor := OMap.empty }

end AuthResolverCache

/-! ## Calls and changes -/

/-- `onHierarchyMutation` and `onMembershipMutation`. -/
inductive Invalidation where
  | hierarchy
  | membership (actorId : Option String)
  deriving DecidableEq

/-- A change of the hierarchy, of the memberships, or of those of one actor. -/
inductive Change where
  | hierarchy (rows : List HierarchyRow)
  | memberships (rows : List MembershipRow)
  | membershipsOf (actorId : String) (rows : List MembershipRow)

def Change.invalidation : Change → Invalidation
  | hierarchy _ => .hierarchy
  | memberships _ => .membership none
  | membershipsOf actorId _ => .membership (some actorId)

def Change.apply (t : PrincipalTables) : Change → PrincipalTables
  | hierarchy rows => { t with hierarchy := rows }
  | memberships rows => { t with memberships := rows }
  | membershipsOf actorId rows =>
    { t with memberships := t.memberships.filter (fun row => row.actorId ≠ actorId) ++
        rows.filter fun row => row.actorId = actorId }

/-- Where a call waits. -/
inductive Phase where
  | memberships
  | walking (rest : Resolution (List String))
  | asked (principalId : String) (next : List String → Resolution (List String))
  | answered (principalId : String) (parents : List String)
      (next : List String → Resolution (List String))
  | finished (outcome : Except ExecutionError (List String))

def Phase.outcome : Phase → Option (Except ExecutionError (List String))
  | finished outcome => some outcome
  | _ => none

structure Call where
  ns : String
  actorId : String
  maxDepth : Nat
  phase : Phase

structure System where
  tables : OMap String PrincipalTables
  cache : AuthResolverCache
  /-- The invalidations that committed changes still have to do. -/
  pending : List (String × Invalidation)
  calls : OMap Nat Call

inductive Action where
  | commit (ns : String) (change : Change)
  | invalidate (ns : String) (kind : Invalidation)
  | start (id : Nat) (ns actorId : String) (maxDepth : Nat)
  | read (id : Nat)
  | resume (id : Nat)

namespace System

def tablesOf (s : System) (ns : String) : PrincipalTables := (s.tables.get ns).getD ⟨[], []⟩

def outcomeOf (s : System) (id : Nat) : Option (Except ExecutionError (List String)) :=
  (s.calls.get id).bind fun call => call.phase.outcome

def setPhase (s : System) (id : Nat) (call : Call) (phase : Phase) : System :=
  { s with calls := s.calls.set id { call with phase := phase } }

end System

def applyInvalidation (cache : AuthResolverCache) (ns : String) : Invalidation → AuthResolverCache
  | .hierarchy => cache.invalidateHierarchy ns
  | .membership actorId => cache.invalidateMembership ns actorId

/-- The start of a call, up to its first read. -/
def startPhase (cache : AuthResolverCache) (ns actorId : String) (maxDepth : Nat) : Phase :=
  if maxDepth < 1 then .finished (.error maxDepthInvalid)
  else
    match cache.getResolvedPrincipals ns actorId maxDepth with
    | some principals => .finished (.ok principals)
    | none => .memberships

/-- The read that a call waits for. -/
def readPhase (rt : Runtime) (t : PrincipalTables) (call : Call) : Option Phase :=
  match call.phase with
  | .memberships =>
    some (.walking (expand rt call.actorId call.maxDepth (getDirectMemberships t call.actorId)))
  | .asked principalId next => some (.answered principalId (parentsOf rt t principalId) next)
  | _ => none

/-- A call goes on to its next read or to its end. What it read goes into the cache. -/
def resumePhase (cache : AuthResolverCache) (call : Call) : Option (AuthResolverCache × Phase) :=
  match call.phase with
  | .walking (.ask principalId next) =>
    match cache.getHierarchyParents call.ns principalId with
    | some parents => some (cache, .walking (next parents))
    | none => some (cache, .asked principalId next)
  | .walking (.done (.ok principals)) =>
    some (cache.setResolvedPrincipals call.ns call.actorId call.maxDepth principals,
      .finished (.ok principals))
  | .walking (.done (.error e)) => some (cache, .finished (.error e))
  | .answered principalId parents next =>
    some (cache.setHierarchyParents call.ns principalId parents, .walking (next parents))
  | _ => none

def step (rt : Runtime) (s : System) : Action → Option System
  | .commit ns change =>
    some { s with
      tables := s.tables.set ns (change.apply (s.tablesOf ns))
      pending := s.pending ++ [(ns, change.invalidation)] }
  | .invalidate ns kind =>
    some { s with
      cache := applyInvalidation s.cache ns kind
      pending := s.pending.erase (ns, kind) }
  | .start id ns actorId maxDepth =>
    match s.calls.get id with
    | some _ => none
    | none =>
      some (s.setPhase id ⟨ns, actorId, maxDepth, .memberships⟩
        (startPhase s.cache ns actorId maxDepth))
  | .read id => do
    let call ← s.calls.get id
    let phase ← readPhase rt (s.tablesOf call.ns) call
    some (s.setPhase id call phase)
  | .resume id => do
    let call ← s.calls.get id
    let (cache, phase) ← resumePhase s.cache call
    some { s.setPhase id call phase with cache := cache }

/-- A handler that has just been made. -/
def begin (tables : OMap String PrincipalTables) : System := ⟨tables, OMap.empty, [], OMap.empty⟩

/-! ## What is meant -/

/-- The invalidation is about the principals of the actor. -/
def Invalidation.Concerns (actorId : String) : Invalidation → Prop
  | hierarchy => True
  | membership none => True
  | membership (some actor) => actor = actorId ∨ actor = ""

instance (actorId : String) (kind : Invalidation) : Decidable (kind.Concerns actorId) := by
  unfold Invalidation.Concerns
  split <;> infer_instance

/-- Every change of the hierarchy has been invalidated. -/
def HierarchySettled (s : System) (ns : String) : Prop := (ns, Invalidation.hierarchy) ∉ s.pending

/-- Every change that concerns the actor has been invalidated. -/
def Settled (s : System) (ns actorId : String) : Prop :=
  ∀ kind, (ns, kind) ∈ s.pending → ¬ kind.Concerns actorId

instance (s : System) (ns actorId : String) : Decidable (Settled s ns actorId) :=
  decidable_of_iff (∀ e ∈ s.pending, e.1 = ns → ¬ e.2.Concerns actorId)
    ⟨fun h kind hkind => h (ns, kind) hkind rfl, fun h e he hns => h e.2 (by rw [← hns]; exact he)⟩

/-- Nothing that is out of date is taken from the cache. -/
structure NeverStale (rt : Runtime) (s : System) : Prop where
  parents : ∀ ns principalId parents, HierarchySettled s ns →
    s.cache.getHierarchyParents ns principalId = some parents →
    parents = parentsOf rt (s.tablesOf ns) principalId
  principals : ∀ ns actorId maxDepth principals, Settled s ns actorId →
    s.cache.getResolvedPrincipals ns actorId maxDepth = some principals →
    resolveUncached rt (s.tablesOf ns) actorId maxDepth = .ok principals

/-- An uncached resolution each of whose reads finds some of the given tables. -/
def ResolvesOn (rt : Runtime) (tables : List PrincipalTables) (actorId : String) (maxDepth : Nat)
    (outcome : Except ExecutionError (List String)) : Prop :=
  if maxDepth < 1 then outcome = .error maxDepthInvalid
  else
    ∃ t ∈ tables, Interaction.Yields
      (fun principalId parents => ∃ t ∈ tables, parents = parentsOf rt t principalId)
      (expand rt actorId maxDepth (getDirectMemberships t actorId)) outcome

/-- The tables of a namespace in the states of a run. -/
def visited (rt : Runtime) (ns : String) : System → List Action → List PrincipalTables
  | s, [] => [s.tablesOf ns]
  | s, action :: rest =>
    s.tablesOf ns :: match step rt s action with
      | some s' => visited rt ns s' rest
      | none => []

end SuperFunctions.Datafn.Server.AuthCache
