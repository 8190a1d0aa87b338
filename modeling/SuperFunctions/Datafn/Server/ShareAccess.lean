import SuperFunctions.Lib.OrderedMap
import SuperFunctions.Datafn.Server.Principals

/-!
# Access to private shareable records

The two ways in which the server decides whether an actor sees a record of a private shareable
resource: the ids that the query route puts into the filter of a list, and the level that an
access to one record is checked against. A lookup that throws has no result.
-/
namespace SuperFunctions.Datafn.Server.ShareAccess

open Lib.OrderedMap Datafn.Core Principals

inductive ReadMode where
  | v1
  | dual
  | v2
  deriving DecidableEq

inductive ShareAccessLevel where
  | viewer
  | editor
  | owner

/-- A row of the global permissions table. -/
structure PermissionRow where
  resourceType : String
  resourceNs : String
  principalId : String
  resourceId : Option Value
  grantKind : Option Value
  level : Option Value
  revokedAt : Option Value

/-- A row of the resource's legacy permissions table. -/
structure LegacyRow where
  userId : Option Value
  resourceId : Option Value
  level : Option Value
  revokedAt : Option Value

/-- The tables of a namespace, for one resource: `createdBy` of each record by its id, and the
rows that decide access. The legacy table may be missing. -/
structure AccessTables where
  records : OMap String (Option Value)
  principals : PrincipalTables
  permissions : List PermissionRow
  legacy : Option (List LegacyRow)

/-! ## Levels -/

/-- `normalizeShareLevel` -/
def normalizeLevel (level : Option Value) : Option ShareAccessLevel :=
  if level = some (.str "viewer") then some .viewer
  else if level = some (.str "editor") then some .editor
  else if level = some (.str "owner") then some .owner
  else none

def weight : ShareAccessLevel → Nat
  | .viewer => 1
  | .editor => 2
  | .owner => 3

def selectHigherLevel (left right : Option ShareAccessLevel) : Option ShareAccessLevel :=
  match left, right with
  | none, right => right
  | left, none => left
  | some l, some r => if weight l < weight r then some r else some l

/-! ## The list -/

structure ShareableAccess where
  shareableAccessIds : List String
  hasShareableScopeAccess : Bool

/-- The rows of one principal. -/
def grantsOf (t : AccessTables) (resource ns principalId : String) : List PermissionRow :=
  t.permissions.filter fun row =>
    row.resourceType = resource ∧ row.resourceNs = ns ∧ row.principalId = principalId

/-- `grant.resourceId === null || grant.grantKind === "scope"` -/
def isScopeRow (row : PermissionRow) : Bool :=
  row.resourceId = some .null ∨ row.grantKind = some (.str "scope")

def textOf (value : Option Value) : Option String :=
  match value with
  | some (.str s) => some s
  | _ => none

def ownedIds (t : AccessTables) (actorId : String) : List String :=
  (t.records.entries.filter fun e => e.2 = some (.str actorId)).map Prod.fst

/-- The legacy ids; a missing table has none. -/
def legacyIds (t : AccessTables) (actorId : String) : List String :=
  [actorId, canonicalizePrincipalFromUserId actorId].eraseDups.flatMap fun legacySubject =>
    ((t.legacy.getD []).filter fun row => row.userId = some (.str legacySubject)).filterMap
      fun row => textOf row.resourceId

def grantedIds (t : AccessTables) (resource ns : String) (principals : List String) : List String :=
  principals.flatMap fun principalId =>
    ((grantsOf t resource ns principalId).filter fun row =>
      isGrantActive row.revokedAt && !isScopeRow row).filterMap fun row => textOf row.resourceId

def hasScopeGrant (t : AccessTables) (resource ns : String) (principals : List String) : Bool :=
  principals.any fun principalId =>
    (grantsOf t resource ns principalId).any fun row =>
      isGrantActive row.revokedAt && isScopeRow row

def resolveShareableAccessIds (rt : Runtime) (cache : ResolverCache) (mode : ReadMode)
    (t : AccessTables) (resource ns : String) (actorId : Option String) : Option ShareableAccess :=
  match actorId.filter (· ≠ "") with
  | none => some ⟨[], false⟩
  | some actorId =>
    let ids := ownedIds t actorId ++ (if mode = .v2 then [] else legacyIds t actorId)
    if mode = .v1 then some ⟨uniqueSorted rt ids, false⟩
    else
      (resolveEffectivePrincipals rt cache t.principals actorId).map fun principals =>
        ⟨uniqueSorted rt (ids ++ grantedIds t resource ns principals),
          hasScopeGrant t resource ns principals⟩

/-- The auto filter of a private shareable resource on a record's id. -/
def passesAutoFilter (access : ShareableAccess) (recordId : String) : Bool :=
  access.hasShareableScopeAccess ||
    if access.shareableAccessIds = [] then recordId = "__datafn_no_access__"
    else recordId ∈ access.shareableAccessIds

/-! ## One record -/

inductive AccessGrantKind where
  | record
  | scope
  | relationInherited

structure AccessGrant where
  principalId : String
  level : ShareAccessLevel
  grantKind : AccessGrantKind
  resourceId : Option String

/-- The grant of a row; revoked rows and unknown levels have none. -/
def toAccessGrant (row : PermissionRow) : Option AccessGrant :=
  if isGrantActive row.revokedAt then
    (normalizeLevel row.level).map fun level =>
      { principalId := row.principalId
        level := level
        grantKind :=
          if isScopeRow row then .scope
          else if row.grantKind = some (.str "relation_inherited") then .relationInherited
          else .record
        resourceId := textOf row.resourceId }
  else none

/-- Whether a grant is one on the record. -/
def grantMatches (effectivePrincipals : List String) (recordId : String) (grant : AccessGrant) :
    Bool :=
  match normalizePrincipal grant.principalId with
  | none => false
  | some principalId =>
    decide (principalId ∈ effectivePrincipals.filterMap normalizePrincipal) &&
      match grant.grantKind with
      | .scope => grant.resourceId = none
      | _ => grant.resourceId = some recordId

def resolveEffectiveLevel (effectivePrincipals : List String) (recordId : String)
    (grants : List AccessGrant) : Option ShareAccessLevel :=
  (grants.filter (grantMatches effectivePrincipals recordId)).foldl
    (fun level grant => selectHigherLevel level (some grant.level)) none

/-- The first absence is that of a lookup that throws, the second that of access. -/
def resolveAccessLevelFromV2 (rt : Runtime) (t : AccessTables) (resource ns recordId actorId : String) :
    Option (Option ShareAccessLevel) :=
  (resolveEffectivePrincipals rt emptyCache t.principals actorId).map fun principals =>
    resolveEffectiveLevel principals recordId
      (principals.flatMap fun principalId =>
        (grantsOf t resource ns principalId).filterMap toAccessGrant)

/-- `row.resourceId` as the legacy reader takes it: anything but a text is the whole scope. -/
def legacyResourceId (row : LegacyRow) : Option String := normalizeNonEmptyString row.resourceId

/-- The level a legacy row gives the actor on the record. -/
def legacyLevel (actorId recordId : String) (row : LegacyRow) : Option ShareAccessLevel :=
  if isGrantActive row.revokedAt then
    match normalizeNonEmptyString row.userId with
    | none => none
    | some userId =>
      if userId = actorId ∨ userId = canonicalizePrincipalFromUserId actorId then
        if legacyResourceId row = none ∨ legacyResourceId row = some recordId then
          normalizeLevel row.level
        else none
      else none
  else none

def resolveAccessLevelFromLegacyV1 (t : AccessTables) (recordId actorId : String) :
    Option ShareAccessLevel :=
  (t.legacy.getD []).foldl (fun level row => selectHigherLevel level (legacyLevel actorId recordId row))
    none

/-- `createdBy` names the actor, as it stands or made canonical. -/
def isCreator (createdBy : Option Value) (actorId : String) : Bool :=
  match normalizeNonEmptyString createdBy with
  | none => false
  | some creator =>
    creator = actorId ∨ canonicalizePrincipalFromUserId creator = canonicalizeActorPrincipal actorId

/-- The namespace's own principal. -/
def isNamespaceOwner (ns actorId : String) : Bool :=
  normalizePrincipal ns = some (canonicalizeActorPrincipal actorId)

def resolveAccessLevel (rt : Runtime) (mode : ReadMode) (t : AccessTables)
    (resource ns recordId : String) (actorId : Option String) : Option (Option ShareAccessLevel) :=
  match actorId.filter (· ≠ "") with
  | none => some none
  | some actorId =>
    match t.records.get recordId with
    | none => some none
    | some createdBy =>
      if isNamespaceOwner ns actorId then some (some .owner)
      else if isCreator createdBy actorId then some (some .owner)
      else
        match mode with
        | .v1 => some (resolveAccessLevelFromLegacyV1 t recordId actorId)
        | .v2 => resolveAccessLevelFromV2 rt t resource ns recordId actorId
        | .dual =>
          (resolveAccessLevelFromV2 rt t resource ns recordId actorId).map fun v2Level =>
            selectHigherLevel (resolveAccessLevelFromLegacyV1 t recordId actorId) v2Level

end SuperFunctions.Datafn.Server.ShareAccess
