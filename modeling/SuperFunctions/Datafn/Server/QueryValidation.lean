import SuperFunctions.Datafn.Core.Filters

/-!
# Validation of a query's filters

The names a schema gives to a resource's fields and relations, and the walk of the validator over
the filters of a query. Absent filters and filters that are no object are not looked at.
-/
namespace SuperFunctions.Datafn.Server.QueryValidation

open Datafn.Core Core.Capabilities Core.Endpoints Core.Filters

/-! ## The schema -/

structure ServerRelation extends RelationSchema where
  inheritsInactive : Bool

/-- The name of a resource, its capabilities and the names of its fields. -/
structure ResourceSchema where
  name : String
  capabilities : Option ResourceCapabilities
  fields : List String

structure ServerSchema where
  capabilities : List CapabilityEntry
  resources : List ResourceSchema
  relations : List ServerRelation

def isEmptyName (name : Option String) : Bool := name = none ∨ name = some ""

/-- The foreign keys that the many-one relations of a resource add to its fields. -/
def fkFields (schema : ServerSchema) (resource : String) : List String :=
  (schema.relations.filter fun rel => rel.type = .manyOne ∧ resource ∈ rel.fromResources).map
    fun rel => orText rel.fkField (orText rel.foreignKey (rel.relation.getD "undefined" ++ "Id"))

/-- Of two resources under one name the index keeps the fields of the last. -/
def fieldsByResource (schema : ServerSchema) (resource : String) : Option (List String) :=
  (schema.resources.reverse.find? fun r => r.name = resource).map fun r =>
    "id" :: getCapabilityFields (resolveCapabilities schema.capabilities r.capabilities) ++
      r.fields ++ fkFields schema resource

/-- `relationsByResource.get(resource)?.has(key)` -/
def hasRelation (schema : ServerSchema) (resource key : String) : Bool :=
  key ≠ "" ∧ schema.relations.any fun rel =>
    relationMatchesForward rel.toRelationSchema resource key ||
      relationMatchesInverse rel.toRelationSchema resource key

/-- `getRelationTarget`, where an empty name counts as none. -/
def getRelationTarget (schema : ServerSchema) (resource relationName : String) : Option String :=
  (schema.relations.findSome? fun rel =>
    if relationMatchesForward rel.toRelationSchema resource relationName then
      some rel.toResources.head?
    else if relationMatchesInverse rel.toRelationSchema resource relationName then
      some rel.fromResources.head?
    else none).join.filter (· ≠ "")

/-! ## Errors -/

inductive ErrorCode where
  | dfqlInvalid
  | dfqlUnknownResource
  | dfqlUnknownField
  | dfqlUnknownRelation
  | dfqlUnsupported
  | limitExceeded

structure ValidationError where
  code : ErrorCode
  message : String
  path : String

abbrev Validation := Except ValidationError Unit

def vErr (code : ErrorCode) (message path : String) : Validation := .error ⟨code, message, path⟩

/-! ## Operators -/

def validOps : List String :=
  ["eq", "$eq", "ne", "$ne", "gt", "$gt", "gte", "$gte", "lt", "$lt", "lte", "$lte",
    "like", "$like", "ilike", "$ilike", "in", "$in", "not_in", "$nin", "not_like", "not_ilike",
    "between", "not_between", "is_null", "$is_null", "is_not_null", "$is_not_null",
    "is_empty", "$is_empty", "is_not_empty", "$is_not_empty", "before", "after",
    "$any", "$all", "$none"]

def nullOps : List String := ["is_null", "$is_null", "is_not_null", "$is_not_null"]

def likeOps : List String := ["$like", "$ilike", "like", "ilike"]

def relationOps : List String := ["$any", "$all", "$none"]

structure QueryValidationLimits where
  maxLikePatternLength : Option Nat
  maxFilterKeysPerLevel : Option Nat

/-- `value.length` of a text, in UTF-16 units. -/
def textLength (s : String) : Nat :=
  (s.toList.map fun c => if c.toNat < 0x10000 then 1 else 2).sum

def isBoolean : Json → Bool
  | .bool _ => true
  | _ => false

def exceedsLength (maxLength : Nat) : Json → Bool
  | .str s => maxLength < textLength s
  | _ => false

def validateFilterOperator (fieldKey : String) (maxLikePatternLength : Nat) (op : String)
    (opVal : Json) : Validation :=
  if op ∉ validOps then
    vErr .dfqlUnsupported s!"Unsupported DFQL feature: filters.{fieldKey}.{op}"
      s!"filters.{fieldKey}.{op}"
  else if op ∈ nullOps ∧ isBoolean opVal = false then
    vErr .dfqlInvalid s!"Null predicate must be boolean: filters.{fieldKey}.{op}"
      s!"filters.{fieldKey}.{op}"
  else if op ∈ likeOps ∧ exceedsLength maxLikePatternLength opVal then
    vErr .dfqlInvalid s!"LIKE pattern exceeds maximum length ({maxLikePatternLength})"
      s!"filters.{fieldKey}.{op}"
  else .ok ()

def validateFilterOperators (fieldKey : String) (limits : Option QueryValidationLimits)
    (ops : Fields) : Validation :=
  ops.forM fun e => validateFilterOperator fieldKey
    ((limits.bind fun l => l.maxLikePatternLength).getD 200) e.1 e.2

/-! ## Checks on the whole value -/

mutual

/-- The first disallowed key, `none` where there is no such key. -/
def checkPrototypePollution : Json → Option String
  | .obj members => pollutionOfMembers members
  | .arr items => pollutionOfItems items
  | _ => none

def pollutionOfMembers : Fields → Option String
  | [] => none
  | (key, value) :: rest =>
    if isSafeKey key then (checkPrototypePollution value).or (pollutionOfMembers rest) else some key

def pollutionOfItems : List Json → Option String
  | [] => none
  | item :: rest => (checkPrototypePollution item).or (pollutionOfItems rest)

end

mutual

/-- `validateFilterDepth`: the values of an array are its items. -/
def validateFilterDepth (maxDepth : Nat) (currentDepth : Nat) : Json → Bool
  | .obj members => currentDepth ≤ maxDepth && depthOfMembers maxDepth currentDepth members
  | .arr items => currentDepth ≤ maxDepth && depthOfItems maxDepth currentDepth items
  | _ => currentDepth ≤ maxDepth

def depthOfMembers (maxDepth : Nat) (currentDepth : Nat) : Fields → Bool
  | [] => true
  | (_, value) :: rest =>
    depthOfValue maxDepth currentDepth value && depthOfMembers maxDepth currentDepth rest

def depthOfItems (maxDepth : Nat) (currentDepth : Nat) : List Json → Bool
  | [] => true
  | item :: rest =>
    depthOfValue maxDepth currentDepth item && depthOfItems maxDepth currentDepth rest

/-- A nested array passes its depth on to each of its items. -/
def depthOfValue (maxDepth : Nat) (currentDepth : Nat) : Json → Bool
  | .arr items => depthOfBranches maxDepth (currentDepth + 1) items
  | .obj members =>
    currentDepth + 1 ≤ maxDepth && depthOfMembers maxDepth (currentDepth + 1) members
  | _ => true

def depthOfBranches (maxDepth : Nat) (currentDepth : Nat) : List Json → Bool
  | [] => true
  | item :: rest =>
    validateFilterDepth maxDepth currentDepth item && depthOfBranches maxDepth currentDepth rest

end

/-! ## The walk over the filters -/

inductive KeyKind where
  | and
  | or
  | path
  | relation
  | field

/-- In the order of the validator's checks. -/
def keyKind (schema : ServerSchema) (resource key : String) : KeyKind :=
  if key = "$and" then .and
  else if key = "$or" then .or
  else if isDotted key then .path
  else if hasRelation schema resource key then .relation
  else .field

/-- The relation segments of a dotted key, from the resource they start at. -/
def walkPath (schema : ServerSchema) (key resource : String) :
    List String → Except ValidationError String
  | [] => .ok resource
  | relName :: rest =>
    match getRelationTarget schema resource relName with
    | some target => walkPath schema key target rest
    | none => .error ⟨.dfqlUnknownField, s!"Unknown path segment: {relName}", s!"filters.{key}"⟩

/-- A dotted key; `ops` are its operators, where the value is an object. -/
def validatePath (schema : ServerSchema) (resource key : String) (ops : Option Fields) :
    Validation :=
  let parts := splitDot key
  if parts.headD "" ∈ (fieldsByResource schema resource).getD [] then
    match ops with
    | some ops => validateFilterOperators key none ops
    | none => .ok ()
  else
    match walkPath schema key resource parts.dropLast with
    | .error e => .error e
    | .ok target =>
      let lastField := parts.getLastD ""
      if lastField ∈ (fieldsByResource schema target).getD [] then .ok ()
      else vErr .dfqlUnknownField s!"Unknown field: {lastField} on {target}" s!"filters.{key}"

def validateField (schema : ServerSchema) (limits : Option QueryValidationLimits)
    (resource key : String) (ops : Option Fields) : Validation :=
  if key ∉ (fieldsByResource schema resource).getD [] then
    vErr .dfqlUnknownField s!"Unknown field: filters.{key}" s!"filters.{key}"
  else
    match ops with
    | some ops => validateFilterOperators key limits ops
    | none => .ok ()

/-- What is checked at every level before its keys. -/
def validateLevel (schema : ServerSchema) (limits : Option QueryValidationLimits)
    (resource : String) (filters : Json) (keyCount : Nat) : Validation :=
  let maxFilterKeysPerLevel := (limits.bind fun l => l.maxFilterKeysPerLevel).getD 20
  match checkPrototypePollution filters with
  | some key => vErr .dfqlInvalid s!"Disallowed key: {key}" "filters"
  | none =>
    if maxFilterKeysPerLevel < keyCount then
      vErr .dfqlInvalid
        s!"Filter keys exceed limit: {keyCount} (max {maxFilterKeysPerLevel})" "filters"
    else if fieldsByResource schema resource = none then
      vErr .dfqlUnknownResource s!"Unknown resource: {resource}" "$"
    else .ok ()

mutual

/-- `validateFilters` on an object or array; any other value is not looked at. -/
def validateFilters (schema : ServerSchema) (limits : Option QueryValidationLimits)
    (resource : String) : Json → Validation
  | .obj members => do
    validateLevel schema limits resource (.obj members) members.length
    validateMembers schema limits resource members
  | .arr items => do
    validateLevel schema limits resource (.arr items) items.length
    validateIndexed schema limits resource 0 items
  | _ => .ok ()

def validateMembers (schema : ServerSchema) (limits : Option QueryValidationLimits)
    (resource : String) : Fields → Validation
  | [] => .ok ()
  | (key, value) :: rest => do
    validateEntry schema limits resource key value
    validateMembers schema limits resource rest

/-- The keys of an array are the indices of its items. -/
def validateIndexed (schema : ServerSchema) (limits : Option QueryValidationLimits)
    (resource : String) (i : Nat) : List Json → Validation
  | [] => .ok ()
  | item :: rest => do
    validateEntry schema limits resource (toString i) item
    validateIndexed schema limits resource (i + 1) rest

def validateEntry (schema : ServerSchema) (limits : Option QueryValidationLimits)
    (resource key : String) : Json → Validation
  | .obj ops =>
    match keyKind schema resource key with
    | .and => .ok ()
    | .or => vErr .dfqlUnsupported "Unsupported DFQL feature: filters.$or" "filters"
    | .path => validatePath schema resource key (some ops)
    | .relation => validateQuantifiers schema limits resource key ops
    | .field => validateField schema limits resource key (some ops)
  | .arr items =>
    match keyKind schema resource key with
    | .and => validateItems schema limits resource items
    | .or => vErr .dfqlUnsupported "Unsupported DFQL feature: filters.$or" "filters"
    | .path => validatePath schema resource key none
    | .relation =>
      -- the keys of an array are no quantifiers
      if items.isEmpty then .ok ()
      else vErr .dfqlInvalid "Unknown relation quantifier: 0" s!"filters.{key}"
    | .field => validateField schema limits resource key none
  | _ =>
    match keyKind schema resource key with
    | .and => .ok ()
    | .or => vErr .dfqlUnsupported "Unsupported DFQL feature: filters.$or" "filters"
    | .path => validatePath schema resource key none
    | .relation => vErr .dfqlInvalid "Relation filter must be object" s!"filters.{key}"
    | .field => validateField schema limits resource key none

def validateItems (schema : ServerSchema) (limits : Option QueryValidationLimits)
    (resource : String) : List Json → Validation
  | [] => .ok ()
  | item :: rest => do
    validateFilters schema limits resource item
    validateItems schema limits resource rest

def validateQuantifiers (schema : ServerSchema) (limits : Option QueryValidationLimits)
    (resource key : String) : Fields → Validation
  | [] => .ok ()
  | (op, subFilter) :: rest =>
    if op ∉ relationOps then
      vErr .dfqlInvalid s!"Unknown relation quantifier: {op}" s!"filters.{key}"
    else
      match getRelationTarget schema resource key with
      | none => vErr .dfqlUnknownRelation s!"Unknown relation: {key}" s!"filters.{key}"
      | some target => do
        validateFilters schema limits target subFilter
        validateQuantifiers schema limits resource key rest

end

/-- What `validateQuery` checks of the resource and of the filters. -/
def validateQueryFilters (schema : ServerSchema) (limits : Option QueryValidationLimits)
    (basePath resource : String) (filters : Option Json) : Validation :=
  match filters.bind checkPrototypePollution with
  | some key => vErr .dfqlInvalid s!"Disallowed key: {key}" basePath
  | none =>
    if fieldsByResource schema resource = none then
      vErr .dfqlUnknownResource s!"Unknown resource: {resource}" "resource"
    else
      match filters with
      | some (.obj members) =>
        if validateFilterDepth 10 0 (.obj members) = false then
          vErr .limitExceeded "Filter nesting depth exceeds limit (10)" "filters"
        else validateFilters schema limits resource (.obj members)
      | _ => .ok ()

end SuperFunctions.Datafn.Server.QueryValidation
