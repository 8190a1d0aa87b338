import SuperFunctions.Datafn.Server.QueryValidation

/-!
# The query planner

How filters become clauses of the adapter, and which of the three strategies a query is executed
with. Filters that the adapter cannot answer have no clauses.
-/
namespace SuperFunctions.Datafn.Server.Planner

open Datafn.Core Core.Endpoints Core.Filters QueryValidation

/-! ## Operators -/

/-- An operator of the adapter, or one under a name it does not know. -/
inductive PushdownOperator where
  | eq
  | ne
  | gt
  | gte
  | lt
  | lte
  | inList
  | like
  | ilike
  | other (name : String)

structure PushdownWhereClause where
  field : String
  operator : PushdownOperator
  value : Json

/-- `DFQL_TO_ADAPTER_OP`; the quantifiers are null. -/
def dfqlToAdapterOp : List (String × Option PushdownOperator) :=
  [("$eq", some .eq), ("$ne", some .ne), ("$gt", some .gt), ("$gte", some .gte),
    ("$lt", some .lt), ("$lte", some .lte), ("$in", some .inList), ("$like", some .like),
    ("$ilike", some .ilike), ("$is_null", some .eq), ("$is_not_null", some .ne),
    ("eq", some .eq), ("ne", some .ne), ("gt", some .gt), ("gte", some .gte), ("lt", some .lt),
    ("lte", some .lte), ("in", some .inList), ("like", some .like), ("ilike", some .ilike),
    ("is_null", some .eq), ("is_not_null", some .ne),
    ("$any", none), ("$all", none), ("$none", none)]

/-- What `in` finds in every object. -/
def objectProperties : List String :=
  ["constructor", "hasOwnProperty", "isPrototypeOf", "propertyIsEnumerable", "toLocaleString",
    "toString", "valueOf", "__proto__", "__defineGetter__", "__defineSetter__",
    "__lookupGetter__", "__lookupSetter__"]

/-- `DFQL_TO_ADAPTER_OP[op]`, where null and absence are no operator. -/
def adapterOp (op : String) : Option PushdownOperator :=
  match dfqlToAdapterOp.lookup op with
  | some adapter => adapter
  | none => if op ∈ objectProperties then some (.other op) else none

def hasQuantifier (ops : Fields) : Bool := ops.any fun e => e.1 ∈ relationOps

def isFalse : Json → Bool
  | .bool b => !b
  | _ => false

def operatorClause (key op : String) (opVal : Json) (adapter : PushdownOperator) :
    PushdownWhereClause :=
  if op = "$is_null" ∨ op = "is_null" then
    ⟨key, if isFalse opVal then .ne else .eq, .null⟩
  else if op = "$is_not_null" ∨ op = "is_not_null" then
    ⟨key, if isFalse opVal then .eq else .ne, .null⟩
  else ⟨key, adapter, opVal⟩

def convertOperators (key : String) (ops : Fields) : Option (List PushdownWhereClause) :=
  ops.mapM fun e => (adapterOp e.1).map (operatorClause key e.1 e.2)

/-! ## Filters -/

def isRelationKey (schema : ServerSchema) (resource key : String) : Bool :=
  resource ≠ "" ∧ schema.relations.any fun rel =>
    relationMatchesForward rel.toRelationSchema resource key ||
      relationMatchesInverse rel.toRelationSchema resource key

mutual

/-- `convertDfqlFilters` on the entries of a value; `null` has none and throws. -/
def convertDfqlFilters (schema : ServerSchema) (resource : String) :
    Json → Option (List PushdownWhereClause)
  | .obj members => convertMembers schema resource members
  | .arr items => convertIndexed schema resource 0 items
  | .str s => some (s.toList.zipIdx.map fun c => ⟨toString c.2, .eq, .str (String.singleton c.1)⟩)
  | .bool _ => some []
  | .num _ => some []
  | .null => none

def convertMembers (schema : ServerSchema) (resource : String) :
    Fields → Option (List PushdownWhereClause)
  | [] => some []
  | (key, value) :: rest =>
    (convertEntry schema resource key value).bind fun clauses =>
      (convertMembers schema resource rest).map fun more => clauses ++ more

def convertIndexed (schema : ServerSchema) (resource : String) (i : Nat) :
    List Json → Option (List PushdownWhereClause)
  | [] => some []
  | item :: rest =>
    (convertEntry schema resource (toString i) item).bind fun clauses =>
      (convertIndexed schema resource (i + 1) rest).map fun more => clauses ++ more

def convertEntry (schema : ServerSchema) (resource key : String) :
    Json → Option (List PushdownWhereClause)
  | .arr items =>
    if key = "$or" then none
    else if key = "$and" then convertItems schema resource items
    else if isDotted key then none
    else if isRelationKey schema resource key then none
    else some [⟨key, .eq, .arr items⟩]
  | .obj ops =>
    if key = "$or" then none
    else if key = "$and" then none
    else if isDotted key then none
    else if hasQuantifier ops then none
    else if isRelationKey schema resource key then none
    else convertOperators key ops
  | value =>
    if key = "$or" then none
    else if key = "$and" then none
    else if isDotted key then none
    else if isRelationKey schema resource key then none
    else some [⟨key, .eq, value⟩]

def convertItems (schema : ServerSchema) (resource : String) :
    List Json → Option (List PushdownWhereClause)
  | [] => some []
  | item :: rest =>
    (convertItem schema resource item).bind fun clauses =>
      (convertItems schema resource rest).map fun more => clauses ++ more

/-- A branch of `$and`. -/
def convertItem (schema : ServerSchema) (resource : String) :
    Json → Option (List PushdownWhereClause)
  | .obj members => convertMembers schema resource members
  | .arr items => convertIndexed schema resource 0 items
  | _ => none

end

/-! ## Strategies -/

inductive QueryStrategy where
  | fullPushdown
  | partialPushdown
  | inMemory
  deriving DecidableEq

/-- The auto filters a request switches off, and what the route found of the actor's access. -/
structure QueryMetadata where
  includeTrashed : Bool
  includeArchived : Bool
  includeAncestorInactive : Bool
  shareableAccessIds : Option (List String)
  hasShareableScopeAccess : Bool
  sharedWithMe : Bool

/-- The members of a query that the planner and the auto filters read. -/
structure Query where
  resource : String
  filters : Option Json
  select : Option Json
  search : Option Json
  groupBy : Option Json
  having : Option Json
  temporal : Option Json
  metadata : QueryMetadata

def truthy : Option Json → Bool
  | some (.bool b) => b
  | some (.num n) => n ≠ 0
  | some (.str s) => s ≠ ""
  | some (.arr _) => true
  | some (.obj _) => true
  | _ => false

mutual

def hasInMemoryFilterPatterns : Json → Bool
  | .obj members => patternsInMembers members
  | .arr items => patternsInIndexed 0 items
  | _ => false

def patternsInMembers : Fields → Bool
  | [] => false
  | (key, value) :: rest => patternsInEntry key value || patternsInMembers rest

def patternsInIndexed (i : Nat) : List Json → Bool
  | [] => false
  | item :: rest => patternsInEntry (toString i) item || patternsInIndexed (i + 1) rest

def patternsInEntry (key : String) : Json → Bool
  | .obj ops =>
    key = "$or" || isDotted key || hasQuantifier ops ||
      ops.any fun e => (adapterOp e.1).isNone
  | .arr items => key = "$or" || isDotted key || (key = "$and" && patternsInItems items)
  | _ => key = "$or" || isDotted key

def patternsInItems : List Json → Bool
  | [] => false
  | item :: rest => patternsInItem item || patternsInItems rest

/-- A branch that is an array is not looked at. -/
def patternsInItem : Json → Bool
  | .obj members => patternsInMembers members
  | _ => false

end

def buildRelationNames (schema : ServerSchema) (resource : String) : List String :=
  if resource = "" then []
  else schema.relations.flatMap fun rel =>
    (if resource ∈ rel.fromResources ∧ isEmptyName rel.relation = false then
        rel.relation.toList else []) ++
      if resource ∈ rel.toResources ∧ isEmptyName rel.inverse = false then
        rel.inverse.toList else []

/-- What one token of the select list decides. -/
def classifyToken (relationNames : List String) : Json → Option QueryStrategy
  | .str token =>
    if token = "*" then none
    else
      let parts := splitDot token
      let baseName := parts.headD ""
      if baseName = "parent" ∨ baseName = "children" then some .inMemory
      else if 1 < parts.length then some .partialPushdown
      else if baseName ∈ relationNames then some .partialPushdown
      else none
  | _ => none

def classifyQuery (schema : ServerSchema) (query : Query) : QueryStrategy :=
  if query.temporal.isSome then .inMemory
  else if truthy query.search then .inMemory
  else if truthy query.groupBy || truthy query.having then .inMemory
  else if query.filters.any hasInMemoryFilterPatterns then .inMemory
  else
    match query.select with
    | some (.arr tokens) =>
      (tokens.findSome? (classifyToken (buildRelationNames schema query.resource))).getD
        .fullPushdown
    | _ => .fullPushdown

end SuperFunctions.Datafn.Server.Planner

/-!
# Push-down of a query

The restrictions that capabilities add to a query, the clauses that the adapter is asked for, and
the rows that match them.
-/
namespace SuperFunctions.Datafn.Server.Pushdown

open Datafn.Core Core.Capabilities Core.Filters QueryValidation Planner

/-! ## Auto filters -/

def isTrashFiltered (capabilities : List CapabilityEntry) (metadata : QueryMetadata) : Bool :=
  .trash ∈ capabilities ∧ metadata.includeTrashed = false

def isArchiveFiltered (capabilities : List CapabilityEntry) (metadata : QueryMetadata) : Bool :=
  .archivable ∈ capabilities ∧ metadata.includeArchived = false

/-- Some relation makes the resource depend on its ancestors. -/
def isAncestorFiltered (schema : ServerSchema) (query : Query) : Bool :=
  query.metadata.includeAncestorInactive = false ∧ schema.relations.any fun relation =>
    relation.inheritsInactive &&
      query.resource ∈
        if relation.type = .manyOne then relation.fromResources else relation.toResources

/-- The rows of the resource are kept to the actor's access ids. -/
def isPrivate (capabilities : List CapabilityEntry) (metadata : QueryMetadata) : Bool :=
  capabilities.find? isShareable = some (.shareable (some .privateAccess)) ∧
    metadata.sharedWithMe = false ∧ metadata.hasShareableScopeAccess = false

def accessIds (metadata : QueryMetadata) : List String := metadata.shareableAccessIds.getD []

/-- An id that no record is expected to have stands for no access. -/
def grantedIds (metadata : QueryMetadata) : List String :=
  if accessIds metadata = [] then ["__datafn_no_access__"] else accessIds metadata

def resourceCapabilities (schema : ServerSchema) (resource : ResourceSchema) :
    List CapabilityEntry :=
  resolveCapabilities schema.capabilities resource.capabilities

/-- The restrictions on a query, none for an unknown resource. -/
def autoFilters (schema : ServerSchema) (query : Query) : List Json :=
  match schema.resources.find? fun r => r.name = query.resource with
  | none => []
  | some resource =>
    let capabilities := resourceCapabilities schema resource
    (if isTrashFiltered capabilities query.metadata then
        [.obj [("trashedAt", .obj [("$is_null", .bool true)])]] else []) ++
      (if isArchiveFiltered capabilities query.metadata then
        [.obj [("isArchived", .obj [("$ne", .bool true)])]] else []) ++
      (if isAncestorFiltered schema query then
        [.obj [("isAncestorInactive", .obj [("$ne", .bool true)])]] else []) ++
      (if isPrivate capabilities query.metadata then
        [.obj [("id", .obj [("$in", .arr ((grantedIds query.metadata).map .str))])]] else [])

/-- The branches of filters that are one `$and` and nothing else. -/
def soleConjunction : Fields → Option (List Json)
  | [(key, .arr items)] => if key = "$and" then some items else none
  | _ => none

def mergeAutoFilters (existingFilters : Option Fields) (autoFilters : List Json) : Option Json :=
  if autoFilters.isEmpty then existingFilters.map .obj
  else if (existingFilters.getD []).isEmpty then
    match autoFilters with
    | [auto] => some auto
    | autos => some (.obj [("$and", .arr autos)])
  else
    match soleConjunction (existingFilters.getD []) with
    | some items => some (.obj [("$and", .arr (items ++ autoFilters))])
    | none => some (.obj [("$and", .arr (.obj (existingFilters.getD []) :: autoFilters))])

/-- Filters that are no object are none. -/
def existingFilters : Option Json → Option Fields
  | some (.obj members) => some members
  | _ => none

def injectCapabilityAutoFilters (schema : ServerSchema) (query : Query) : Query :=
  if (autoFilters schema query).isEmpty then query
  else
    { query with
      filters := mergeAutoFilters (existingFilters query.filters) (autoFilters schema query) }

/-! ## The adapter -/

/-- `matchesClause` of the memory adapter on `record[field]`. -/
def matchesClause (rt : Runtime) (value : Option Json) (clause : PushdownWhereClause) : Bool :=
  match clause.operator with
  | .eq =>
    match clause.value with
    | .null => Json.isNullish value
    | expected => Json.strictEq value (some expected)
  | .ne =>
    match clause.value with
    | .null => !Json.isNullish value
    | expected => !Json.strictEq value (some expected)
  | .gt => rt.relational value (some clause.value) = some .gt
  | .gte => atLeast rt value (some clause.value)
  | .lt => rt.relational value (some clause.value) = some .lt
  | .lte => atMost rt value (some clause.value)
  | .inList =>
    match clause.value with
    | .arr items => arrayIncludes items value
    | _ => false
  | .like => false
  | .ilike => false
  | .other _ => false

/-- No clause of a query is joined to the others by `OR`. -/
def matchesWhere (rt : Runtime) (clauses : List PushdownWhereClause) (record : Fields) : Bool :=
  clauses.all fun clause => matchesClause rt (record.lookup clause.field) clause

/-- The clauses `pushdownCore` hands to `db.findMany` and `db.count`. The auto filters are
injected once more. -/
def whereClauses (schema : ServerSchema) (query : Query) : List PushdownWhereClause :=
  let queryWithAutoFilters := injectCapabilityAutoFilters schema query
  match queryWithAutoFilters.filters with
  | none => []
  | some filters =>
    if truthy (some filters) then
      (convertDfqlFilters schema queryWithAutoFilters.resource filters).getD []
    else []

/-- What `db.findMany` finds before it orders and pages, and what `db.count` counts. -/
def fetched (rt : Runtime) (schema : ServerSchema) (rows : List Fields) (query : Query) :
    List Fields :=
  rows.filter (matchesWhere rt (whereClauses schema query))

end SuperFunctions.Datafn.Server.Pushdown
