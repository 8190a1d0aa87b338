import Mathlib.Data.List.Sort
import SuperFunctions.Datafn.Core.Filters

/-!
# Local queries

The offline query executor over the memory adapter: the routing to an index fetch, the filter
with its relations, the sort and the page. A query that throws has no result.
-/
namespace SuperFunctions.Datafn.Client.LocalQuery

open Lib.OrderedMap Datafn.Core Core.Endpoints Core.Filters

/-! ## The memory adapter -/

/-- `(record.id as string) || ""` -/
def idText (record : Fields) : String :=
  match record.lookup "id" with
  | some (.str id) => id
  | _ => ""

/-- The records of a resource, each under its own id. -/
structure RecordTable where
  rows : OMap String Fields
  keyed : ∀ id record, rows.get id = some record → record.lookup "id" = some (.str id)

/-- The key of a join row in its store. -/
def joinKey (row : String × String) : String := row.1 ++ ":" ++ row.2

/-- The edges of a join store, as `from` and `to`. -/
structure JoinTable where
  rows : List (String × String)
  nodup : (rows.map joinKey).Nodup

structure LocalStore where
  records : String → RecordTable
  joinRows : String → JoinTable

namespace LocalStore

variable (store : LocalStore)

def getRecord (resource id : String) : Option Fields := (store.records resource).rows.get id

def listRecords (resource : String) : List Fields :=
  (store.records resource).rows.values.insertionSort fun a b => idText a ≤ idText b

def findRecords (resource field : String) (value : Option Json) : List Fields :=
  ((store.records resource).rows.values.filter fun record =>
    Json.strictEq (record.lookup field) value).insertionSort fun a b => idText a ≤ idText b

def getJoinRows (relationKey fromId : String) : List (String × String) :=
  ((store.joinRows relationKey).rows.filter fun row => row.1 = fromId).insertionSort
    fun a b => a.2 ≤ b.2

def getJoinRowsInverse (relationKey toId : String) : List (String × String) :=
  ((store.joinRows relationKey).rows.filter fun row => row.2 = toId).insertionSort
    fun a b => a.1 ≤ b.1

end LocalStore

/-! ## Related records -/

def recordResourceName (schema : Schema) (id : String) (fallback : List String) : String :=
  ((resolveEndpointResource schema fallback id).orElse fun _ => resourceNameFromId id).getD
    (firstEndpoint fallback)

/-- The record a foreign key names, if it is there. -/
def fkTarget (store : LocalStore) (schema : Schema) (endpoint : List String) (fk : Option Json) :
    List Fields :=
  match fk with
  | some (.str targetId) =>
    (store.getRecord (recordResourceName schema targetId endpoint) targetId).toList
  | _ => []

def joinTarget (store : LocalStore) (schema : Schema) (endpoint : List String) (id : String) :
    Option Fields :=
  store.getRecord (recordResourceName schema id endpoint) id

def getRelatedRecords (store : LocalStore) (schema : Schema) (resource : String) (record : Fields)
    (relationName : String) : List Fields :=
  match findRelationMatch schema resource relationName with
  | none => []
  | some ⟨relation, direction⟩ =>
    let targetEndpoint := relationTargetEndpoint relation direction
    match relation.type, direction with
    | .manyOne, .forward =>
      fkTarget store schema targetEndpoint (record.lookup (relationFkFieldForManyOne relation))
    | .manyOne, .inverse =>
      targetEndpoint.flatMap fun targetResource =>
        store.findRecords targetResource (relationFkFieldForManyOne relation) (record.lookup "id")
    | .oneMany, .forward =>
      let fk := orText relation.fkField (orText relation.foreignKey
        (orText relation.inverse (resource ++ "Id")))
      targetEndpoint.flatMap fun targetResource =>
        store.findRecords targetResource fk (record.lookup "id")
    | .oneMany, .inverse =>
      fkTarget store schema targetEndpoint (record.lookup (relationFkFieldForOneMany relation))
    | .manyMany, .forward =>
      targetEndpoint.flatMap fun targetResource =>
        (store.getJoinRows (getJoinStoreKey resource (orText relation.relation relationName)
          targetResource) (idText record)).filterMap fun row =>
            joinTarget store schema targetEndpoint row.2
    | .manyMany, .inverse =>
      relation.fromResources.flatMap fun fromResource =>
        (store.getJoinRowsInverse (getJoinStoreKey fromResource
          (orText relation.relation relationName) resource) (idText record)).filterMap fun row =>
            joinTarget store schema targetEndpoint row.1
    | .htree, _ => []

/-! ## Filters over relations -/

inductive Quantifier where
  | any
  | all
  | none

def Quantifier.key : Quantifier → String
  | .any => "$any"
  | .all => "$all"
  | .none => "$none"

/-- `"$any" in value || "$all" in value || "$none" in value` -/
def hasQuantifier (ops : Fields) : Bool :=
  [Quantifier.any, .all, .none].any fun mode => (ops.lookup mode.key).isSome

def isRelationPathFilter (schema : Schema) (resource : String) (record : Fields) (key : String) :
    Bool :=
  isDotted key && (findRelationMatch schema resource ((splitDot key).headD "")).isSome &&
    Json.isNullish (record.lookup ((splitDot key).headD ""))

/-- `rest.join(".")` of a key `relation.rest` -/
def subPath (key : String) : String :=
  String.ofList (['.'].intercalate (key.toList.splitOn '.').tail)

/-- The filter evaluation on a record of a resource. -/
abbrev Evaluate := String → Fields → Fields → Option Bool

/-- `applyFilter` on a related record, in the resource its id belongs to. -/
def applyToRelated (schema : Schema) (recurse : Evaluate) (found : RelationMatch) (filter : Json)
    (relatedRecord : Fields) : Option Bool :=
  (normalizeFilterOps filter).bind fun normalized =>
    recurse (recordResourceName schema (idText relatedRecord)
      (relationTargetEndpoint found.relation found.direction)) relatedRecord normalized

/-- The loop ends at the first record that decides the quantifier. -/
def evaluateRelatedRecords (holds : Fields → Option Bool) (related : List Fields) :
    Quantifier → Option Bool
  | .any => related.anyM holds
  | .none => (related.anyM holds).map not
  | .all => if related = [] then some false else related.allM holds

def evaluateRelationQuantifierFilter (schema : Schema) (recurse : Evaluate) (found : RelationMatch)
    (relatedRecords : List Fields) (ops : Fields) : Option Bool :=
  [Quantifier.any, .all, .none].allM fun mode =>
    match ops.lookup mode.key with
    | none => some true
    | some (.obj filter) =>
      evaluateRelatedRecords (applyToRelated schema recurse found (.obj filter)) relatedRecords mode
    | some _ => none

def evaluateRelationPathFilter (store : LocalStore) (schema : Schema) (recurse : Evaluate)
    (resource : String) (record : Fields) (key : String) (value : Json) : Option Bool :=
  match findRelationMatch schema resource ((splitDot key).headD "") with
  | none => some false
  | some found =>
    if subPath key = "" then some false
    else
      (getRelatedRecords store schema resource record ((splitDot key).headD "")).anyM
        (applyToRelated schema recurse found (.obj [(subPath key, value)]))

/-- A key that is neither a branch nor a quantifier. -/
def applyField (rt : Runtime) (store : LocalStore) (schema : Schema) (recurse : Evaluate)
    (resource : String) (record : Fields) (key : String) (value : Json) : Option Bool :=
  if isRelationPathFilter schema resource record key then
    evaluateRelationPathFilter store schema recurse resource record key value
  else evaluateFilter rt record key value

/-- One entry of a filter. -/
def applyEntry (rt : Runtime) (store : LocalStore) (schema : Schema) (recurse : Evaluate)
    (resource : String) (record : Fields) (e : String × Json) : Option Bool :=
  let sub := fun (filter : Json) => filter.entries.bind (recurse resource record)
  match e.2 with
  | .arr subs =>
    if e.1 = "$and" then subs.allM sub
    else if e.1 = "$or" then
      -- a branch that throws is passed by, and throws again when no branch matches
      if subs.any fun filter => sub filter = some true then some true
      else (subs.mapM sub).map fun _ => false
    else applyField rt store schema recurse resource record e.1 e.2
  | .obj ops =>
    match (findRelationMatch schema resource e.1).filter fun _ => hasQuantifier ops with
    | some found =>
      evaluateRelationQuantifierFilter schema recurse found
        (getRelatedRecords store schema resource record e.1) ops
    | none => applyField rt store schema recurse resource record e.1 e.2
  | _ => applyField rt store schema recurse resource record e.1 e.2

/-- `applyFilter`. Every descent takes fuel and leaves a filter of less depth: a branch, the filter
of a quantifier, or the rest of a relation path, whose key loses a dot. -/
def applyFilterFuel (rt : Runtime) (store : LocalStore) (schema : Schema) : Nat → Evaluate
  | 0, _, _, _ => none
  | fuel + 1, resource, record, filters =>
    filters.allM (applyEntry rt store schema (applyFilterFuel rt store schema fuel) resource record)

/-- `applyFilter` -/
def applyFilter (rt : Runtime) (store : LocalStore) (schema : Schema) : Evaluate :=
  fun resource record filters =>
    applyFilterFuel rt store schema (Json.fieldsDepth filters + 1) resource record filters

/-! ## Sorting -/

inductive SortDirection where
  | asc
  | desc

structure SortTerm where
  field : String
  direction : SortDirection

def sortDirection (direction : String) : Option SortDirection :=
  if direction = "asc" then some .asc else if direction = "desc" then some .desc else none

/-- `field`, `field:asc`, `field:desc`, `-field`, or an object. -/
def parseSortTerm : Json → Option SortTerm
  | .str term =>
    if term = "" ∨ term = "-" then none
    else if startsWith term "-" then some ⟨String.ofList term.toList.tail, .desc⟩
    else if ':' ∈ term.toList then
      let field := String.ofList (term.toList.takeWhile (· ≠ ':'))
      if field = "" then none
      else
        (sortDirection (String.ofList (term.toList.dropWhile (· ≠ ':')).tail)).map fun direction =>
          ⟨field, direction⟩
    else some ⟨term, .asc⟩
  | .obj members =>
    match members.lookup "field", members.lookup "direction" with
    | some (.str field), none => if field = "" then none else some ⟨field, .asc⟩
    | some (.str field), some (.str direction) =>
      if field = "" then none else (sortDirection direction).map fun direction => ⟨field, direction⟩
    | _, _ => none
  | _ => none

def parseSortTerms (sort : List Json) : Option (List SortTerm) := sort.mapM parseSortTerm

/-- Two field values that are not the same, the empty ones last. -/
def compareValues (rt : Runtime) (a b : Option Json) : Ordering :=
  if Json.isNullish a then .gt
  else if Json.isNullish b then .lt
  else
    match a, b with
    | some (.str a), some (.str b) => rt.localeCompare a b
    | some (.num a), some (.num b) => if a < b then .lt else if b < a then .gt else .eq
    | some a, some b => rt.localeCompare (rt.stringOf a) (rt.stringOf b)
    | _, _ => .eq

/-- `String(record.id ?? "")` -/
def idString (rt : Runtime) (record : Fields) : String :=
  match record.lookup "id" with
  | some (.str id) => id
  | some .null => ""
  | some id => rt.stringOf id
  | none => ""

/-- The comparator of `sortRecords`: the terms, then the id. -/
def compareRecords (rt : Runtime) : List SortTerm → Fields → Fields → Ordering
  | [], a, b => rt.localeCompare (idString rt a) (idString rt b)
  | term :: terms, a, b =>
    if Json.strictEq (a.lookup term.field) (b.lookup term.field) then compareRecords rt terms a b
    else
      let cmp := compareValues rt (a.lookup term.field) (b.lookup term.field)
      match term.direction with
      | .asc => cmp.then (compareRecords rt terms a b)
      | .desc => cmp.swap.then (compareRecords rt terms a b)

def recordLe (rt : Runtime) (terms : List SortTerm) (a b : Fields) : Prop :=
  compareRecords rt terms a b ≠ .gt

instance (rt : Runtime) (terms : List SortTerm) : DecidableRel (recordLe rt terms) :=
  fun a b => inferInstanceAs (Decidable (compareRecords rt terms a b ≠ .gt))

def sortRecords (rt : Runtime) (records : List Fields) (terms : List SortTerm) : List Fields :=
  records.insertionSort (recordLe rt terms)

/-! ## Routing -/

/-- A field whose `in` list is empty. -/
def isImpossibleField (e : String × Json) : Bool :=
  match e.2 with
  | .obj ops =>
    if e.1 = "$and" ∨ e.1 = "$or" then false
    else
      match Json.orElse (ops.lookup "$in") (ops.lookup "in") with
      | some (.arr []) => true
      | _ => false
  | _ => false

mutual

def hasImpossibleEmptyInFilter : Json → Bool
  | .obj members =>
    match impossibleBranches "$and" members with
    | some branches => branches.any id
    | none =>
      match impossibleBranches "$or" members with
      | some branches => branches.all id
      | none => members.any isImpossibleField
  | .null => false
  | .bool _ => false
  | .num _ => false
  | .str _ => false
  | .arr _ => false

/-- The branches under a key, when they are an array. -/
def impossibleBranches (key : String) : Fields → Option (List Bool)
  | [] => none
  | (k, value) :: rest =>
    if k = key then
      match value with
      | .arr subs => some (impossibleSubs subs)
      | _ => none
    else impossibleBranches key rest

def impossibleSubs : List Json → List Bool
  | [] => []
  | sub :: rest => hasImpossibleEmptyInFilter sub :: impossibleSubs rest

end

/-- The texts of an array that holds nothing else. -/
def allStrings (items : List Json) : Option (List String) :=
  items.mapM fun item =>
    match item with
    | .str s => some s
    | _ => none

def filterValueIds : Json → Option (List String)
  | .str id => some [id]
  | .obj ops =>
    match Json.orElse (ops.lookup "$eq") (ops.lookup "eq") with
    | some (.str id) => some [id]
    | _ =>
      match Json.orElse (ops.lookup "$in") (ops.lookup "in") with
      | some (.arr items) => allStrings items
      | _ => none
  | _ => none

/-- A relation and the ids its records are filtered by. -/
abbrev RelationIds := String × List String

def extractRelationIdFilter (relationName : String) : Json → Option RelationIds
  | .obj ops =>
    match ops.lookup "$any" with
    | some (.obj anyFilter) =>
      ((anyFilter.lookup "id").bind filterValueIds).map fun ids => (relationName, ids)
    | _ => none
  | _ => none

mutual

def findRelationIdFilter : Fields → Option RelationIds
  | [] => none
  | (key, value) :: rest => (findInEntry key value).or (findRelationIdFilter rest)

def findInEntry (key : String) : Json → Option RelationIds
  | .arr subs =>
    if key = "$and" then findInSubs subs else none
  | .obj members =>
    if isDotted key then
      if subPath key = "id" then
        (filterValueIds (.obj members)).map fun ids => ((splitDot key).headD "", ids)
      else none
    else extractRelationIdFilter key (.obj members)
  | value =>
    if isDotted key ∧ subPath key = "id" then
      (filterValueIds value).map fun ids => ((splitDot key).headD "", ids)
    else none

def findInSubs : List Json → Option RelationIds
  | [] => none
  | .obj members :: rest => (findRelationIdFilter members).or (findInSubs rest)
  | _ :: rest => findInSubs rest

end

/-- One lookup of join rows for the seeds: a join store and an id on the far side. -/
structure Probe where
  joinStore : String
  id : String
  direction : Direction

/-- The join store has a row between the id and the probe's. -/
def Probe.links (store : LocalStore) (probe : Probe) (id : String) : Bool :=
  match probe.direction with
  | .forward => (id, probe.id) ∈ (store.joinRows probe.joinStore).rows
  | .inverse => (probe.id, id) ∈ (store.joinRows probe.joinStore).rows

def manyManyProbes (schema : Schema) (resource relationName : String) (ids : List String)
    (relation : RelationSchema) : Direction → List Probe
  | .forward =>
    ids.map fun id =>
      ⟨getJoinStoreKey resource relationName (recordResourceName schema id relation.toResources), id,
        .forward⟩
  | .inverse =>
    ids.flatMap fun id =>
      let sourceResource :=
        (resolveEndpointResource schema relation.fromResources id).orElse fun _ =>
          resourceNameFromId id
      (match sourceResource with
        | some fromResource => if fromResource = "" then relation.fromResources else [fromResource]
        | none => relation.fromResources).map fun fromResource =>
          ⟨getJoinStoreKey fromResource relationName resource, id, .inverse⟩

/-- The lookups of `resolveRelationSeedIds`, when the filter has one on a many-many relation. -/
def relationSeedProbes (schema : Schema) (resource : String) (filters : Fields) :
    Option (List Probe) :=
  (findRelationIdFilter filters).bind fun relationFilter =>
    (findRelationMatch schema resource relationFilter.1).bind fun found =>
      if found.relation.type = .manyMany then
        some (manyManyProbes schema resource (orText found.relation.relation relationFilter.1)
          relationFilter.2 found.relation found.direction)
      else none

/-- The ids on the near side of the rows a probe finds. -/
def Probe.ids (store : LocalStore) (probe : Probe) : List String :=
  match probe.direction with
  | .forward => (store.getJoinRowsInverse probe.joinStore probe.id).map Prod.fst
  | .inverse => (store.getJoinRows probe.joinStore probe.id).map Prod.snd

/-- `values.add` -/
def addId (values : List String) (id : String) : List String :=
  if id ∈ values then values else values ++ [id]

def seedIds (store : LocalStore) (probes : List Probe) : List String :=
  probes.foldl (fun values probe => (probe.ids store).foldl addId values) []

/-- A filter on one field with one `eq`. -/
def detectSingleFieldEq : Fields → Option (String × Json)
  | [(key, .obj [(op, value)])] =>
    if startsWith key "$" then none
    else if op = "eq" ∨ op = "$eq" then some (key, value) else none
  | _ => none

/-- `filters.id.eq` -/
def idEq (filters : Fields) : Option Json :=
  match filters.lookup "id" with
  | some (.obj idFilter) => idFilter.lookup "eq"
  | _ => none

/-- How the records are fetched, and on the id path whether the filter is then satisfied. -/
inductive Route where
  | relationSeeds (probes : List Probe)
  | byId (value : Json) (filterFullySatisfied : Bool)
  | byField (field : String) (value : Json)
  | scan

def chooseRoute (schema : Schema) (resource : String) (filters normalized : Fields) : Route :=
  match relationSeedProbes schema resource normalized with
  | some probes => .relationSeeds probes
  | none =>
    match idEq filters with
    | some value => .byId value (filters.length = 1)
    | none =>
      match detectSingleFieldEq filters with
      | some (field, value) => .byField field value
      | none => .scan

def Route.usedIndexedPath : Route → Bool
  | .scan => false
  | _ => true

def Route.filterFullySatisfied : Route → Bool
  | .byId _ satisfied => satisfied
  | .byField _ _ => true
  | _ => false

def Route.records (store : LocalStore) (resource : String) : Route → List Fields
  | .relationSeeds probes => (seedIds store probes).filterMap (store.getRecord resource)
  | .byId (.str id) _ => (store.getRecord resource id).toList
  | .byId _ _ => []
  | .byField field value => store.findRecords resource field (some value)
  | .scan => store.listRecords resource

/-! ## The query -/

/-- The filters, the sort and the page; an absent `offset` or `limit` is zero. -/
structure DfqlQuery where
  resource : String
  filters : Option Fields
  sort : Option (List Json)
  offset : Nat
  limit : Nat

/-- The records that pass; the first evaluation that throws ends the query. -/
def filterRecords (holds : Fields → Option Bool) : List Fields → Option (List Fields)
  | [] => some []
  | record :: rest =>
    (holds record).bind fun ok =>
      (filterRecords holds rest).map fun kept => if ok then record :: kept else kept

/-- Without sort terms only a scan is ordered, by id. -/
def orderRecords (rt : Runtime) (sort : Option (List Json)) (usedIndexedPath : Bool)
    (records : List Fields) : Option (List Fields) :=
  match sort with
  | some sort => (parseSortTerms sort).map fun terms => sortRecords rt records terms
  | none =>
    some (if usedIndexedPath then records else sortRecords rt records [⟨"id", .asc⟩])

def paginate (offset limit : Nat) (records : List Fields) : List Fields :=
  if limit = 0 ∧ offset = 0 then records
  else (records.drop offset).take (if limit = 0 then records.length else limit)

/-- The records of a query that are fetched on a route, filtered, ordered and cut. -/
def runRoute (rt : Runtime) (store : LocalStore) (schema : Schema) (q : DfqlQuery) (route : Route)
    (normalized : Fields) : Option (List Fields) :=
  let records := route.records store q.resource
  (if route.filterFullySatisfied then some records
    else filterRecords (applyFilter rt store schema q.resource · normalized) records).bind
      fun filtered =>
        (orderRecords rt q.sort route.usedIndexedPath filtered).map (paginate q.offset q.limit)

/-- `executeLocalQuery` for a query without a relation, grouping or selection. -/
def executeLocalQuery (rt : Runtime) (store : LocalStore) (schema : Schema) (q : DfqlQuery) :
    Option (List Fields) :=
  match q.filters with
  | none => runRoute rt store schema q .scan []
  | some filters =>
    if hasImpossibleEmptyInFilter (.obj filters) then some []
    else
      (normalizeFilterOps (.obj filters)).bind fun normalized =>
        runRoute rt store schema q (chooseRoute schema q.resource filters normalized) normalized

/-- List all records, filter each, order and cut. -/
def scanLocalQuery (rt : Runtime) (store : LocalStore) (schema : Schema) (q : DfqlQuery) :
    Option (List Fields) :=
  (normalizeFilterOps (.obj (q.filters.getD []))).bind (runRoute rt store schema q .scan)

end SuperFunctions.Datafn.Client.LocalQuery
