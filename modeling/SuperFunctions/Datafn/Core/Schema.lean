import Mathlib.Data.Rat.Defs
import Mathlib.Data.String.Basic

/-!
# JSON values

The values of queries and of stored records, with the comparisons of the language on them. What
depends on the platform's locale and text conversion is a parameter.
-/
namespace SuperFunctions.Datafn.Core

/-- A JSON value. The members of an object stand in the order of `Object.entries`. -/
inductive Json where
  | null
  | bool (b : Bool)
  | num (n : Rat)
  | str (s : String)
  | arr (items : List Json)
  | obj (members : List (String × Json))

/-- The members of an object. -/
abbrev Fields := List (String × Json)

namespace Json

/-- `a === b`. An object or array of a record is never the same one as an operand's. -/
def strictEq : Option Json → Option Json → Bool
  | none, none => true
  | some .null, some .null => true
  | some (.bool a), some (.bool b) => a == b
  | some (.num a), some (.num b) => a == b
  | some (.str a), some (.str b) => a == b
  | _, _ => false

/-- `value === null || value === undefined` -/
def isNullish : Option Json → Bool
  | none => true
  | some .null => true
  | some _ => false

/-- `a ?? b` -/
def orElse (a b : Option Json) : Option Json := if isNullish a then b else a

/-- `Object.entries(value)`, which throws for `null`. -/
def entries : Json → Option Fields
  | .null => none
  | .obj members => some members
  | .arr items => some (items.zipIdx.map fun item => (toString item.2, item.1))
  | .str s => some (s.toList.zipIdx.map fun c => (toString c.2, .str (String.singleton c.1)))
  | .bool _ | .num _ => some []

/-- `value[part]` for an object or array. -/
def member (part : String) : Json → Option Json
  | .obj members => members.lookup part
  | .arr items =>
    if part = "length" then some (.num items.length)
    else (items.zipIdx.find? fun item => toString item.2 = part).map Prod.fst
  | _ => none

/-- The dots of a key. -/
def dots (key : String) : Nat := key.toList.count '.'

mutual

/-- How far an evaluation can descend into a value. -/
def depth : Json → Nat
  | .arr items => itemsDepth items + 1
  | .obj members => fieldsDepth members + 1
  | .null => 0
  | .bool _ => 0
  | .num _ => 0
  | .str _ => 0

/-- Every item of an array counts as a filter of its own. -/
def itemsDepth : List Json → Nat
  | [] => 0
  | item :: rest => max (max 1 (depth item)) (itemsDepth rest)

/-- A dot of a key is a step along a relation. -/
def fieldsDepth : List (String × Json) → Nat
  | [] => 0
  | (key, value) :: rest => max (dots key + depth value) (fieldsDepth rest)

end

theorem strictEq_str (value : Option Json) (s : String) :
    strictEq value (some (.str s)) = true ↔ value = some (.str s) := by
  cases value with
  | none => simp [strictEq]
  | some value => cases value <;> simp [strictEq]

end Json

/-- What the language leaves to the platform: text conversion, the relational operators on mixed
types (`none` when a side is not a number), and a locale comparison, which is consistent. -/
structure Runtime where
  stringOf : Json → String
  toLowerCase : String → String
  relational : Option Json → Option Json → Option Ordering
  localeCompare : String → String → Ordering
  localeCompare_swap : ∀ a b, (localeCompare a b).swap = localeCompare b a
  localeCompare_trans : ∀ a b c, localeCompare a b ≠ .gt → localeCompare b c ≠ .gt →
    localeCompare a c ≠ .gt

/-- A platform that compares code points. -/
def Runtime.codePoints : Runtime where
  stringOf value :=
    match value with
    | .str s => s
    | _ => ""
  toLowerCase s := s
  relational _ _ := none
  localeCompare a b := if a < b then .lt else if b < a then .gt else .eq
  localeCompare_swap a b := by
    by_cases hab : a < b
    · simp [hab, lt_asymm hab]
    · by_cases hba : b < a <;> simp [hab, hba]
  localeCompare_trans a b c := by
    intro hab hbc
    have hle : ∀ x y : String, (if x < y then Ordering.lt else if y < x then .gt else .eq) ≠ .gt →
        x ≤ y := by
      intro x y h
      by_contra hnot
      have hyx := not_le.mp hnot
      rw [if_neg (lt_asymm hyx), if_pos hyx] at h
      exact h rfl
    have hac := (hle a b hab).trans (hle b c hbc)
    split
    · simp
    · rw [if_neg (not_lt.mpr hac)]
      simp

end SuperFunctions.Datafn.Core

/-!
# Relations of a schema

The relations between resources, their endpoints and the resource an id belongs to.
-/
namespace SuperFunctions.Datafn.Core.Endpoints

inductive RelationType where
  | oneMany
  | manyOne
  | manyMany
  | htree
  deriving DecidableEq

inductive Direction where
  | forward
  | inverse

/-- `DatafnRelationSchema`: an endpoint lists one resource or several. -/
structure RelationSchema where
  fromResources : List String
  toResources : List String
  type : RelationType
  relation : Option String
  inverse : Option String
  fkField : Option String
  foreignKey : Option String

/-- The resources with their id prefixes, and the relations. -/
structure Schema where
  resources : List (String × Option String)
  relations : List RelationSchema

structure RelationMatch where
  relation : RelationSchema
  direction : Direction

/-- `a || b` on an optional string. -/
def orText (a : Option String) (b : String) : String :=
  match a with
  | some s => if s = "" then b else s
  | none => b

def firstEndpoint (endpoint : List String) : String := endpoint.headD ""

def resourceNameFromId (id : String) : Option String :=
  let name := id.toList.takeWhile (· ≠ ':')
  if name ≠ [] ∧ ':' ∈ id.toList then some (String.ofList name) else none

/-- The candidate with the longest prefix, the first of several. -/
def longestPrefix (candidates : List (String × String)) : Option (String × String) :=
  candidates.foldl (fun best candidate =>
    match best with
    | none => some candidate
    | some b => if b.2.length < candidate.2.length then some candidate else some b) none

def resolveEndpointResource (schema : Schema) (endpoint : List String) (id : String) :
    Option String :=
  match endpoint with
  | [resource] => some resource
  | _ =>
    let candidates := (schema.resources.filter fun r => r.1 ∈ endpoint).map
      fun r => (r.1, r.2.getD (r.1 ++ ":"))
    match longestPrefix (candidates.filter fun candidate =>
        candidate.2.toList.isPrefixOf id.toList) with
    | some candidate => some candidate.1
    | none => (resourceNameFromId id).filter fun name => name ∈ endpoint

def relationMatchesForward (relation : RelationSchema) (resource relationName : String) : Bool :=
  resource ∈ relation.fromResources ∧ relation.relation = some relationName

def relationMatchesInverse (relation : RelationSchema) (resource relationName : String) : Bool :=
  resource ∈ relation.toResources ∧ relation.inverse = some relationName

/-- The first relation of the schema that matches, forward before inverse. -/
def findRelationMatch (schema : Schema) (resource relationName : String) : Option RelationMatch :=
  schema.relations.findSome? fun relation =>
    if relationMatchesForward relation resource relationName then some ⟨relation, .forward⟩
    else if relationMatchesInverse relation resource relationName then some ⟨relation, .inverse⟩
    else none

def relationTargetEndpoint (relation : RelationSchema) : Direction → List String
  | .forward => relation.toResources
  | .inverse => relation.fromResources

def relationFkFieldForOneMany (relation : RelationSchema) : String :=
  orText relation.fkField (orText relation.foreignKey
    (orText relation.inverse (firstEndpoint relation.fromResources ++ "Id")))

def relationFkFieldForManyOne (relation : RelationSchema) : String :=
  orText relation.fkField (orText relation.foreignKey
    (relation.relation.getD (firstEndpoint relation.toResources) ++ "Id"))

/-- `join_{from}_{relation}_{to}` -/
def getJoinStoreKey (fromResource relation toResource : String) : String :=
  "join_" ++ fromResource ++ "_" ++ relation ++ "_" ++ toResource

end SuperFunctions.Datafn.Core.Endpoints

/-!
# Capabilities of a resource

The capabilities a schema gives to all of its resources, what a resource adds or excludes, and
the fields they bring.
-/
namespace SuperFunctions.Datafn.Core.Capabilities

inductive CapabilityKey where
  | timestamps
  | audit
  | trash
  | archivable
  | shareable
  deriving DecidableEq

/-- `shareable.default` -/
inductive ShareableDefault where
  | privateAccess
  | sharedAccess
  deriving DecidableEq

/-- A capability by its name, or the settings of `shareable`. -/
inductive CapabilityEntry where
  | timestamps
  | audit
  | trash
  | archivable
  | shareable (default : Option ShareableDefault)
  deriving DecidableEq

inductive ResourceCapabilities where
  | entries (entries : List CapabilityEntry)
  | exclude (excluded : List CapabilityKey)

def toCapabilityKey : CapabilityEntry → CapabilityKey
  | .timestamps => .timestamps
  | .audit => .audit
  | .trash => .trash
  | .archivable => .archivable
  | .shareable _ => .shareable

def isShareable : CapabilityEntry → Bool
  | .shareable _ => true
  | _ => false

/-- The first entry of each key. -/
def dedupeCapabilities (entries : List CapabilityEntry) : List CapabilityEntry :=
  entries.foldl (fun deduped entry =>
    if toCapabilityKey entry ∈ deduped.map toCapabilityKey then deduped else deduped ++ [entry]) []

/-- A resource's entry joins the resolved ones; only `shareable` takes the place of an earlier. -/
def addCapability (resolved : List CapabilityEntry) (entry : CapabilityEntry) :
    List CapabilityEntry :=
  if toCapabilityKey entry ∉ resolved.map toCapabilityKey then resolved ++ [entry]
  else if isShareable entry then
    resolved.map fun candidate => if isShareable candidate then entry else candidate
  else resolved

def resolveCapabilities (globalCaps : List CapabilityEntry) :
    Option ResourceCapabilities → List CapabilityEntry
  | none => dedupeCapabilities globalCaps
  | some (.entries entries) => entries.foldl addCapability (dedupeCapabilities globalCaps)
  | some (.exclude excluded) =>
    dedupeCapabilities (globalCaps.filter fun entry =>
      isShareable entry || toCapabilityKey entry ∉ excluded)

/-- The names of `CAPABILITY_FIELD_DEFS`. -/
def capabilityFieldDefs : CapabilityKey → List String
  | .timestamps => ["createdAt", "updatedAt"]
  | .audit => ["createdBy", "updatedBy"]
  | .trash => ["trashedAt", "trashedBy"]
  | .archivable => ["isArchived"]
  | .shareable => ["visibility"]

/-- The names of `getCapabilityFields`. -/
def getCapabilityFields (resolvedCaps : List CapabilityEntry) : List String :=
  ((dedupeCapabilities resolvedCaps).flatMap fun entry =>
    capabilityFieldDefs (toCapabilityKey entry)).eraseDups

end SuperFunctions.Datafn.Core.Capabilities
