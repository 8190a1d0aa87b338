import Mathlib.Data.List.Sort
import SuperFunctions.Datafn.Core.Schema
import SuperFunctions.Datafn.Core.Value
import SuperFunctions.Lib.OrderedMap

/-!
# Delete policies and the local store

What a relation's `onDelete` asks for when a record at one of its ends is deleted, and the
records and join rows of the memory adapter. A foreign key of the store never comes into being
under a delete: `Shrinks` says so for one step, and every step satisfies it.
-/
namespace SuperFunctions.Datafn.Relations.DeletePolicies

open Lib.OrderedMap Datafn.Core Core.Endpoints List

/-! ## The schema -/

inductive RelationDeletePolicy where
  | restrict
  | cascade
  | setNull
  | detach
  deriving DecidableEq

/-- `DatafnRelationDeletePolicies`: one policy for both sides or one for each. -/
inductive RelationDeletePolicies where
  | both (policy : RelationDeletePolicy)
  | sides (fromSide toSide : Option RelationDeletePolicy)

inductive Side where
  | fromSide
  | toSide

/-- The members of `DatafnRelationSchema` that a delete reads. -/
structure Relation extends RelationSchema where
  fkResourceField : Option String
  pathField : Option String
  joinTable : Option String
  onDelete : Option RelationDeletePolicies
  inheritsInactive : Bool

structure PolicySchema where
  resources : List (String × Option String)
  relations : List Relation

/-- The part of the schema that tells the resource of an id. -/
def PolicySchema.endpoints (schema : PolicySchema) : Schema where
  resources := schema.resources
  relations := schema.relations.map Relation.toRelationSchema

def endpointIsPolymorphic (endpoint : List String) : Bool := 1 < endpoint.length

/-- `text.replace(/Id$/, "")` -/
def withoutId (text : String) : String :=
  if "Id".toList.isSuffixOf text.toList then String.ofList (text.toList.dropLast.dropLast) else text

def htreeFkField (relation : Relation) : String :=
  orText relation.fkField (orText relation.foreignKey (orText relation.inverse "parentId"))

def htreePathField (relation : Relation) : String := orText relation.pathField "parentPath"

def fkResourceFieldForRelation (relation : Relation) (side : Side) : String :=
  orText relation.fkResourceField
    (if relation.type = .htree then withoutId (htreeFkField relation) ++ "Resource"
    else
      let base := match side with
        | .toSide => orText relation.relation "target"
        | .fromSide => orText relation.inverse (orText relation.relation "source")
      withoutId base ++ "Resource")

def relationDeletePolicy (relation : Relation) (side : Side) : Option RelationDeletePolicy :=
  match relation.onDelete with
  | some (.both policy) => some policy
  | some (.sides fromSide toSide) =>
    match side with
    | .fromSide => fromSide
    | .toSide => toSide
  | none => none

def relationDeletePolicyLabel (relation : Relation) : String :=
  relation.relation.getD (relation.inverse.getD
    (match relation.type with
      | .oneMany => "one-many"
      | .manyOne => "many-one"
      | .manyMany => "many-many"
      | .htree => "htree"))

/-- The side of a many-many relation on which a resource is looked up: `from` when it is
there, even if it is on both. -/
def manyManySide (relation : Relation) (resource : String) : Option Side :=
  if resource ∈ relation.fromResources then some .fromSide
  else if resource ∈ relation.toResources then some .toSide
  else none

/-! ## Foreign keys -/

/-- The arguments with which both passes call their foreign key helper. -/
structure FkPolicy where
  policy : RelationDeletePolicy
  resources : List String
  fkField : String
  extraNullFields : List (String × Value)
  resourceField : Option String

def fkResourcePatch (relation : Relation) (side : Side) : List (String × Value) :=
  let endpoint := match side with
    | .toSide => relation.toResources
    | .fromSide => relation.fromResources
  if endpointIsPolymorphic endpoint then [(fkResourceFieldForRelation relation side, .null)] else []

/-- The arms of `validateRelationDeletePolicies` and `applyRelationDeletePolicies` for the
relations that live in a foreign key. -/
def fkPolicyFor (relation : Relation) (resource : String) : Option FkPolicy :=
  match relation.type with
  | .manyMany => none
  | .manyOne =>
    if resource ∈ relation.toResources then
      (relationDeletePolicy relation .toSide).map fun policy =>
        { policy
          resources := relation.fromResources
          fkField := relationFkFieldForManyOne relation.toRelationSchema
          extraNullFields := fkResourcePatch relation .toSide
          resourceField := if endpointIsPolymorphic relation.toResources then
            some (fkResourceFieldForRelation relation .toSide) else none }
    else none
  | .oneMany =>
    if resource ∈ relation.fromResources then
      (relationDeletePolicy relation .fromSide).map fun policy =>
        { policy
          resources := relation.toResources
          fkField := relationFkFieldForOneMany relation.toRelationSchema
          extraNullFields := fkResourcePatch relation .fromSide
          resourceField := if endpointIsPolymorphic relation.fromResources then
            some (fkResourceFieldForRelation relation .fromSide) else none }
    else none
  | .htree =>
    if resource ∈ relation.fromResources then
      (relationDeletePolicy relation .fromSide).map fun policy =>
        { policy
          resources := relation.toResources
          fkField := htreeFkField relation
          extraNullFields :=
            (htreePathField relation, .str "") :: fkResourcePatch relation .fromSide
          resourceField := if endpointIsPolymorphic relation.fromResources then
            some (fkResourceFieldForRelation relation .fromSide) else none }
    else none

/-! ## The store -/

/-- A resource and an id. -/
abbrev Key := String × String

/-- A record with its id; the other fields are kept beside it. -/
structure Row where
  id : String
  fields : Record

def Row.field (row : Row) (name : String) : Option Value :=
  if name = "id" then some (.str row.id) else row.fields.lookup name

/-- `{ ...row, [name]: value }`: an id that is no text is missing. -/
def Row.write (row : Row) (name : String) (value : Value) : Row :=
  if name = "id" then
    { row with id := match value with
        | .str text => text
        | _ => "" }
  else { row with fields := row.fields.insert name value }

/-- `{ ...row, ...patch }` -/
def Row.patch (row : Row) (patch : List (String × Value)) : Row :=
  patch.foldl (fun row entry => row.write entry.1 entry.2) row

/-- The records of a store by resource and id, none of them without an id, and its join rows
by join store. -/
structure LocalStore where
  records : OMap Key Record
  joinRows : List (String × JoinRow)
  named : ∀ key, (records.get key).isSome → key.2 ≠ ""

/-- How a pass can end early. -/
inductive Fault where
  | client (code message path : String)
  | recordMissingId
  | outOfFuel
  deriving DecidableEq

def throwRelationRestricted (deletedId : String) (relation : Relation) : Fault :=
  .client "RELATION_RESTRICTED" ("Cannot delete " ++ deletedId ++ "; relation \"" ++
    relationDeletePolicyLabel relation ++ "\" still references it") "id"

namespace LocalStore

def getRecord (store : LocalStore) (key : Key) : Option Row :=
  (store.records.get key).map fun fields => ⟨key.2, fields⟩

/-- The records of a resource in the order of their ids. -/
def listRecords (store : LocalStore) (resource : String) : List Row :=
  ((store.records.entries.filter fun e => e.1.1 = resource).map
    fun e => Row.mk e.1.2 e.2).insertionSort fun a b => a.id ≤ b.id

def findRecords (store : LocalStore) (resource field : String) (value : Value) : List Row :=
  (store.listRecords resource).filter fun row => row.field field = some value

def upsertRecord (store : LocalStore) (resource : String) (row : Row) : Except Fault LocalStore :=
  if hid : row.id = "" then .error .recordMissingId
  else .ok
    { store with
      records := store.records.set (resource, row.id) row.fields
      named := by
        intro key hkey
        rw [OMap.get_set] at hkey
        split at hkey
        case isTrue h => rw [h]; exact hid
        case isFalse h => exact store.named key hkey }

def deleteRecord (store : LocalStore) (key : Key) : LocalStore :=
  { store with
    records := store.records.delete key
    named := by
      intro other hother
      rw [OMap.get_delete] at hother
      split at hother
      case isTrue h => cases hother
      case isFalse h => exact store.named other hother }

def getJoinRows (store : LocalStore) (joinStore fromId : String) : List JoinRow :=
  (((store.joinRows.filter fun e => e.1 = joinStore).map Prod.snd).filter
    fun row => row.fromId = fromId).insertionSort fun a b => a.toId ≤ b.toId

def getJoinRowsInverse (store : LocalStore) (joinStore toId : String) : List JoinRow :=
  (((store.joinRows.filter fun e => e.1 = joinStore).map Prod.snd).filter
    fun row => row.toId = toId).insertionSort fun a b => a.fromId ≤ b.fromId

/-- The memory adapter keys join rows by both ends in one text. -/
def joinRowKey (fromId toId : String) : String := fromId ++ ":" ++ toId

def deleteJoinRow (store : LocalStore) (joinStore fromId toId : String) : LocalStore :=
  { store with
    joinRows := store.joinRows.filter fun e =>
      ¬(e.1 = joinStore ∧ joinRowKey e.2.fromId e.2.toId = joinRowKey fromId toId) }

end LocalStore

/-- The text under which a pass remembers a record. -/
def visitKey (key : Key) : String := key.1 ++ ":" ++ key.2

/-- The rows whose foreign key names the deleted record, with their resources. -/
def findFkPolicyRows (store : LocalStore) (resources : List String) (fk : FkPolicy)
    (deleted : Key) : List (String × Row) :=
  resources.flatMap fun resource =>
    ((store.findRecords resource fk.fkField (.str deleted.2)).filter fun row =>
      match fk.resourceField with
      | some field => field = "" ∨ deleted.1 = "" ∨ row.field field = some (.str deleted.1)
      | none => true).map fun row => (resource, row)

/-- The join rows in which the deleted record stands on the side, with their join stores. -/
def listManyManyRowsForDeletedResource (store : LocalStore) (relation : Relation) (deleted : Key)
    (side : Side) : List (String × JoinRow) :=
  match relation.relation with
  | none => []
  | some relationName =>
    if relationName = "" then []
    else match side with
      | .fromSide => relation.toResources.flatMap fun toResource =>
          let joinStore := getJoinStoreKey deleted.1 relationName toResource
          (store.getJoinRows joinStore deleted.2).map fun row => (joinStore, row)
      | .toSide => relation.fromResources.flatMap fun fromResource =>
          let joinStore := getJoinStoreKey fromResource relationName deleted.1
          (store.getJoinRowsInverse joinStore deleted.2).map fun row => (joinStore, row)

/-! ## Rows and fields -/

variable {value : Value} {row : Row} {name : String}

theorem Row.field_write (hid : name ≠ "id") (field : String) :
    (row.write name value).field field = if field = name then some value else row.field field := by
  unfold Row.write Row.field
  rw [if_neg hid]
  by_cases hname : field = name
  · rw [if_pos hname, if_neg (hname ▸ hid), hname]
    exact Finmap.lookup_insert _
  rw [if_neg hname]
  by_cases hfield : field = "id"
  · rw [if_pos hfield, if_pos hfield]
  · rw [if_neg hfield, if_neg hfield]
    exact Finmap.lookup_insert_of_ne _ hname

theorem Row.id_write (hid : name ≠ "id") : (row.write name value).id = row.id := by
  unfold Row.write
  rw [if_neg hid]

variable {patch : List (String × Value)}

theorem Row.id_patch (hpatch : ∀ e ∈ patch, e.1 ≠ "id") :
    ∀ row : Row, (row.patch patch).id = row.id := by
  induction patch with
  | nil => exact fun _ => rfl
  | cons e patch ih =>
    intro row
    have hrest := ih (fun x hx => hpatch x (mem_cons_of_mem _ hx)) (row.write e.1 e.2)
    exact hrest.trans (Row.id_write (hpatch e mem_cons_self))

theorem Row.field_patch (hpatch : ∀ e ∈ patch, e.1 ≠ "id") {field : String} :
    ∀ {row : Row}, (row.patch patch).field field = some value →
      (field, value) ∈ patch ∨ (∀ e ∈ patch, e.1 ≠ field) ∧ row.field field = some value := by
  induction patch with
  | nil => exact fun h => .inr ⟨fun _ he => absurd he not_mem_nil, h⟩
  | cons e patch ih =>
    intro row h
    rcases ih (fun x hx => hpatch x (mem_cons_of_mem _ hx)) h with hmem | ⟨hother, hold⟩
    · exact .inl (mem_cons_of_mem _ hmem)
    rw [Row.field_write (hpatch e mem_cons_self)] at hold
    by_cases hname : field = e.1
    · rw [if_pos hname] at hold
      cases hold
      rw [hname]
      exact .inl mem_cons_self
    · rw [if_neg hname] at hold
      refine .inr ⟨fun x hx => ?_, hold⟩
      rcases mem_cons.mp hx with rfl | hx
      · exact Ne.symm hname
      · exact hother x hx

variable {resource : String}

namespace LocalStore

variable {store store' : LocalStore} {key : Key} {row : Row}

theorem mem_listRecords :
    row ∈ store.listRecords resource ↔ store.getRecord (resource, row.id) = some row := by
  unfold listRecords getRecord
  rw [List.mem_insertionSort, List.mem_map, Option.map_eq_some_iff]
  constructor
  · rintro ⟨⟨⟨r, id⟩, fields⟩, hmem, rfl⟩
    obtain ⟨hentry, hr⟩ := List.mem_filter.mp hmem
    have hresource : r = resource := of_decide_eq_true hr
    subst hresource
    exact ⟨fields, (OMap.mem_entries_iff_get _ _ _).mp hentry, rfl⟩
  · rintro ⟨fields, hget, hrow⟩
    refine ⟨((resource, row.id), fields), List.mem_filter.mpr ⟨?_, by simp⟩, hrow⟩
    exact (OMap.mem_entries_iff_get _ _ _).mpr hget

theorem id_of_getRecord (h : store.getRecord key = some row) : row.id = key.2 := by
  obtain ⟨_, _, hrow⟩ := Option.map_eq_some_iff.mp h
  rw [← hrow]

theorem mem_findRecords {field : String} :
    row ∈ store.findRecords resource field value ↔
      store.getRecord (resource, row.id) = some row ∧ row.field field = some value := by
  unfold findRecords
  rw [mem_filter, mem_listRecords, decide_eq_true_eq]

theorem getRecord_upsertRecord (h : store.upsertRecord resource row = .ok store') (key : Key) :
    store'.getRecord key = if key = (resource, row.id) then some row else store.getRecord key := by
  unfold upsertRecord at h
  split at h
  case isTrue => cases h
  cases h
  simp only [getRecord]
  rw [OMap.get_set]
  split
  case isTrue hkey => rw [hkey]; rfl
  case isFalse => rfl

theorem joinRows_upsertRecord (h : store.upsertRecord resource row = .ok store') :
    store'.joinRows = store.joinRows := by
  unfold upsertRecord at h
  split at h
  case isTrue => cases h
  case isFalse => cases h; rfl

theorem upsertRecord_ok (hid : row.id ≠ "") :
    ∃ store', store.upsertRecord resource row = .ok store' := by
  unfold upsertRecord
  rw [dif_neg hid]
  exact ⟨_, rfl⟩

theorem id_ne_of_getRecord (h : store.getRecord key = some row) : row.id ≠ "" := by
  rw [id_of_getRecord h]
  apply store.named
  obtain ⟨fields, hget, _⟩ := Option.map_eq_some_iff.mp h
  rw [hget]
  rfl

theorem getRecord_deleteRecord (key' : Key) :
    (store.deleteRecord key).getRecord key' =
      if key' = key then none else store.getRecord key' := by
  simp only [getRecord, deleteRecord]
  rw [OMap.get_delete]
  split <;> rfl

theorem mem_getJoinRows {joinStore fromId : String} {row : JoinRow} :
    row ∈ store.getJoinRows joinStore fromId ↔
      (joinStore, row) ∈ store.joinRows ∧ row.fromId = fromId := by
  unfold getJoinRows
  simp [mem_insertionSort]

theorem mem_getJoinRowsInverse {joinStore toId : String} {row : JoinRow} :
    row ∈ store.getJoinRowsInverse joinStore toId ↔
      (joinStore, row) ∈ store.joinRows ∧ row.toId = toId := by
  unfold getJoinRowsInverse
  simp [mem_insertionSort]

end LocalStore

theorem mem_findFkPolicyRows {store : LocalStore} {resources : List String} {fk : FkPolicy}
    {deleted : Key} :
    (resource, row) ∈ findFkPolicyRows store resources fk deleted ↔
      resource ∈ resources ∧ store.getRecord (resource, row.id) = some row ∧
        row.field fk.fkField = some (.str deleted.2) ∧
        ∀ field, fk.resourceField = some field →
          field = "" ∨ deleted.1 = "" ∨ row.field field = some (.str deleted.1) := by
  unfold findFkPolicyRows
  simp only [List.mem_flatMap, List.mem_map, List.mem_filter, LocalStore.mem_findRecords,
    Prod.mk.injEq]
  constructor
  · rintro ⟨r, hr, row', ⟨⟨hget, hfk⟩, hres⟩, rfl, rfl⟩
    refine ⟨hr, hget, hfk, fun field hfield => ?_⟩
    rw [hfield] at hres
    exact of_decide_eq_true hres
  · rintro ⟨hr, hget, hfk, hres⟩
    refine ⟨resource, hr, row, ⟨⟨hget, hfk⟩, ?_⟩, rfl, rfl⟩
    cases hfield : fk.resourceField with
    | none => rfl
    | some field => exact decide_eq_true (hres field hfield)

/-! ## Stores that only lose references -/

/-- `{ [name]: "" }` is what detaching from a tree leaves in these fields. -/
def PathField (schema : PolicySchema) (field : String) : Prop :=
  ∃ relation ∈ schema.relations, relation.type = .htree ∧ field = htreePathField relation

/-- Records and join rows of the later store were in the earlier one, and so was every text in
a field but for the empty path of a detached record. -/
structure Shrinks (schema : PolicySchema) (before after : LocalStore) : Prop where
  rows : ∀ key row', after.getRecord key = some row' → ∃ row, before.getRecord key = some row ∧
    ∀ field text, row'.field field = some (.str text) →
      row.field field = some (.str text) ∨ text = "" ∧ PathField schema field
  joins : ∀ e ∈ after.joinRows, e ∈ before.joinRows

/-- The fields of `row'` come from `row` in the sense of `Shrinks`. -/
def Weakens (schema : PolicySchema) (row row' : Row) : Prop :=
  ∀ field text, row'.field field = some (.str text) →
    row.field field = some (.str text) ∨ text = "" ∧ PathField schema field

/-- A record that refers to another by a foreign key. -/
def Refers (store : LocalStore) (fk : FkPolicy) (target referrer : Key) : Prop :=
  ∃ row, (referrer.1, row) ∈ findFkPolicyRows store fk.resources fk target ∧ row.id = referrer.2

section Shrinks

variable {schema : PolicySchema} {store before between after : LocalStore} {row row' : Row}

theorem Shrinks.refl : Shrinks schema store store where
  rows _ row' h := ⟨row', h, fun _ _ hfield => .inl hfield⟩
  joins _ he := he

theorem Shrinks.trans (h : Shrinks schema before between) (h' : Shrinks schema between after) :
    Shrinks schema before after where
  rows key row' hrow := by
    obtain ⟨row, hbetween, hweak⟩ := h'.rows key row' hrow
    obtain ⟨row₀, hbefore, hweak₀⟩ := h.rows key row hbetween
    refine ⟨row₀, hbefore, fun field text hfield => ?_⟩
    rcases hweak field text hfield with hsame | hpath
    · exact hweak₀ field text hsame
    · exact .inr hpath
  joins e he := h.joins e (h'.joins e he)

variable {key : Key}

theorem Shrinks.none (h : Shrinks schema before after) (hnone : before.getRecord key = none) :
    after.getRecord key = none := by
  cases hget : after.getRecord key with
  | none => rfl
  | some row =>
    obtain ⟨row₀, hbefore, _⟩ := h.rows key row hget
    rw [hnone] at hbefore
    cases hbefore

theorem Shrinks.upsert (h : Shrinks schema before store)
    (hlisted : before.getRecord (resource, row.id) = some row) (hid : row'.id = row.id)
    (hweak : Weakens schema row row') (hwrite : store.upsertRecord resource row' = .ok after) :
    Shrinks schema before after where
  rows key written hget := by
    rw [LocalStore.getRecord_upsertRecord hwrite, hid] at hget
    split at hget
    case isTrue hkey =>
      cases hget
      exact ⟨row, hkey ▸ hlisted, hweak⟩
    case isFalse => exact h.rows key written hget
  joins e he := by
    rw [LocalStore.joinRows_upsertRecord hwrite] at he
    exact h.joins e he

theorem Shrinks.deleteRecord (key : Key) : Shrinks schema store (store.deleteRecord key) where
  rows other row' hget := by
    rw [LocalStore.getRecord_deleteRecord] at hget
    split at hget
    case isTrue => cases hget
    case isFalse => exact ⟨row', hget, fun _ _ hfield => .inl hfield⟩
  joins _ he := he

theorem Shrinks.deleteJoinRow (joinStore fromId toId : String) :
    Shrinks schema store (store.deleteJoinRow joinStore fromId toId) where
  rows _ row' hget := ⟨row', hget, fun _ _ hfield => .inl hfield⟩
  joins _ he := mem_of_mem_filter he

/-- Rows are written back with fewer texts and none is removed. -/
structure Rewrites (schema : PolicySchema) (before after : LocalStore) : Prop
    extends Shrinks schema before after where
  kept : ∀ key, after.getRecord key = none → before.getRecord key = none

theorem Rewrites.refl : Rewrites schema store store where
  toShrinks := Shrinks.refl
  kept _ h := h

theorem Rewrites.trans (h : Rewrites schema before between) (h' : Rewrites schema between after) :
    Rewrites schema before after where
  toShrinks := h.toShrinks.trans h'.toShrinks
  kept key hnone := h.kept key (h'.kept key hnone)

theorem Rewrites.upsert (h : Rewrites schema before store)
    (hlisted : before.getRecord (resource, row.id) = some row) (hid : row'.id = row.id)
    (hweak : Weakens schema row row') (hwrite : store.upsertRecord resource row' = .ok after) :
    Rewrites schema before after where
  toShrinks := h.toShrinks.upsert hlisted hid hweak hwrite
  kept key hnone := by
    rw [LocalStore.getRecord_upsertRecord hwrite] at hnone
    split at hnone
    case isTrue => cases hnone
    case isFalse => exact h.kept key hnone

theorem Shrinks.refers (h : Shrinks schema before after) {fk : FkPolicy} {target referrer : Key}
    (htarget : target.2 = "" → ¬PathField schema fk.fkField)
    (hrefers : Refers after fk target referrer) : Refers before fk target referrer := by
  obtain ⟨row', hmem, hid⟩ := hrefers
  obtain ⟨hresource, hget, hfk, hres⟩ := mem_findFkPolicyRows.mp hmem
  obtain ⟨row, hbefore, hweak⟩ := h.rows _ row' hget
  have hrow : row.id = row'.id := LocalStore.id_of_getRecord hbefore
  refine ⟨row, mem_findFkPolicyRows.mpr ⟨hresource, hrow ▸ hbefore, ?_, ?_⟩, hrow.trans hid⟩
  · rcases hweak _ _ hfk with hold | ⟨hempty, hpath⟩
    · exact hold
    · exact absurd hpath (htarget hempty)
  · intro field hfield
    rcases hres field hfield with hf | hr | hold
    · exact .inl hf
    · exact .inr (.inl hr)
    · rcases hweak _ _ hold with hsame | ⟨hempty, _⟩
      · exact .inr (.inr hsame)
      · exact .inr (.inl hempty)

/-- How many records a pass has not marked. -/
def unmarked (store : LocalStore) (marked : List String) : Nat :=
  (store.records.keys.toFinset.filter fun key => visitKey key ∉ marked).card

theorem mem_keys : key ∈ store.records.keys ↔ (store.getRecord key).isSome := by
  rw [OMap.mem_keys_iff_get]
  unfold LocalStore.getRecord
  rw [Option.isSome_map]

variable {marked : List String}

theorem unmarked_le (h : Shrinks schema before after) {marked' : List String}
    (hmarked : marked ⊆ marked') : unmarked after marked' ≤ unmarked before marked := by
  apply Finset.card_le_card
  intro key hkey
  obtain ⟨hmem, hfresh⟩ := Finset.mem_filter.mp hkey
  rw [List.mem_toFinset, mem_keys, Option.isSome_iff_exists] at hmem
  obtain ⟨row', hrow'⟩ := hmem
  obtain ⟨row, hrow, _⟩ := h.rows key row' hrow'
  rw [Finset.mem_filter, List.mem_toFinset, mem_keys, hrow]
  exact ⟨rfl, fun hin => hfresh (hmarked hin)⟩

theorem unmarked_lt (hget : store.getRecord key = some row) (hfresh : visitKey key ∉ marked) :
    unmarked store (visitKey key :: marked) < unmarked store marked := by
  apply Finset.card_lt_card
  rw [Finset.ssubset_iff_of_subset]
  · refine ⟨key, ?_, ?_⟩
    · rw [Finset.mem_filter, List.mem_toFinset, mem_keys, hget]
      exact ⟨rfl, hfresh⟩
    · rw [Finset.mem_filter]
      exact fun h => h.2 List.mem_cons_self
  · intro other hother
    obtain ⟨hmem, hfresh'⟩ := Finset.mem_filter.mp hother
    rw [Finset.mem_filter]
    exact ⟨hmem, fun hin => hfresh' (List.mem_cons_of_mem _ hin)⟩

theorem unmarked_le_length : unmarked store marked ≤ store.records.entries.length := by
  have hcard := (Finset.card_filter_le store.records.keys.toFinset
    fun key => visitKey key ∉ marked).trans (toFinset_card_le _)
  unfold OMap.keys at hcard
  rwa [length_map] at hcard

end Shrinks

end SuperFunctions.Datafn.Relations.DeletePolicies
