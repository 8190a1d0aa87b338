import SuperFunctions.Datafn.Relations.InactivePropagation

/-!
# Offline deletes

An offline delete is validated on the store as it is: the records it would cascade to are
walked and none may be restricted. The delete itself then reads the store it changes. Both
remember the records they have been to by their visit keys.
-/
namespace SuperFunctions.Datafn.Relations.OfflineDelete

open Datafn.Core DeletePolicies InactivePropagation List

/-- The side of a many-many relation and the policy that counts there. -/
def manyManyPolicy (relation : Relation) (resource : String) :
    Option (Side × RelationDeletePolicy) :=
  (manyManySide relation resource).bind fun side =>
    (relationDeletePolicy relation side).map fun policy => (side, policy)

/-! ## Validation -/

def validateFkDeletePolicy (recurse : List String → Key → Except Fault (List String))
    (store : LocalStore) (relation : Relation) (fk : FkPolicy) (deleted : Key)
    (visited : List String) : Except Fault (List String) :=
  let rows := findFkPolicyRows store fk.resources fk deleted
  if 0 < rows.length ∧ fk.policy = .restrict then
    .error (throwRelationRestricted deleted.2 relation)
  else if fk.policy = .cascade then
    rows.foldlM (fun visited entry =>
      if entry.2.id = "" then .ok visited else recurse visited (entry.1, entry.2.id)) visited
  else .ok visited

/-- One turn of the loop of `validateRelationDeletePolicies`. -/
def validateRelation (recurse : List String → Key → Except Fault (List String))
    (store : LocalStore) (deleted : Key) (visited : List String) (relation : Relation) :
    Except Fault (List String) :=
  if relation.type = .manyMany then
    match manyManyPolicy relation deleted.1 with
    | none => .ok visited
    | some (side, policy) =>
      if 0 < (listManyManyRowsForDeletedResource store relation deleted side).length ∧
          policy = .restrict then
        .error (throwRelationRestricted deleted.2 relation)
      else .ok visited
  else
    match fkPolicyFor relation deleted.1 with
    | none => .ok visited
    | some fk => validateFkDeletePolicy recurse store relation fk deleted visited

def validateRelationDeletePolicies (schema : PolicySchema) (store : LocalStore) :
    Nat → List String → Key → Except Fault (List String)
  | 0, visited, key => if visitKey key ∈ visited then .ok visited else .error .outOfFuel
  | fuel + 1, visited, key =>
    if visitKey key ∈ visited then .ok visited
    else schema.relations.foldlM
      (validateRelation (validateRelationDeletePolicies schema store fuel) store key)
      (visitKey key :: visited)

/-! ## The delete -/

/-- The store and the visit keys. -/
abbrev DeleteState := LocalStore × List String

/-- A fault leaves the store as far as the delete had got. -/
abbrev Deleting := Except (Fault × LocalStore)

def detachRow (fk : FkPolicy) (state : Queued) (entry : String × Row) : Deleting Queued :=
  if entry.2.id = "" then .ok state
  else
    match state.1.upsertRecord entry.1
        (entry.2.patch ((fk.fkField, .null) :: fk.extraNullFields)) with
    | .error fault => .error (fault, state.1)
    | .ok store => .ok (store, state.2 ++ [(entry.1, entry.2.id)])

/-- The rows of a foreign key under their policy; a detachment is propagated. -/
def applyFkRows (propagate : LocalStore → List Key → Except Fault LocalStore)
    (recurse : DeleteState → Key → Deleting DeleteState) (relation : Relation) (fk : FkPolicy)
    (deleted : Key) (state : DeleteState) : Deleting DeleteState :=
  let rows := findFkPolicyRows state.1 fk.resources fk deleted
  if 0 < rows.length ∧ fk.policy = .restrict then
    .error (throwRelationRestricted deleted.2 relation, state.1)
  else if fk.policy = .setNull ∨ fk.policy = .detach then
    match rows.foldlM (detachRow fk) (state.1, []) with
    | .error e => .error e
    | .ok (store, seeds) =>
      match propagate store seeds with
      | .error fault => .error (fault, store)
      | .ok store' => .ok (store', state.2)
  else if fk.policy = .cascade then
    rows.foldlM (fun state entry =>
      if entry.2.id = "" then .ok state else recurse state (entry.1, entry.2.id)) state
  else .ok state

def applyFkDeletePolicy (schema : PolicySchema)
    (recurse : DeleteState → Key → Deleting DeleteState) (relation : Relation) (fk : FkPolicy)
    (deleted : Key) (state : DeleteState) : Deleting DeleteState :=
  applyFkRows (applyInactivePropagation schema) recurse relation fk deleted state

def deleteJoinRows (store : LocalStore) (rows : List (String × JoinRow)) : LocalStore :=
  rows.foldl (fun store entry =>
    if entry.2.fromId = "" ∨ entry.2.toId = "" then store
    else store.deleteJoinRow entry.1 entry.2.fromId entry.2.toId) store

/-- One turn of the loop of `applyRelationDeletePolicies`. -/
def applyRelation (schema : PolicySchema) (recurse : DeleteState → Key → Deleting DeleteState)
    (deleted : Key) (state : DeleteState) (relation : Relation) : Deleting DeleteState :=
  if relation.type = .manyMany then
    match manyManyPolicy relation deleted.1 with
    | none => .ok state
    | some (side, policy) =>
      let rows := listManyManyRowsForDeletedResource state.1 relation deleted side
      if 0 < rows.length ∧ policy = .restrict then
        .error (throwRelationRestricted deleted.2 relation, state.1)
      else if policy = .detach ∨ policy = .cascade ∨ policy = .setNull then
        .ok (deleteJoinRows state.1 rows, state.2)
      else .ok state
  else
    match fkPolicyFor relation deleted.1 with
    | none => .ok state
    | some fk => applyFkDeletePolicy schema recurse relation fk deleted state

def applyRelationDeletePolicies (schema : PolicySchema)
    (recurse : DeleteState → Key → Deleting DeleteState) (deleted : Key) (state : DeleteState) :
    Deleting DeleteState :=
  schema.relations.foldlM (applyRelation schema recurse deleted) state

def deleteRecordWithRelationPolicies (schema : PolicySchema) :
    Nat → DeleteState → Key → Deleting DeleteState
  | 0, state, key => if visitKey key ∈ state.2 then .ok state else .error (.outOfFuel, state.1)
  | fuel + 1, state, key =>
    if visitKey key ∈ state.2 then .ok state
    else do
      let state ← applyRelationDeletePolicies schema
        (deleteRecordWithRelationPolicies schema fuel) key (state.1, visitKey key :: state.2)
      .ok (state.1.deleteRecord key, state.2)

/-- More than there are records: how deep a pass can nest. -/
def passFuel (store : LocalStore) : Nat := store.records.entries.length + 1

/-- `validateOfflineMutation`, then `applyOptimisticMutationToStorage`: the store that is left
and the fault that ended it. -/
def handleOfflineDelete (schema : PolicySchema) (store : LocalStore) (key : Key) :
    LocalStore × Option Fault :=
  match validateRelationDeletePolicies schema store (passFuel store) [] key with
  | .error fault => (store, some fault)
  | .ok _ =>
    match deleteRecordWithRelationPolicies schema (passFuel store) (store, []) key with
    | .error (fault, store') => (store', some fault)
    | .ok (store', _) => (store', none)

/-! ## What a pass runs into -/

variable {schema : PolicySchema} {store store' : LocalStore} {key other : Key}
  {relation : Relation} {fk : FkPolicy}

/-- Deleting `key` cascades to `other`. -/
def Cascades (schema : PolicySchema) (store : LocalStore) (key other : Key) : Prop :=
  ∃ relation ∈ schema.relations, relation.type ≠ .manyMany ∧ ∃ fk,
    fkPolicyFor relation key.1 = some fk ∧ fk.policy = .cascade ∧ Refers store fk key other

/-- No relation restricts the delete of `key`. -/
structure Unrestricted (store : LocalStore) (key : Key) (relation : Relation) : Prop where
  references : ∀ fk, fkPolicyFor relation key.1 = some fk → fk.policy = .restrict →
    ∀ other, ¬Refers store fk key other
  joinRows : ∀ side, relation.type = .manyMany →
    manyManyPolicy relation key.1 = some (side, .restrict) →
    listManyManyRowsForDeletedResource store relation key side = []

theorem fkPolicyFor_manyMany (h : relation.type = .manyMany) (resource : String) :
    fkPolicyFor relation resource = none := by
  unfold fkPolicyFor
  rw [h]

theorem patch_of_fkPolicyFor {resource field : String} {value : Value}
    (hrelation : relation ∈ schema.relations) (hfk : fkPolicyFor relation resource = some fk)
    (hmem : (field, value) ∈ (fk.fkField, Value.null) :: fk.extraNullFields) :
    value = .null ∨ value = .str "" ∧ PathField schema field := by
  have hpatch : ∀ side, (field, value) ∈ fkResourcePatch relation side → value = .null := by
    intro side h
    unfold fkResourcePatch at h
    cases side <;>
    · dsimp only at h
      split at h
      · cases mem_singleton.mp h
        rfl
      · cases h
  rcases mem_cons.mp hmem with h | h
  · cases h
    exact .inl rfl
  cases htype : relation.type with
  | manyMany =>
    rw [fkPolicyFor_manyMany htype] at hfk
    cases hfk
  | manyOne =>
    simp only [fkPolicyFor, htype] at hfk
    split at hfk
    · obtain ⟨_, _, rfl⟩ := Option.map_eq_some_iff.mp hfk
      exact .inl (hpatch .toSide h)
    · cases hfk
  | oneMany =>
    simp only [fkPolicyFor, htype] at hfk
    split at hfk
    · obtain ⟨_, _, rfl⟩ := Option.map_eq_some_iff.mp hfk
      exact .inl (hpatch .fromSide h)
    · cases hfk
  | htree =>
    simp only [fkPolicyFor, htype] at hfk
    split at hfk
    · obtain ⟨_, _, rfl⟩ := Option.map_eq_some_iff.mp hfk
      rcases mem_cons.mp h with h | h
      · cases h
        exact .inr ⟨rfl, relation, hrelation, htype, rfl⟩
      · exact .inl (hpatch _ h)
    · cases hfk

variable {entry : String × Row}

theorem refers_of_mem (h : entry ∈ findFkPolicyRows store fk.resources fk key) :
    Refers store fk key (entry.1, entry.2.id) := ⟨entry.2, h, rfl⟩

theorem mem_of_refers (h : Refers store fk key other) :
    ∃ entry ∈ findFkPolicyRows store fk.resources fk key, (entry.1, entry.2.id) = other := by
  obtain ⟨row, hmem, hid⟩ := h
  exact ⟨(other.1, row), hmem, by rw [hid]⟩

theorem getRecord_of_refers (h : Refers store fk key other) :
    ∃ row, store.getRecord other = some row := by
  obtain ⟨row, hmem, hid⟩ := h
  obtain ⟨_, hget, _⟩ := mem_findFkPolicyRows.mp hmem
  rw [hid] at hget
  exact ⟨row, hget⟩

theorem id_ne_of_mem (h : entry ∈ findFkPolicyRows store fk.resources fk key) :
    entry.2.id ≠ "" := by
  obtain ⟨_, hget, _⟩ := mem_findFkPolicyRows.mp h
  exact LocalStore.id_ne_of_getRecord hget

theorem listManyManyRows_subset (hjoins : ∀ e ∈ store'.joinRows, e ∈ store.joinRows)
    {side : Side} {entry : String × JoinRow}
    (h : entry ∈ listManyManyRowsForDeletedResource store' relation key side) :
    entry ∈ listManyManyRowsForDeletedResource store relation key side := by
  unfold listManyManyRowsForDeletedResource at h ⊢
  cases hname : relation.relation with
  | none =>
    rw [hname] at h
    cases h
  | some name =>
    rw [hname] at h
    dsimp only at h ⊢
    split at h
    · cases h
    case isFalse hne =>
      rw [if_neg hne]
      cases side with
      | fromSide =>
        simp only [mem_flatMap, mem_map, LocalStore.mem_getJoinRows] at h ⊢
        obtain ⟨resource, hresource, row, ⟨hmem, hid⟩, hentry⟩ := h
        exact ⟨resource, hresource, row, ⟨hjoins _ hmem, hid⟩, hentry⟩
      | toSide =>
        simp only [mem_flatMap, mem_map, LocalStore.mem_getJoinRowsInverse] at h ⊢
        obtain ⟨resource, hresource, row, ⟨hmem, hid⟩, hentry⟩ := h
        exact ⟨resource, hresource, row, ⟨hjoins _ hmem, hid⟩, hentry⟩

theorem deleteJoinRows_shrinks (rows : List (String × JoinRow)) :
    ∀ store : LocalStore, Shrinks schema store (deleteJoinRows store rows) := by
  induction rows with
  | nil => exact fun _ => Shrinks.refl
  | cons entry rows ih =>
    intro store
    by_cases hends : entry.2.fromId = "" ∨ entry.2.toId = ""
    · have hstep : deleteJoinRows store (entry :: rows) = deleteJoinRows store rows := by
        simp only [deleteJoinRows, foldl_cons, if_pos hends]
      rw [hstep]
      exact ih store
    · have hstep : deleteJoinRows store (entry :: rows) =
          deleteJoinRows (store.deleteJoinRow entry.1 entry.2.fromId entry.2.toId) rows := by
        simp only [deleteJoinRows, foldl_cons, if_neg hends]
      rw [hstep]
      exact (Shrinks.deleteJoinRow _ _ _).trans (ih _)

end SuperFunctions.Datafn.Relations.OfflineDelete

/-!
# Deletes on the server

The server handles the rows of a foreign key resource by resource and validates again before
every nested delete. Its join rows are rows of a table, with an id of their own and, where an
end is polymorphic, the resource of that end.
-/
namespace SuperFunctions.Datafn.Relations.ServerDelete

open Datafn.Core Core.Endpoints DeletePolicies OfflineDelete

/-! ## Join tables -/

def getRelationName (relation : Relation) : String :=
  relation.relation.getD (relation.inverse.getD
    (relation.joinTable.getD ("to_" ++ firstEndpoint relation.toResources)))

def getJoinTableName (fromResource relation : String) : String :=
  "__datafn_join_" ++ fromResource ++ "_" ++ relation

def getRelationJoinTableName (relation : Relation) (fromResource : String) : String :=
  orText relation.joinTable
    (getJoinTableName
      (if 1 < relation.fromResources.length then firstEndpoint relation.fromResources
      else fromResource) (getRelationName relation))

def joinTablesForDeletedResource (relation : Relation) (deletedResource : String) (side : Side) :
    List String :=
  if orText relation.joinTable "" ≠ "" then [orText relation.joinTable ""]
  else
    (match side with
      | .fromSide => [deletedResource]
      | .toSide => relation.fromResources).map (getRelationJoinTableName relation)

def endOf (side : Side) (row : JoinRow) : String :=
  match side with
  | .fromSide => row.fromId
  | .toSide => row.toId

def discriminatorField (side : Side) : String :=
  match side with
  | .fromSide => "fromResource"
  | .toSide => "toResource"

def sideEndpoint (relation : Relation) (side : Side) : List String :=
  match side with
  | .fromSide => relation.fromResources
  | .toSide => relation.toResources

/-- The row of a join table that a delete of this record asks for. -/
def namesDeleted (relation : Relation) (deleted : Key) (side : Side) (row : JoinRow) : Bool :=
  endOf side row = deleted.2 ∧
    (endpointIsPolymorphic (sideEndpoint relation side) = true →
      row.metadata.lookup (discriminatorField side) = some (.str deleted.1))

/-- `adapter.findMany` on one join table. -/
def joinTableRows (store : LocalStore) (relation : Relation) (deleted : Key) (side : Side)
    (tableName : String) : List JoinRow :=
  ((store.joinRows.filter fun e => e.1 = tableName).map Prod.snd).filter
    (namesDeleted relation deleted side)

def joinTableRowId (row : JoinRow) : String :=
  match row.metadata.lookup "id" with
  | some (.str id) => id
  | _ => row.fromId ++ ":" ++ row.toId

/-- `adapter.delete` by the id of a join row. -/
def deleteJoinTableRow (store : LocalStore) (tableName rowId : String) : LocalStore :=
  { store with
    joinRows := store.joinRows.filter fun e =>
      ¬(e.1 = tableName ∧ e.2.metadata.lookup "id" = some (.str rowId)) }

/-- Rows with an empty end, or with an end of no resource, are passed over. -/
def resolvable (schema : PolicySchema) (relation : Relation) (row : JoinRow) : Bool :=
  row.fromId ≠ "" ∧ row.toId ≠ "" ∧
    (resolveEndpointResource schema.endpoints relation.fromResources row.fromId).getD "" ≠ "" ∧
    (resolveEndpointResource schema.endpoints relation.toResources row.toId).getD "" ≠ ""

def deleteJoinTableRows (schema : PolicySchema) (relation : Relation) (tableName : String)
    (store : LocalStore) (rows : List JoinRow) : LocalStore :=
  rows.foldl (fun store row =>
    if resolvable schema relation row = false then store
    else deleteJoinTableRow store tableName (joinTableRowId row)) store

/-- The server names a join relation without its inverse. -/
def manyManyRestricted (deletedId : String) (relation : Relation) : Fault :=
  .client "RELATION_RESTRICTED" ("Cannot delete " ++ deletedId ++ "; relation \"" ++
    relation.relation.getD "many-many" ++ "\" still references it") "id"

/-! ## Validation -/

def validateFkDeletePolicy (recurse : List String → Key → Except Fault (List String))
    (store : LocalStore) (relation : Relation) (fk : FkPolicy) (deleted : Key)
    (visited : List String) : Except Fault (List String) :=
  fk.resources.foldlM (fun visited resource =>
    OfflineDelete.validateFkDeletePolicy recurse store relation
      { fk with resources := [resource] } deleted visited) visited

def validateRelation (recurse : List String → Key → Except Fault (List String))
    (store : LocalStore) (deleted : Key) (visited : List String) (relation : Relation) :
    Except Fault (List String) :=
  if relation.type = .manyMany then
    match manyManyPolicy relation deleted.1 with
    | some (side, .restrict) =>
      if (joinTablesForDeletedResource relation deleted.1 side).any fun tableName =>
          0 < (joinTableRows store relation deleted side tableName).length then
        .error (manyManyRestricted deleted.2 relation)
      else .ok visited
    | _ => .ok visited
  else
    match fkPolicyFor relation deleted.1 with
    | none => .ok visited
    | some fk => validateFkDeletePolicy recurse store relation fk deleted visited

def validateRelationDeletePolicies (schema : PolicySchema) (store : LocalStore) :
    Nat → List String → Key → Except Fault (List String)
  | 0, visited, key => if visitKey key ∈ visited then .ok visited else .error .outOfFuel
  | fuel + 1, visited, key =>
    if visitKey key ∈ visited then .ok visited
    else schema.relations.foldlM
      (validateRelation (validateRelationDeletePolicies schema store fuel) store key)
      (visitKey key :: visited)

/-! ## The delete -/

/-- An update that takes the id from a row is refused, as a primary key is. -/
def applyFkDeletePolicy (recurse : DeleteState → Key → Deleting DeleteState) (relation : Relation)
    (fk : FkPolicy) (deleted : Key) (state : DeleteState) : Deleting DeleteState :=
  fk.resources.foldlM (fun state resource =>
    applyFkRows (fun store _ => .ok store) recurse relation { fk with resources := [resource] }
      deleted state) state

def applyManyManyTable (schema : PolicySchema) (relation : Relation) (deleted : Key) (side : Side)
    (policy : RelationDeletePolicy) (state : DeleteState) (tableName : String) :
    Deleting DeleteState :=
  let rows := joinTableRows state.1 relation deleted side tableName
  if 0 < rows.length ∧ policy = .restrict then
    .error (manyManyRestricted deleted.2 relation, state.1)
  else if policy = .detach ∨ policy = .cascade ∨ policy = .setNull then
    .ok (deleteJoinTableRows schema relation tableName state.1 rows, state.2)
  else .ok state

def applyRelation (schema : PolicySchema) (recurse : DeleteState → Key → Deleting DeleteState)
    (deleted : Key) (state : DeleteState) (relation : Relation) : Deleting DeleteState :=
  if relation.type = .manyMany then
    match manyManyPolicy relation deleted.1 with
    | none => .ok state
    | some (side, policy) =>
      (joinTablesForDeletedResource relation deleted.1 side).foldlM
        (applyManyManyTable schema relation deleted side policy) state
  else
    match fkPolicyFor relation deleted.1 with
    | none => .ok state
    | some fk => applyFkDeletePolicy recurse relation fk deleted state

/-- Validated first, with no record visited yet. -/
def applyRelationDeletePolicies (schema : PolicySchema)
    (recurse : DeleteState → Key → Deleting DeleteState) (deleted : Key) (state : DeleteState) :
    Deleting DeleteState :=
  match validateRelationDeletePolicies schema state.1 (passFuel state.1) [] deleted with
  | .error fault => .error (fault, state.1)
  | .ok _ => schema.relations.foldlM (applyRelation schema recurse deleted) state

def deleteRecordWithRelationPolicies (schema : PolicySchema) :
    Nat → DeleteState → Key → Deleting DeleteState
  | 0, state, key => if visitKey key ∈ state.2 then .ok state else .error (.outOfFuel, state.1)
  | fuel + 1, state, key =>
    if visitKey key ∈ state.2 then .ok state
    else do
      let state ← applyRelationDeletePolicies schema
        (deleteRecordWithRelationPolicies schema fuel) key (state.1, visitKey key :: state.2)
      .ok (state.1.deleteRecord key, state.2)

/-- The delete of a mutation: the policies, with the record itself not among the visited, and
then the record. -/
def executeDelete (schema : PolicySchema) (fuel : Nat) (store : LocalStore) (key : Key) :
    Deleting DeleteState := do
  let state ← applyRelationDeletePolicies schema
    (deleteRecordWithRelationPolicies schema fuel) key (store, [])
  .ok (state.1.deleteRecord key, state.2)

end SuperFunctions.Datafn.Relations.ServerDelete
