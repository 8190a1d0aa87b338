import SuperFunctions.Datafn.Relations.DeletePolicies
import SuperFunctions.Lib.MarkedWalk

/-!
# Inactive ancestors

A record whose ancestor is archived or trashed carries a flag. After a change the flag is worked
out again down the relations that inherit it. The walk comes to an end on every store, and
writes nothing but the flag.
-/
namespace SuperFunctions.Datafn.Relations.InactivePropagation

open Lib.MarkedWalk Datafn.Core Core.Endpoints DeletePolicies

def joinHtreePath (parentPath : Option Value) (parentId : String) : String :=
  if parentId = "" then ""
  else match parentPath with
    | some (.str path) => if path = "" then parentId else path ++ "-" ++ parentId
    | _ => parentId

def isRecordInactive (record : Row) : Bool :=
  record.field "isArchived" = some (.bool true) ∨
    ¬(record.field "trashedAt" = none ∨ record.field "trashedAt" = some .null)

def isRecordEffectivelyInactive (record : Option Row) : Bool :=
  match record with
  | some row => isRecordInactive row || row.field "isAncestorInactive" = some (.bool true)
  | none => false

def dependentEndpoint (relation : Relation) : List String :=
  if relation.type = .manyOne then relation.fromResources else relation.toResources

/-- The record that the foreign key of a relation names. -/
def ancestorKey (schema : PolicySchema) (relation : Relation) (resource : String) (record : Row) :
    Option Key :=
  let ancestor := fun (fkField : String) (endpoint : List String) (fallback : String) =>
    match record.field fkField with
    | some (.str parentId) =>
      if parentId = "" then none
      else some
        ((resolveEndpointResource schema.endpoints endpoint parentId).getD fallback, parentId)
    | _ => none
  match relation.type with
  | .htree => ancestor (htreeFkField relation) relation.fromResources resource
  | .manyOne =>
    ancestor (relationFkFieldForManyOne relation.toRelationSchema) relation.toResources
      (firstEndpoint relation.toResources)
  | .oneMany =>
    ancestor (relationFkFieldForOneMany relation.toRelationSchema) relation.fromResources
      (firstEndpoint relation.fromResources)
  | .manyMany => none

def resolveAncestorInactive (schema : PolicySchema) (store : LocalStore) (resource : String)
    (record : Row) : Bool :=
  schema.relations.any fun relation =>
    relation.inheritsInactive && decide (resource ∈ dependentEndpoint relation) &&
      match ancestorKey schema relation resource record with
      | some parent => isRecordEffectivelyInactive (store.getRecord parent)
      | none => false

def resourceRequiresAncestorInactive (schema : PolicySchema) (resource : String) : Bool :=
  schema.relations.any fun relation =>
    relation.inheritsInactive && decide (relation.type ≠ .manyMany) &&
      decide (resource ∈ dependentEndpoint relation)

/-- The record with its flag worked out again, if that changes it. -/
def updateAncestorInactive (schema : PolicySchema) (store : LocalStore) (resource : String)
    (record : Row) : Except Fault (LocalStore × Option Row) :=
  if resourceRequiresAncestorInactive schema resource = false then .ok (store, none)
  else
    let next := resolveAncestorInactive schema store resource record
    if record.field "isAncestorInactive" = some (.bool next) then .ok (store, none)
    else do
      let updated := record.write "isAncestorInactive" (.bool next)
      let store' ← store.upsertRecord resource updated
      .ok (store', some updated)

/-- The store and what has been queued. -/
abbrev Queued := LocalStore × List Key

def propagateChild (schema : PolicySchema) (childResource : String) (state : Queued)
    (child : Row) : Except Fault Queued := do
  let (store, changed) ← updateAncestorInactive schema state.1 childResource child
  .ok (store, if changed.isSome then state.2 ++ [(childResource, child.id)] else state.2)

def propagateChildren (schema : PolicySchema) (children : LocalStore → String → List Row)
    (state : Queued) (childResource : String) : Except Fault Queued :=
  (children state.1 childResource).foldlM (propagateChild schema childResource) state

def propagateRelation (schema : PolicySchema) (seed : Key) (source : Row) (state : Queued)
    (relation : Relation) : Except Fault Queued :=
  if relation.inheritsInactive = false then .ok state
  else match relation.type with
    | .htree =>
      if seed.1 ∈ relation.fromResources then
        let childPath := joinHtreePath (source.field (htreePathField relation)) seed.2
        propagateChildren schema
          (fun store resource => (store.listRecords resource).filter fun child =>
            child.field (htreePathField relation) = some (.str childPath))
          state (firstEndpoint relation.toResources)
      else .ok state
    | .manyOne =>
      if seed.1 ∈ relation.toResources then
        relation.fromResources.foldlM
          (propagateChildren schema fun store resource => store.findRecords resource
            (relationFkFieldForManyOne relation.toRelationSchema) (.str seed.2)) state
      else .ok state
    | .oneMany =>
      if seed.1 ∈ relation.fromResources then
        relation.toResources.foldlM
          (propagateChildren schema fun store resource => store.findRecords resource
            (relationFkFieldForOneMany relation.toRelationSchema) (.str seed.2)) state
      else .ok state
    | .manyMany => .ok state

/-- The store, the seeds processed and the seeds queued. -/
abbrev Pass := LocalStore × List String × List Key

def processSeed (schema : PolicySchema) (state : Pass) (seed : Key) : Except Fault Pass :=
  let (store, processed, queued) := state
  if visitKey seed ∈ processed then .ok state
  else match store.getRecord seed with
    | none => .ok (store, visitKey seed :: processed, queued)
    | some record => do
      let (store, updated) ← updateAncestorInactive schema store seed.1 record
      let (store, queued) ← schema.relations.foldlM
        (propagateRelation schema seed (updated.getD record)) (store, queued)
      .ok (store, visitKey seed :: processed, queued)

/-- The queue is worked off in passes: what one pass queues is the queue of the next. -/
def propagatePasses (schema : PolicySchema) :
    Nat → LocalStore → List String → List Key → Except Fault LocalStore
  | _, store, _, [] => .ok store
  | 0, _, _, _ :: _ => .error .outOfFuel
  | fuel + 1, store, processed, seed :: queue => do
    let (store, processed, queued) ←
      (seed :: queue).foldlM (processSeed schema) (store, processed, [])
    propagatePasses schema fuel store processed queued

def applyInactivePropagation (schema : PolicySchema) (store : LocalStore) (seeds : List Key) :
    Except Fault LocalStore :=
  propagatePasses schema (store.records.entries.length + 1) store [] seeds

/-! ## It ends, and only the flag changes -/

variable {schema : PolicySchema} {store before : LocalStore} {resource : String} {record : Row}

theorem weakens_flag (next : Bool) :
    Weakens schema record (record.write "isAncestorInactive" (.bool next)) := by
  intro field text hfield
  rw [Row.field_write (by decide)] at hfield
  split at hfield
  · cases hfield
  · exact .inl hfield

theorem updateAncestorInactive_ok (hbefore : Rewrites schema before store)
    (hget : before.getRecord (resource, record.id) = some record) :
    ∃ store' updated, updateAncestorInactive schema store resource record = .ok (store', updated) ∧
      Rewrites schema before store' := by
  unfold updateAncestorInactive
  split
  · exact ⟨store, none, rfl, hbefore⟩
  dsimp only
  split
  · exact ⟨store, none, rfl, hbefore⟩
  have hid : (record.write "isAncestorInactive"
      (.bool (resolveAncestorInactive schema store resource record))).id = record.id :=
    Row.id_write (by decide)
  have hne : (record.write "isAncestorInactive"
      (.bool (resolveAncestorInactive schema store resource record))).id ≠ "" := by
    rw [hid]
    exact LocalStore.id_ne_of_getRecord hget
  obtain ⟨store', hwrite⟩ := LocalStore.upsertRecord_ok hne
  rw [hwrite]
  exact ⟨store', _, rfl, hbefore.upsert hget hid (weakens_flag _) hwrite⟩

theorem propagateChildren_ok {children : LocalStore → String → List Row}
    (hchildren : ∀ store resource child, child ∈ children store resource →
      child ∈ store.listRecords resource)
    {state : Queued} (hbefore : Rewrites schema before state.1) (childResource : String) :
    ∃ state', propagateChildren schema children state childResource = .ok state' ∧
      Rewrites schema before state'.1 := by
  have htotal : ∃ state', (children state.1 childResource).foldlM
      (propagateChild schema childResource) state = .ok state' ∧
      Rewrites schema state.1 state'.1 := by
    apply foldlM_total (P := fun state' : Queued => Rewrites schema state.1 state'.1)
    · intro child hchild state' hstate'
      have hlisted := LocalStore.mem_listRecords.mp (hchildren _ _ child hchild)
      obtain ⟨store', updated, hupdate, hrewrites⟩ := updateAncestorInactive_ok hstate' hlisted
      unfold propagateChild
      rw [hupdate]
      exact ⟨_, rfl, hrewrites⟩
    · exact Rewrites.refl
  obtain ⟨state', hfold, hrewrites⟩ := htotal
  exact ⟨state', hfold, hbefore.trans hrewrites⟩

theorem mem_listRecords_of_mem_findRecords {field : String} {value : Value} {child : Row}
    (h : child ∈ store.findRecords resource field value) : child ∈ store.listRecords resource :=
  List.mem_of_mem_filter h

theorem propagateRelation_ok {seed : Key} {source : Row} {relation : Relation} {state : Queued}
    (hbefore : Rewrites schema before state.1) :
    ∃ state', propagateRelation schema seed source state relation = .ok state' ∧
      Rewrites schema before state'.1 := by
  have hloop : ∀ field (resources : List String),
      ∃ state', resources.foldlM (propagateChildren schema fun store resource =>
          store.findRecords resource field (.str seed.2)) state = .ok state' ∧
        Rewrites schema before state'.1 := by
    intro field resources
    apply foldlM_total (P := fun state' : Queued => Rewrites schema before state'.1)
    · intro resource _ state' hstate'
      exact propagateChildren_ok
        (fun _ _ _ hchild => mem_listRecords_of_mem_findRecords hchild) hstate' resource
    · exact hbefore
  unfold propagateRelation
  split
  · exact ⟨state, rfl, hbefore⟩
  cases relation.type with
  | htree =>
    dsimp only
    split
    · exact propagateChildren_ok (fun _ _ _ hchild => List.mem_of_mem_filter hchild) hbefore _
    · exact ⟨state, rfl, hbefore⟩
  | manyOne | oneMany =>
    dsimp only
    split
    · exact hloop _ _
    · exact ⟨state, rfl, hbefore⟩
  | manyMany => exact ⟨state, rfl, hbefore⟩

/-- During a pass: unless nothing is queued, some record has been processed. -/
structure PassInv (schema : PolicySchema) (before : LocalStore) (processed : List String)
    (state : Pass) : Prop where
  rewrites : Rewrites schema before state.1
  marks : processed ⊆ state.2.1
  progress : state.2.2 = [] ∨ unmarked state.1 state.2.1 < unmarked before processed

theorem processSeed_ok {processed : List String} {state : Pass}
    (hinv : PassInv schema before processed state) (seed : Key) :
    ∃ state', processSeed schema state seed = .ok state' ∧
      PassInv schema before processed state' := by
  obtain ⟨store, marked, queued⟩ := state
  unfold processSeed
  dsimp only
  split
  · exact ⟨_, rfl, hinv⟩
  case isFalse hfresh =>
    have hsame : Shrinks schema store store := Shrinks.refl
    have hmarks : processed ⊆ visitKey seed :: marked :=
      fun t ht => List.mem_cons_of_mem _ (hinv.marks ht)
    cases hget : store.getRecord seed with
    | none =>
      refine ⟨_, rfl, hinv.rewrites, hmarks, ?_⟩
      rcases hinv.progress with hempty | hlt
      · exact .inl hempty
      · exact .inr (lt_of_le_of_lt (unmarked_le hsame fun t ht => List.mem_cons_of_mem _ ht) hlt)
    | some record =>
      have hid := LocalStore.id_of_getRecord hget
      have hlisted : store.getRecord (seed.1, record.id) = some record := by rw [hid, hget]
      obtain ⟨store', updated, hupdate, hrewrites⟩ :=
        updateAncestorInactive_ok Rewrites.refl hlisted
      have htotal : ∃ state', schema.relations.foldlM
          (propagateRelation schema seed (updated.getD record)) (store', queued) = .ok state' ∧
          Rewrites schema store state'.1 := by
        apply foldlM_total (P := fun state' : Queued => Rewrites schema store state'.1)
        · exact fun relation _ state' hstate' => propagateRelation_ok hstate'
        · exact hrewrites
      obtain ⟨⟨store'', queued'⟩, hfold, hrewrites'⟩ := htotal
      simp only [hupdate, bind, Except.bind, hfold]
      refine ⟨_, rfl, hinv.rewrites.trans hrewrites', hmarks, .inr ?_⟩
      -- the seed is a record, so that marking it leaves fewer
      have hlt := unmarked_lt hget hfresh
      have hle := unmarked_le hrewrites'.toShrinks (List.Subset.refl (visitKey seed :: marked))
      have hbase := unmarked_le hinv.rewrites.toShrinks hinv.marks
      exact lt_of_le_of_lt hle (lt_of_lt_of_le hlt hbase)

theorem propagatePasses_ok (fuel : Nat) :
    ∀ {store : LocalStore} {processed : List String} {seeds : List Key},
      (seeds = [] ∨ unmarked store processed < fuel) →
      ∃ store', propagatePasses schema fuel store processed seeds = .ok store' ∧
        Rewrites schema store store' := by
  induction fuel with
  | zero =>
    intro store processed seeds hfuel
    rcases hfuel with rfl | hlt
    · exact ⟨store, rfl, Rewrites.refl⟩
    · omega
  | succ fuel ih =>
    intro store processed seeds hfuel
    cases seeds with
    | nil => exact ⟨store, rfl, Rewrites.refl⟩
    | cons seed queue =>
      have hlt : unmarked store processed < fuel + 1 := by
        rcases hfuel with h | h
        · cases h
        · exact h
      have htotal : ∃ state, (seed :: queue).foldlM (processSeed schema)
          (store, processed, []) = .ok state ∧ PassInv schema store processed state := by
        apply foldlM_total (P := PassInv schema store processed)
        · exact fun other _ state hstate => processSeed_ok hstate other
        · exact ⟨Rewrites.refl, List.Subset.refl _, .inl rfl⟩
      obtain ⟨⟨store', processed', queued⟩, hfold, hinv⟩ := htotal
      have hnext : queued = [] ∨ unmarked store' processed' < fuel := by
        rcases hinv.progress with hempty | hless
        · exact .inl hempty
        · have hless : unmarked store' processed' < unmarked store processed := hless
          exact .inr (by omega)
      obtain ⟨store'', hrest, hrewrites⟩ := ih hnext
      refine ⟨store'', ?_, hinv.rewrites.trans hrewrites⟩
      rwa [propagatePasses, hfold]

theorem applyInactivePropagation_ok (store : LocalStore) (seeds : List Key) :
    ∃ store', applyInactivePropagation schema store seeds = .ok store' ∧
      Rewrites schema store store' := by
  apply propagatePasses_ok
  have hle : unmarked store [] ≤ store.records.entries.length := unmarked_le_length
  exact .inr (by omega)

end SuperFunctions.Datafn.Relations.InactivePropagation
