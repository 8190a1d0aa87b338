import SuperFunctions.Datafn.Sync.CloneCompleteness

/-!
# When reconcile restores equality

`reconcileNow` compares counts and clones the resources that differ again. A clone only upserts:
a record the server lacks survives it, and a missing one arrives if the clone lists it.
-/
namespace SuperFunctions.Datafn.Sync.Reconcile

open Lib.OrderedMap Datafn.Core Client.Storage Client.ApplyClone Client.Clone Server.Database
open Server.Clone CloneCompleteness List Option

/-! ## The model -/

/-- A many-many relation of the schema, with all its endpoints. -/
structure ManyManyRelation where
  froms : List String
  relation : String
  tos : List String

/-- `join_${from}_${relation}_${to}` -/
def getJoinStoreKey (fromTable relation toTable : String) : String :=
  "join_" ++ fromTable ++ "_" ++ relation ++ "_" ++ toTable

/-- What both sides know of the schema, and the join counts the server reports. -/
structure ReconcileSchema where
  resources : List String
  relations : List ManyManyRelation
  joinCounts : String → Nat

/-- The count `executeReconcile` reports: a private resource is counted as far as the actor sees
it. -/
def serverCount (server : CloneServer) (resource : String) : Nat :=
  if server.isPrivate resource then
    (filterActorVisibleRows server resource (server.tables resource).sorted).length
  else (server.tables resource).count

def joinMismatch (schema : ReconcileSchema) (store : ClientStore) (relation : String)
    (ends : String × String) : Bool :=
  let key := getJoinStoreKey ends.1 relation ends.2
  store.countJoinRows key ≠ schema.joinCounts key

def pushMissing (mismatched : List String) (resource : String) : List String :=
  if resource ∈ mismatched then mismatched else mismatched ++ [resource]

/-- The resources with another count, and then the ends of the join stores with another count. -/
def mismatchedResources (schema : ReconcileSchema) (server : CloneServer)
    (store : ClientStore) : List String :=
  let byCount := schema.resources.filter fun resource =>
    store.countRecords resource ≠ serverCount server resource
  schema.relations.foldl
    (fun acc relation =>
      ((relation.froms.product relation.tos).filter
        (joinMismatch schema store relation.relation)).foldl
          (fun acc ends => pushMissing (pushMissing acc ends.1) ends.2) acc)
    byCount

/-- Detect drift by counts and repair it by cloning again. -/
def reconcileNow (config : ClonePageSize) (schema : ReconcileSchema) (server : CloneServer)
    (fuel : Nat) (store : ClientStore) : Option ClientStore :=
  if cloneable server schema.resources then
    let mismatched := mismatchedResources schema server store
    if mismatched = [] then some store else cloneResources config server fuel mismatched store
  else none

/-! ## Which ids a clone leaves in the store -/

def Has (store : ClientStore) (resource id : String) : Prop := (store.getRecord resource id).isSome

instance (store : ClientStore) (resource id : String) : Decidable (Has store resource id) :=
  inferInstanceAs (Decidable (_ = true))

/-- The rows a clone of `tables` writes into a public table. -/
def clonedRows (config : ClonePageSize) (server : CloneServer) (tables : List String)
    (table : String) : List (String × Record) :=
  if usesPaginatedClone config tables then (server.tables table).sorted
  else answeredRows server tables table

variable {id : String}

section Presence

variable {server : CloneServer} {store store' : ClientStore} {table : String}

theorem has_of_lastWrite {rows : List (String × Record)}
    (hrows : ∀ row ∈ rows, row ∈ (server.tables table).sorted)
    (h : (lastWrite (filterActorVisibleRows server table rows) id).isSome) :
    ∃ row ∈ rows, row.1 = id := by
  obtain ⟨r, hr⟩ := isSome_iff_exists.mp h
  have hid : recordId r = some id := by simpa using find?_some hr
  obtain ⟨id', hmem, -⟩ :=
    mem_filterActorVisibleRows.mp (mem_reverse.mp (mem_of_find?_eq_some hr))
  exact ⟨_, hmem, recordId_row (hrows _ hmem) hid⟩

variable {afterId : Option String}

theorem applyPage_only {pageSize : Nat}
    (hok : (executeClonePage server table afterId pageSize).ok = true)
    (h : applyCloneResult store (executeClonePage server table afterId pageSize) = some store')
    {t : String} (hhas : Has store' t id) :
    Has store t id ∨ (t = table ∧ ∃ row ∈ (server.tables table).sorted, row.1 = id) := by
  unfold Has at hhas
  rw [(applyCloneResult_spec hok h).1, executeClonePage_ok hok] at hhas
  simp only [OMap.get_set] at hhas
  by_cases ht : t = table
  · rw [if_pos ht, bind_some, isSome_or, Bool.or_eq_true] at hhas
    rcases hhas with hnew | hold
    · obtain ⟨row, hrow, hid⟩ := has_of_lastWrite (fun row hrow => pageRows_subset hrow) hnew
      exact .inr ⟨ht, row, pageRows_subset hrow, hid⟩
    · exact .inl hold
  · rw [if_neg ht] at hhas
    exact .inl hhas

theorem applyCloneResult_keeps {result : CloneResult} (hok : result.ok = true)
    (h : applyCloneResult store result = some store') {t : String} (hhas : Has store t id) :
    Has store' t id := by
  unfold Has at hhas ⊢
  rw [(applyCloneResult_spec hok h).1, isSome_or, hhas, Bool.or_true]

variable {P : ClientStore → Prop}

/-- The induction rule of a clone by pages: what every applied page preserves. -/
theorem cloneTablePaginated_invariant {pageSize fuel : Nat}
    (hpage : ∀ afterId s s', (executeClonePage server table afterId pageSize).ok = true →
      applyCloneResult s (executeClonePage server table afterId pageSize) = some s' → P s → P s')
    (h : cloneTablePaginated server table pageSize fuel afterId store = some store')
    (hstore : P store) : P store' := by
  induction fuel generalizing afterId store with
  | zero => exact absurd h (by simp [cloneTablePaginated])
  | succ fuel ih =>
    simp only [cloneTablePaginated] at h
    split at h
    case isFalse => cases h
    rename_i hok
    obtain ⟨applied, happlied, h⟩ := bind_eq_some_iff.mp h
    have happlied := hpage _ _ _ hok happlied hstore
    split at h
    · cases h
      exact happlied
    · exact ih h happlied

theorem clonePages_invariant {pageSize fuel : Nat} {ts : List String}
    (hpage : ∀ table ∈ ts, ∀ afterId s s',
      (executeClonePage server table afterId pageSize).ok = true →
      applyCloneResult s (executeClonePage server table afterId pageSize) = some s' → P s → P s')
    (h : ts.foldlM (fun s table => cloneTablePaginated server table pageSize fuel none s) store =
      some store') (hstore : P store) : P store' := by
  induction ts generalizing store with
  | nil =>
    cases h
    exact hstore
  | cons u ts ih =>
    obtain ⟨mid, hmid, hrest⟩ := bind_eq_some_iff.mp h
    obtain ⟨hfirst, hpage⟩ := forall_mem_cons.mp hpage
    exact ih hpage hrest (cloneTablePaginated_invariant hfirst hmid hstore)

variable {tables : List String}

theorem answeredRows_subset {row : String × Record} (h : row ∈ answeredRows server tables table) :
    row ∈ (server.tables table).sorted := by
  unfold answeredRows at h
  split at h
  · exact mem_of_mem_take h
  · exact h

theorem executeClone_only (hok : (executeClone server tables).ok = true)
    (h : applyCloneResult store (executeClone server tables) = some store') {t : String}
    (hhas : Has store' t id) :
    Has store t id ∨ (t ∈ tables ∧ ∃ row ∈ answeredRows server tables t, row.1 = id) := by
  have hcloneable : cloneable server tables = true := by rw [← executeClone_ok, hok]
  have hget := executeClone_data hcloneable t
  unfold Has at hhas
  rw [(applyCloneResult_spec hok h).1, hget] at hhas
  by_cases ht : t ∈ tables
  · rw [if_pos ht, bind_some, isSome_or, Bool.or_eq_true] at hhas
    rcases hhas with hnew | hold
    · exact .inr ⟨ht, has_of_lastWrite (fun row hrow => answeredRows_subset hrow) hnew⟩
    · exact .inl hold
  · rw [if_neg ht] at hhas
    exact .inl hhas

theorem has_cloneResources_iff {config : ClonePageSize} {fuel : Nat}
    (h : cloneResources config server fuel tables store = some store')
    (hpublic : server.isPrivate table = false) (id : String) :
    Has store' table id ↔
      Has store table id ∨
        (table ∈ tables ∧ ∃ row ∈ clonedRows config server tables table, row.1 = id) := by
  have hvis : ∀ row, visibleRow server table row = true := fun row => by simp [visibleRow, hpublic]
  obtain ⟨hydrating, hmark, h⟩ := bind_eq_some_iff.mp h
  obtain ⟨cloned, hclone, h⟩ := bind_eq_some_iff.mp h
  obtain ⟨hrec, -, -⟩ := ensureAllReady_spec h
  have hlast : Has store' table id ↔ Has cloned table id := by
    unfold Has
    rw [hrec]
  have hfirst : Has hydrating table id ↔ Has store table id := by
    unfold Has
    rw [markHydrating_records hmark]
  have hrow_held : ∀ {row : String × Record}, row.1 = id →
      cloned.getRecord table row.1 = some row.2 → Has cloned table id := by
    intro row hid hheld
    unfold Has
    rw [← hid, hheld]
    rfl
  rw [hlast, ← hfirst]
  unfold fetchTables at hclone
  unfold clonedRows
  split at hclone
  case isTrue hpaged =>
    rw [if_pos hpaged]
    have hsize : pageSizeFor config tables ≠ 0 := by
      simp only [usesPaginatedClone, Bool.and_eq_true, decide_eq_true_eq] at hpaged
      exact hpaged.1
    refine ⟨clonePages_invariant (P := fun s => Has s table id → _)
      (fun t ht _ _ _ hok hpage hfrom hhas => ?_) hclone .inl, ?_⟩
    · rcases applyPage_only hok hpage hhas with hold | ⟨rfl, hrow⟩
      · exact hfrom hold
      · exact .inr ⟨ht, hrow⟩
    rintro (hhas | ⟨ht, row, hrow, hid⟩)
    · exact clonePages_invariant (P := fun s => Has s table id)
        (fun _ _ _ _ _ hok hpage => applyCloneResult_keeps hok hpage) hclone hhas
    · exact hrow_held hid ((clonePages_spec hsize hclone).1 table ht row hrow (hvis row))
  case isFalse hpaged =>
    rw [if_neg hpaged]
    simp only at hclone
    split at hclone
    case isFalse => cases hclone
    rename_i hok
    refine ⟨fun hhas => executeClone_only hok hclone hhas, ?_⟩
    rintro (hhas | ⟨ht, row, hrow, hid⟩)
    · exact applyCloneResult_keeps hok hclone hhas
    · exact hrow_held hid ((executeClone_applied hok hclone ht (answeredRows_subset hrow)
        (hvis row)).mpr (.inl hrow))

end Presence

/-! ## Detection by counts -/

section Detection

variable {config : ClonePageSize} {schema : ReconcileSchema} {server : CloneServer} {fuel : Nat}
  {store store' : ClientStore}

def OnServer (server : CloneServer) (resource id : String) : Prop :=
  ∃ row ∈ (server.tables resource).sorted, row.1 = id

variable {resource r : String}

theorem mem_pushMissing {mismatched : List String} :
    r ∈ pushMissing mismatched resource ↔ r ∈ mismatched ∨ r = resource := by
  unfold pushMissing
  split
  case isTrue h =>
    refine ⟨.inl, ?_⟩
    rintro (hr | rfl)
    · exact hr
    · exact h
  case isFalse => simp

theorem mem_foldl_pushMissing {pairs : List (String × String)} {acc : List String} (h : r ∈ acc) :
    r ∈ pairs.foldl (fun acc ends => pushMissing (pushMissing acc ends.1) ends.2) acc := by
  induction pairs generalizing acc with
  | nil => exact h
  | cons p ps ih => exact ih (mem_pushMissing.mpr (.inl (mem_pushMissing.mpr (.inl h))))

theorem count_eq_of_not_mismatched (hr : resource ∈ schema.resources)
    (h : resource ∉ mismatchedResources schema server store) :
    store.countRecords resource = serverCount server resource := by
  by_contra hne
  refine h ?_
  unfold mismatchedResources
  have hmem : resource ∈ schema.resources.filter fun resource =>
      store.countRecords resource ≠ serverCount server resource :=
    mem_filter.mpr ⟨hr, by simpa using hne⟩
  generalize (schema.resources.filter fun resource =>
    store.countRecords resource ≠ serverCount server resource) = acc at hmem
  induction schema.relations generalizing acc with
  | nil => exact hmem
  | cons relation relations ih => exact ih _ (mem_foldl_pushMissing hmem)

theorem has_of_count_eq (hpublic : server.isPrivate resource = false)
    (hcount : store.countRecords resource = serverCount server resource)
    (hsub : ∀ id, Has store resource id → OnServer server resource id)
    (hid : OnServer server resource id) : Has store resource id := by
  have hkeys : ∀ id, id ∈ (store.records resource).keys ↔ Has store resource id := by
    intro id
    rw [Finmap.mem_keys, ← Finmap.lookup_isSome]
    rfl
  have hserver : ∀ id, id ∈ ((server.tables resource).sorted.map Prod.fst).toFinset ↔
      OnServer server resource id := by
    intro id
    simp [OnServer]
  have hnodup : ((server.tables resource).sorted.map Prod.fst).Nodup := by
    unfold List.Nodup
    rw [pairwise_map]
    exact (server.tables resource).increasing_sorted.imp fun hlt => ne_of_lt hlt
  have hcard : ((server.tables resource).sorted.map Prod.fst).toFinset.card ≤
      (store.records resource).keys.card := by
    rw [toFinset_card_of_nodup hnodup, length_map, DbTable.length_sorted]
    have hs : serverCount server resource = (server.tables resource).count := by
      simp [serverCount, hpublic]
    exact (hcount.trans hs).ge
  have hincl : (store.records resource).keys ⊆
      ((server.tables resource).sorted.map Prod.fst).toFinset := by
    intro k hk
    exact (hserver k).mpr (hsub k ((hkeys k).mp hk))
  have heq := Finset.eq_of_subset_of_card_le hincl hcard
  exact (hkeys id).mp (heq ▸ (hserver id).mpr hid)

/-- The local ids of every reconciled public resource are the server's. -/
def Repaired (schema : ReconcileSchema) (server : CloneServer) (store : ClientStore) : Prop :=
  ∀ resource ∈ schema.resources, server.isPrivate resource = false →
    ∀ id, Has store resource id ↔ OnServer server resource id

end Detection

/-! ## A stale record that survives -/

def sampleSchema : ReconcileSchema := ⟨["notes"], [], fun _ => 0⟩

/-- The notes "a" and "b" of the server, and a note "z" it no longer has. -/
def staleStore : ClientStore :=
  { emptyStore with
    records := fun r => if r = "notes" then
      ((Finmap.singleton "a" (sampleRecord "a")).insert "b" (sampleRecord "b")).insert "z"
        (sampleRecord "z") else ∅ }

end SuperFunctions.Datafn.Sync.Reconcile
