import SuperFunctions.Datafn.Client.ApplyPull
import SuperFunctions.Datafn.Server.PullPage

/-!
# A pull page against the replay of its changes

The page loses the sequence order: all upserts come first, then all merges, then all deletes.
The replay applies the selected changes one by one; the condition says, record by record and
join row by join row, when the two leave the same store.
-/
namespace SuperFunctions.Datafn.Sync.PullReplay

open Lib.Objects Lib.OrderedMap Datafn.Core Client.Storage Client.ApplyPull
open Server.ChangeLog Server.Pull Server.PullPage List Option Finmap

/-! ## The replay -/

/-- The key of the row a join change names: the edge in its record, or else its id. -/
def changedJoinKey (c : ChangeEntry) : String :=
  match c.record.bind fun row => row.lookup "from", c.record.bind fun row => row.lookup "to" with
  | some (.str fromId), some (.str toId) => joinKey fromId toId
  | _, _ => c.id

/-- The adapter call that applies one change by itself. -/
def changeCall (c : ChangeEntry) : Option StorageCall :=
  if isJoinStoreKey c.resource then
    match c.op, c.record with
    | .insert, some row | .replace, some row | .upsert, some row =>
      some (.upsertJoinRow c.resource row)
    | .delete, _ => some (.deleteJoinRow c.resource (changedJoinKey c))
    | _, _ => none
  else if isDataResourceKey c.resource then
    match c.op, c.record with
    | .insert, some record | .replace, some record | .upsert, some record =>
      some (.upsertRecord c.resource record)
    | .merge, some record => some (.mergeRecord c.resource record)
    | .delete, _ => some (.deleteRecord c.resource c.id)
    | _, _ => none
  else none

def replayChanges (store : ClientStore) (changes : List ChangeEntry) : Option ClientStore :=
  performAll store (changes.filterMap changeCall)

/-- The same records of every public resource and the same rows of every join store. -/
structure AgreeOnSynced (isPrivate : String → Bool) (a b : ClientStore) : Prop where
  records : ∀ resource, isDataResourceKey resource = true → isPrivate resource = false →
    a.records resource = b.records resource
  joins : ∀ relationKey, isJoinStoreKey relationKey = true →
    a.joinRows relationKey = b.joinRows relationKey

/-! ## The condition -/

/-- The record as the last full write or delete leaves it, and the merges since. -/
def settle (state : Option Record × List Record) : RecordEffect → Option Record × List Record
  | .write record => (some record, [])
  | .patch partialRecord => (state.1, state.2 ++ [partialRecord])
  | .remove => (none, [])

def settled (old : Option Record) (effects : List RecordEffect) : Option Record × List Record :=
  effects.foldl settle (old, [])

/-- A field after the values of several merges. -/
def mergedField (old : Option Value) (values : List Value) : Option Value :=
  values.foldl (fun field value => some (mergeValue field value)) old

/-- What the selected changes do to one record when they are applied one by one. -/
def logEffects (resource id : String) (changes : List ChangeEntry) : List RecordEffect :=
  (changes.filterMap changeCall).filterMap (StorageCall.recordEffect resource id)

/-- A deleted record is deleted by its last change. Otherwise, in every field, the last of
all merged values over the last full write is what the merges after that write make of it. -/
def RecordReplays (old : Option Record) (effects : List RecordEffect)
    (writes merges : List Record) (deleted : Prop) : Prop :=
  let base := (settled old effects).1
  let since := (settled old effects).2
  let written := writes.getLast?.or old
  (deleted → base = none ∧ since = []) ∧
    (¬ deleted →
      ((base.isSome ∨ since ≠ []) ↔ (written.isSome ∨ merges ≠ [])) ∧
      ∀ field,
        mergedField (base.bind fun record => record.lookup field)
            (since.filterMap fun row => row.lookup field) =
          mergedField (written.bind fun record => record.lookup field)
            ((merges.filterMap fun row => row.lookup field).getLast?).toList)

def logJoinEffects (relationKey key : String) (changes : List ChangeEntry) :
    List (Option JoinRow) :=
  (changes.filterMap changeCall).filterMap (StorageCall.joinEffect relationKey key)

/-- The last row the page upserts under a key, in the order of the row ids. -/
def listedJoinRow (relationKey key : String) (changes : List ChangeEntry) : Option JoinRow :=
  let listed := (sortJoinDelta
    ⟨joinUpserts relationKey changes, deletedEdges relationKey changes⟩).upsert
  ((listed.filter fun row => edgeText row = key).getLast?).map toJoinRow

def deletesJoinKey (relationKey key : String) (changes : List ChangeEntry) : Prop :=
  ∃ edge ∈ deletedEdges relationKey changes, joinKey edge.1 edge.2 = key

/-- The page's last upsert and its deletes of a key are those of the key's last change. -/
def JoinReplays (old : Option JoinRow) (effects : List (Option JoinRow))
    (row : Option JoinRow) (deleted : Prop) : Prop :=
  match effects.getLast? with
  | none => deleted → old = none
  | some (some last) => ¬ deleted ∧ row = some last
  | some none => deleted ∨ row = none ∧ old = none

structure ReplaysInOrder (isPrivate : String → Bool) (visible : List VisibilityChange)
    (changes : List ChangeEntry) (store : ClientStore) : Prop where
  readable : ∀ call ∈ changes.filterMap changeCall, call.performable = true
  records : ∀ resource, isDataResourceKey resource = true → isPrivate resource = false → ∀ id,
    RecordReplays (store.getRecord resource id) (logEffects resource id changes)
      (rowsOf id (fullRecords resource changes visible)) (rowsOf id (mergeDeltas resource changes))
      (id ∈ deletedIds resource changes visible)
  joins : ∀ relationKey, isJoinStoreKey relationKey = true → ∀ key,
    JoinReplays (store.getJoinRow relationKey key) (logJoinEffects relationKey key changes)
      (listedJoinRow relationKey key changes) (deletesJoinKey relationKey key changes)

/-! ## One record -/

/-- The merges `rows`, one by one over `base`. -/
def patchAll (id : String) (base : Option Record) (rows : List Record) : Option Record :=
  rows.foldl (fun record row => some (mergeInto id record row)) base

theorem isSome_patchAll (id : String) (base : Option Record) (rows : List Record) :
    (patchAll id base rows).isSome ↔ base.isSome ∨ rows ≠ [] := by
  unfold patchAll
  induction rows generalizing base with
  | nil => simp
  | cons row rows ih =>
    rw [foldl_cons, ih]
    simp

theorem lookup_mergeInto {id : String} {row : Record} (old : Option Record)
    (hid : row.lookup "id" = some (.str id)) (field : String) :
    (mergeInto id old row).lookup field =
      match row.lookup field with
      | none => old.bind fun record => record.lookup field
      | some value =>
        some (mergeValue (old.bind fun record => record.lookup field) value) := by
  unfold mergeInto
  rw [Assoc.lookup_insert_ite]
  by_cases hfield : field = "id"
  · rw [if_pos hfield, hfield, hid]
    rfl
  rw [if_neg hfield]
  cases old with
  | none =>
    cases hrow : row.lookup field with
    | none => simp
    | some value => cases value <;> simp [mergeValue]
  | some record => rw [lookup_deepMergeOneLevel]; rfl

theorem lookup_patchAll {id : String} (rows : List Record)
    (hrows : ∀ row ∈ rows, row.lookup "id" = some (.str id)) (base : Option Record)
    (field : String) :
    (patchAll id base rows).bind (fun record => record.lookup field) =
      mergedField (base.bind fun record => record.lookup field)
        (rows.filterMap fun row => row.lookup field) := by
  unfold patchAll mergedField
  induction rows generalizing base with
  | nil => rfl
  | cons row rows ih =>
    rw [foldl_cons, ih fun x hx => hrows x (mem_cons_of_mem _ hx), filterMap_cons,
      bind_some, lookup_mergeInto base (hrows row mem_cons_self)]
    cases row.lookup field <;> rfl

theorem record_ext_iff (a b : Option Record) :
    a = b ↔ (a.isSome ↔ b.isSome) ∧ ∀ field,
      (a.bind fun record => record.lookup field) = b.bind fun record => record.lookup field := by
  constructor
  · rintro rfl
    exact ⟨Iff.rfl, fun _ => rfl⟩
  rintro ⟨hsome, hfields⟩
  cases a with
  | none => cases b with
    | none => rfl
    | some b => simp at hsome
  | some a => cases b with
    | none => simp at hsome
    | some b => exact congrArg some (ext_lookup hfields)

theorem foldl_apply_settled (id : String) (old : Option Record) (effects : List RecordEffect) :
    effects.foldl (RecordEffect.apply id) old =
      patchAll id (settled old effects).1 (settled old effects).2 := by
  have hstep : ∀ (state : Option Record × List Record),
      effects.foldl (RecordEffect.apply id) (patchAll id state.1 state.2) =
        patchAll id (effects.foldl settle state).1 (effects.foldl settle state).2 := by
    induction effects with
    | nil => exact fun _ => rfl
    | cons effect effects ih =>
      intro state
      rw [foldl_cons, foldl_cons, ← ih]
      cases effect with
      | write record => rfl
      | patch partialRecord => simp [settle, patchAll, RecordEffect.apply]
      | remove => rfl
  exact hstep (old, [])

theorem mem_settled {old : Option Record} {effects : List RecordEffect} {row : Record}
    (h : row ∈ (settled old effects).2) : .patch row ∈ effects := by
  have hstep : ∀ (effects : List RecordEffect) (state : Option Record × List Record),
      row ∈ (effects.foldl settle state).2 → row ∈ state.2 ∨ .patch row ∈ effects := by
    intro effects
    induction effects with
    | nil => exact fun _ h => .inl h
    | cons effect effects ih =>
      intro state hrow
      rcases ih _ hrow with hmem | hmem
      · cases effect with
        | write record | remove => exact absurd hmem (by simp [settle])
        | patch partialRecord =>
          rcases mem_append.mp hmem with hmem | hmem
          · exact .inl hmem
          · rw [mem_singleton.mp hmem]
            exact .inr mem_cons_self
      · exact .inr (mem_cons_of_mem _ hmem)
  exact (hstep effects _ h).resolve_left (by simp)

theorem lookup_id_of_recordId {record : Record} {id : String} (h : recordId record = some id) :
    record.lookup "id" = some (.str id) := by
  unfold recordId at h
  split at h
  case h_1 key hkey =>
    split at h
    · cases h
    · cases h
      exact hkey
  · cases h

variable {changes : List ChangeEntry}

theorem lookup_id_of_patch {resource id : String} {row : Record}
    (h : .patch row ∈ logEffects resource id changes) : row.lookup "id" = some (.str id) := by
  obtain ⟨call, -, hcall⟩ := mem_filterMap.mp h
  cases call with
  | mergeRecord r partialRecord =>
    simp only [StorageCall.recordEffect] at hcall
    split at hcall
    case isTrue hid =>
      cases hcall
      exact lookup_id_of_recordId hid.2
    case isFalse => cases hcall
  | upsertRecord r record | deleteRecord r key => simp [StorageCall.recordEffect] at hcall
  | upsertJoinRow j joinRow | deleteJoinRow j key => simp [StorageCall.recordEffect] at hcall

/-! ## The record after the page -/

section Page

variable {isPrivate : String → Bool} {actor : Option ActorView} {log : List ChangeEntry}
  {maxPullLimit : Option Nat} {request : PullRequest} {page : PullResult}
  {store applied : ClientStore}

theorem executePullCanonical_ok
    (hpage : executePullCanonical isPrivate actor log maxPullLimit request = .ok page) :
    let groups := groupPage isPrivate actor (requestedResourceKeys request)
      (selectPage log maxPullLimit request).merged
    page.records = groups.records.mapValues (fun rows => sortById (lastById rows).values) ∧
      page.merged = groups.merged.mapValues (fun rows => sortById (spreadById rows).values) ∧
      page.deleted = groups.deleted.mapValues (fun ids => ids.dedup.insertionSort (· ≤ ·)) ∧
      page.joins = groups.joins.mapValues sortJoinDelta ∧
      page.cursors = pageCursors actor request (selectPage log maxPullLimit request) := by
  unfold executePullCanonical at hpage
  split at hpage
  · cases hpage
  · cases hpage
    exact ⟨rfl, rfl, rfl, rfl, rfl⟩

theorem applyPullResultCanonical_some
    (happly : applyPullResultCanonical store page = some applied) :
    ∃ filled, performAll store (pageCalls page) = some filled ∧
      applied = moveCursors filled page.cursors := by
  unfold applyPullResultCanonical at happly
  split at happly
  · obtain ⟨filled, hfilled, heq⟩ := map_eq_some_iff.mp happly
    exact ⟨filled, hfilled, heq.symm⟩
  · cases happly

theorem getD_get_mapValues {β γ : Type*} {f : β → γ} {m : OMap String β} (k : String) (d : β)
    (d' : γ) (h : f d = d') : ((m.mapValues f).get k).getD d' = f ((m.get k).getD d) := by
  rw [OMap.get_mapValues]
  cases m.get k with
  | none => exact h.symm
  | some v => rfl

theorem filterMap_eq_of_nodup {α δ : Type*} [DecidableEq α] {l : List α} (h : l.Nodup) (a : α)
    (d : δ) : l.filterMap (fun x => if x = a then some d else none) =
      if a ∈ l then [d] else [] := by
  induction l with
  | nil => rfl
  | cons x l ih =>
    have hcons := nodup_cons.mp h
    rw [filterMap_cons, ih hcons.2]
    by_cases hx : x = a
    · subst hx
      simp [hcons.1]
    · have hne : a ≠ x := fun heq => hx heq.symm
      simp [hx, hne]

theorem effects_flatten {γ δ : Type*} (effect : StorageCall → Option δ)
    (call : String → γ → StorageCall) (resource : String)
    (hother : ∀ r v, r ≠ resource → effect (call r v) = none) (m : OMap String (List γ)) :
    (m.flatten.map fun e => call e.1 e.2).filterMap effect =
      ((m.get resource).getD []).filterMap fun v => effect (call resource v) := by
  rw [filterMap_map]
  exact OMap.filterMap_flatten (fun r v => effect (call r v)) resource hother m

section Record

variable {resource : String} (hdata : isDataResourceKey resource = true)
  (hpublic : isPrivate resource = false)
include hdata hpublic

theorem write_effects (id : String) :
    ((((groupPage isPrivate actor (requestedResourceKeys request)
        (selectPage log maxPullLimit request).merged).records.mapValues fun rows =>
          sortById (lastById rows).values).flatten.map fun e =>
            StorageCall.upsertRecord e.1 e.2).filterMap
        (StorageCall.recordEffect resource id)) =
      ((rowsOf id (fullRecords resource (selectPage log maxPullLimit request).merged
        (visibilityChanges actor))).getLast?.map .write).toList := by
  rw [effects_flatten _ _ resource fun r v hr => if_neg fun h => hr h.1,
    getD_get_mapValues resource [] [] ?_, records_groupPage _ _ _ _ hdata hpublic,
    filterMap_sortById _ id]
  · rw [get_lastById]
    cases hlast : (rowsOf id (fullRecords resource (selectPage log maxPullLimit request).merged
        (visibilityChanges actor))).getLast? with
    | none => rfl
    | some row =>
      have hid := recordId_of_get_lastById ((get_lastById _ id).trans hlast)
      simp [StorageCall.recordEffect, hid]
  · intro key row hrow hne
    have hid := recordId_of_get_lastById hrow
    simp [StorageCall.recordEffect, hid, hne]
  · rfl

theorem patch_effects (id : String) :
    ((((groupPage isPrivate actor (requestedResourceKeys request)
        (selectPage log maxPullLimit request).merged).merged.mapValues fun rows =>
          sortById (spreadById rows).values).flatten.map fun e =>
            StorageCall.mergeRecord e.1 e.2).filterMap
        (StorageCall.recordEffect resource id)) =
      (((spreadById (mergeDeltas resource
        (selectPage log maxPullLimit request).merged)).get id).map .patch).toList := by
  rw [effects_flatten _ _ resource fun r v hr => if_neg fun h => hr h.1,
    getD_get_mapValues resource [] [] ?_, merged_groupPage _ _ _ _ hdata hpublic,
    filterMap_sortById _ id]
  · cases hget : (spreadById (mergeDeltas resource
        (selectPage log maxPullLimit request).merged)).get id with
    | none => rfl
    | some row =>
      have hid := recordId_of_get_spreadById hget
      simp [StorageCall.recordEffect, hid]
  · intro key row hrow hne
    have hid := recordId_of_get_spreadById hrow
    simp [StorageCall.recordEffect, hid, hne]
  · rfl

theorem remove_effects (id : String) :
    ((((groupPage isPrivate actor (requestedResourceKeys request)
        (selectPage log maxPullLimit request).merged).deleted.mapValues fun ids =>
          ids.dedup.insertionSort (· ≤ ·)).flatten.map fun e =>
            StorageCall.deleteRecord e.1 e.2).filterMap
        (StorageCall.recordEffect resource id)) =
      if id ∈ deletedIds resource (selectPage log maxPullLimit request).merged
        (visibilityChanges actor) then [.remove] else [] := by
  rw [effects_flatten _ _ resource fun r v hr => if_neg fun h => hr h.1,
    getD_get_mapValues resource [] [] ?_, deleted_groupPage _ _ _ _ hdata hpublic]
  · have hnodup : ((deletedIds resource (selectPage log maxPullLimit request).merged
        (visibilityChanges actor)).dedup.insertionSort (· ≤ ·)).Nodup :=
      (perm_insertionSort _ _).nodup_iff.mpr (nodup_dedup _)
    have hyield := filterMap_eq_of_nodup hnodup id RecordEffect.remove
    simp only [mem_insertionSort, mem_dedup] at hyield
    rw [← hyield]
    refine filterMap_congr fun key _ => ?_
    simp [StorageCall.recordEffect]
  · rfl

theorem getRecord_page
    (hpage : executePullCanonical isPrivate actor log maxPullLimit request = .ok page)
    (happly : applyPullResultCanonical store page = some applied) (id : String) :
    applied.getRecord resource id =
      if id ∈ deletedIds resource (selectPage log maxPullLimit request).merged
          (visibilityChanges actor) then none
      else patchAll id
        ((rowsOf id (fullRecords resource (selectPage log maxPullLimit request).merged
          (visibilityChanges actor))).getLast?.or (store.getRecord resource id))
        ((spreadById (mergeDeltas resource
          (selectPage log maxPullLimit request).merged)).get id).toList := by
  obtain ⟨filled, hfilled, rfl⟩ := applyPullResultCanonical_some happly
  obtain ⟨hrecords, hmerged, hdeleted, -, -⟩ := executePullCanonical_ok hpage
  have hjoins : ((page.joins.mapValues joinWrites).flatten.map fun e =>
      e.2.call e.1).filterMap (StorageCall.recordEffect resource id) = [] := by
    rw [filterMap_map, filterMap_eq_nil_iff]
    rintro ⟨j, write⟩ -
    cases write <;> rfl
  rw [getRecord_moveCursors, getRecord_performAll hfilled, pageCalls, filterMap_append,
    filterMap_append, filterMap_append, hjoins, hrecords, hmerged, hdeleted,
    write_effects hdata hpublic, patch_effects hdata hpublic, remove_effects hdata hpublic,
    append_nil, foldl_append, foldl_append]
  split
  · rfl
  cases (rowsOf id (fullRecords resource (selectPage log maxPullLimit request).merged
      (visibilityChanges actor))).getLast? <;>
    cases (spreadById (mergeDeltas resource
      (selectPage log maxPullLimit request).merged)).get id <;> rfl

end Record

end Page

/-! ## The join row after the page -/

variable {relationKey : String}

section Join

variable {isPrivate : String → Bool} {actor : Option ActorView} {log : List ChangeEntry}
  {maxPullLimit : Option Nat} {request : PullRequest} {page : PullResult}
  {store applied : ClientStore}

theorem getLast?_filterMap_ite {α δ : Type*} (p : α → Prop) [DecidablePred p] (g : α → δ)
    (l : List α) :
    (l.filterMap fun a => if p a then some (g a) else none).getLast? =
      ((l.filter fun a => p a).getLast?).map g := by
  have h : (l.filterMap fun a => if p a then some (g a) else none) =
      (l.filter fun a => p a).map g := by
    induction l with
    | nil => rfl
    | cons a l ih => by_cases ha : p a <;> simp [ha, ih]
  rw [h, getLast?_map]

theorem getJoinRow_page
    (hpage : executePullCanonical isPrivate actor log maxPullLimit request = .ok page)
    (happly : applyPullResultCanonical store page = some applied)
    (hjoin : isJoinStoreKey relationKey = true) (key : String) :
    (deletesJoinKey relationKey key (selectPage log maxPullLimit request).merged →
        applied.getJoinRow relationKey key = none) ∧
      (¬ deletesJoinKey relationKey key (selectPage log maxPullLimit request).merged →
        applied.getJoinRow relationKey key =
          (listedJoinRow relationKey key (selectPage log maxPullLimit request).merged).or
            (store.getJoinRow relationKey key)) := by
  obtain ⟨filled, hfilled, rfl⟩ := applyPullResultCanonical_some happly
  obtain ⟨-, -, -, hjoins, -⟩ := executePullCanonical_ok hpage
  set changes := (selectPage log maxPullLimit request).merged
  have hrecords : ((page.records.flatten.map fun e => StorageCall.upsertRecord e.1 e.2) ++
      (page.merged.flatten.map fun e => StorageCall.mergeRecord e.1 e.2) ++
      (page.deleted.flatten.map fun e => StorageCall.deleteRecord e.1 e.2)).filterMap
        (StorageCall.joinEffect relationKey key) = [] := by
    rw [filterMap_eq_nil_iff]
    intro call hcall
    simp only [mem_append, List.mem_map] at hcall
    rcases hcall with (⟨e, -, rfl⟩ | ⟨e, -, rfl⟩) | ⟨e, -, rfl⟩ <;> rfl
  set delta := sortJoinDelta ⟨joinUpserts relationKey changes,
    deletedEdges relationKey changes⟩ with hdelta
  have hwrites : ((page.joins.mapValues joinWrites).flatten.map fun e =>
      e.2.call e.1).filterMap (StorageCall.joinEffect relationKey key) =
      (delta.upsert.filterMap fun row =>
        if edgeText row = key then some (some (toJoinRow row)) else none) ++
      delta.delete.filterMap fun edge =>
        if joinKey edge.1 edge.2 = key then some none else none := by
    rw [effects_flatten _ (fun r (w : JoinWrite) => w.call r) relationKey,
      getD_get_mapValues relationKey (⟨[], []⟩ : JoinDelta) [], hjoins,
      getD_get_mapValues relationKey (⟨[], []⟩ : JoinDelta) (⟨[], []⟩ : JoinDelta),
      joins_groupPage _ _ _ _ hjoin, ← hdelta,
      joinWrites, filterMap_append, filterMap_map, filterMap_map]
    · simp [Function.comp_def, JoinWrite.call, StorageCall.joinEffect]
    · rfl
    · rfl
    · intro r w hr
      cases w <;> simp [JoinWrite.call, StorageCall.joinEffect, hr]
  have hdeleted : deletesJoinKey relationKey key changes ↔
      ∃ edge ∈ delta.delete, joinKey edge.1 edge.2 = key := by
    unfold deletesJoinKey
    simp only [hdelta, sortJoinDelta, mem_insertionSort]
  rw [getJoinRow_moveCursors, getJoinRow_performAll hfilled, pageCalls, filterMap_append,
    hrecords, hwrites, nil_append, hdeleted, getLast?_append]
  constructor
  · rintro ⟨edge, hedge, hkey⟩
    have hlast : (delta.delete.filterMap fun edge => if joinKey edge.1 edge.2 = key then
        some (none : Option JoinRow) else none).getLast? = some none := by
      rw [getLast?_filterMap_ite]
      have hne : (delta.delete.filter fun edge => joinKey edge.1 edge.2 = key) ≠ [] :=
        ne_nil_of_mem (mem_filter.mpr ⟨hedge, decide_eq_true hkey⟩)
      rw [getLast?_eq_some_getLast hne]
      rfl
    rw [hlast]
    rfl
  · intro hnone
    have hempty : (delta.delete.filterMap fun edge => if joinKey edge.1 edge.2 = key then
        some (none : Option JoinRow) else none) = [] := by
      rw [filterMap_eq_nil_iff]
      intro edge hedge
      rw [if_neg fun hkey => hnone ⟨edge, hedge, hkey⟩]
    rw [hempty, getLast?_filterMap_ite]
    have hlisted : listedJoinRow relationKey key changes =
        ((delta.upsert.filter fun row => edgeText row = key).getLast?).map toJoinRow := rfl
    rw [hlisted]
    cases (delta.upsert.filter fun row => edgeText row = key).getLast? <;> rfl

end Join

/-! ## The page against the replay -/

theorem recordReplays_iff {resource id : String} (rows : List Record) (written old : Option Record)
    (writes : List Record) (deleted : Prop) [Decidable deleted]
    (hwritten : written = writes.getLast?.or old) :
    (if deleted then none
      else patchAll id written ((spreadById rows).get id).toList) =
        (logEffects resource id changes).foldl (RecordEffect.apply id) old ↔
      RecordReplays old (logEffects resource id changes) writes (rowsOf id rows) deleted := by
  rw [foldl_apply_settled]
  unfold RecordReplays
  set base := (settled old (logEffects resource id changes)).1
  set since := (settled old (logEffects resource id changes)).2
  by_cases hdeleted : deleted
  · have habsent : none = patchAll id base since ↔ base = none ∧ since = [] := by
      have hsome := isSome_patchAll id base since
      constructor
      · intro heq
        rw [← heq] at hsome
        simpa using hsome
      · rintro ⟨hbase, hsince⟩
        rw [hbase, hsince]
        rfl
    simp [hdeleted, habsent]
  · have hlast : ((spreadById rows).get id).toList ≠ [] ↔ rowsOf id rows ≠ [] := by
      have hsome := isSome_foldl_spreadOver id (rowsOf id rows)
      rw [← get_spreadById] at hsome
      rw [← hsome]
      cases (spreadById rows).get id <;> simp
    have hsince : ∀ row ∈ since, row.lookup "id" = some (.str id) := fun row hrow =>
      lookup_id_of_patch (mem_settled hrow)
    have hspread : ∀ row ∈ ((spreadById rows).get id).toList, row.lookup "id" = some (.str id) := by
      intro row hrow
      exact lookup_id_of_recordId (recordId_of_get_spreadById (mem_toList.mp hrow))
    have hfield : ∀ field, ((spreadById rows).get id).toList.filterMap
        (fun row => row.lookup field) =
        (((rowsOf id rows).filterMap fun row => row.lookup field).getLast?).toList := by
      intro field
      rw [← lookup_get_spreadById]
      cases hget : (spreadById rows).get id with
      | none => rfl
      | some row => cases hrow : row.lookup field <;> simp [hrow]
    rw [if_neg hdeleted, record_ext_iff, isSome_patchAll, isSome_patchAll, hlast, hwritten]
    simp only [hdeleted, not_false_eq_true, false_implies, true_and, true_implies,
      lookup_patchAll _ hsince, lookup_patchAll _ hspread, hfield]
    rw [iff_comm (a := base.isSome = true ∨ since ≠ [])]
    simp only [eq_comm]

variable {key : String} {row : JoinRow}

theorem mem_logJoinEffects_of_listed (hjoin : isJoinStoreKey relationKey = true)
    (h : listedJoinRow relationKey key changes = some row) :
    some row ∈ logJoinEffects relationKey key changes := by
  obtain ⟨record, hlast, rfl⟩ := map_eq_some_iff.mp h
  obtain ⟨hmem, hkey⟩ := mem_filter.mp (mem_of_getLast? hlast)
  have hupsert : record ∈ joinUpserts relationKey changes := (mem_insertionSort _).mp hmem
  obtain ⟨c, hc, hrecord⟩ := mem_filterMap.mp hupsert
  split at hrecord
  case isFalse => cases hrecord
  rename_i hres
  have hcall : changeCall c = some (.upsertJoinRow relationKey record) := by
    subst hres
    unfold changeCall
    unfold fullRecord at hrecord
    cases hop : c.op <;> simp_all
  refine mem_filterMap.mpr ⟨_, mem_filterMap.mpr ⟨c, hc, hcall⟩, ?_⟩
  have hkey' : edgeText record = key := by simpa using hkey
  simp [StorageCall.joinEffect, hkey']

theorem listed_of_mem_logJoinEffects (h : some row ∈ logJoinEffects relationKey key changes) :
    (listedJoinRow relationKey key changes).isSome := by
  obtain ⟨call, hcalls, heffect⟩ := mem_filterMap.mp h
  obtain ⟨c, hc, hcall⟩ := mem_filterMap.mp hcalls
  cases call with
  | upsertRecord r record | mergeRecord r record => simp [StorageCall.joinEffect] at heffect
  | deleteRecord r k | deleteJoinRow j k => simp [StorageCall.joinEffect] at heffect
  | upsertJoinRow j record =>
    simp only [StorageCall.joinEffect] at heffect
    split at heffect
    case isFalse => cases heffect
    rename_i hkey
    obtain ⟨rfl, hkey⟩ := hkey
    have hrecord : c.resource = j ∧ fullRecord c = some record := by
      unfold changeCall at hcall
      unfold fullRecord
      cases hop : c.op <;> cases hrec : c.record <;> simp [hop, hrec] at hcall ⊢ <;> grind
    have hupsert : record ∈ joinUpserts j changes :=
      mem_filterMap.mpr ⟨c, hc, by rw [if_pos hrecord.1, hrecord.2]⟩
    have hmem : record ∈ (sortJoinDelta ⟨joinUpserts j changes,
        deletedEdges j changes⟩).upsert := (mem_insertionSort _).mpr hupsert
    have hne : ((sortJoinDelta ⟨joinUpserts j changes, deletedEdges j changes⟩).upsert.filter
        fun row => edgeText row = key) ≠ [] :=
      ne_nil_of_mem (mem_filter.mpr ⟨hmem, decide_eq_true hkey⟩)
    simp only [listedJoinRow]
    rw [getLast?_eq_some_getLast hne]
    rfl

theorem joinReplays_iff (hjoin : isJoinStoreKey relationKey = true) (old after : Option JoinRow)
    (hdeleted : deletesJoinKey relationKey key changes → after = none)
    (hkept : ¬ deletesJoinKey relationKey key changes →
      after = (listedJoinRow relationKey key changes).or old) :
    after = ((logJoinEffects relationKey key changes).getLast?).getD old ↔
      JoinReplays old (logJoinEffects relationKey key changes)
        (listedJoinRow relationKey key changes) (deletesJoinKey relationKey key changes) := by
  unfold JoinReplays
  cases hlast : (logJoinEffects relationKey key changes).getLast? with
  | none =>
    have hnone : listedJoinRow relationKey key changes = none := by
      rw [eq_none_iff_forall_ne_some]
      intro row hrow
      have hmem := mem_logJoinEffects_of_listed hjoin hrow
      rw [getLast?_eq_none_iff.mp hlast] at hmem
      cases hmem
    by_cases hdel : deletesJoinKey relationKey key changes
    · simp [hdel, hdeleted hdel, eq_comm]
    · simp [hdel, hkept hdel, hnone]
  | some effect =>
    cases effect with
    | none =>
      by_cases hdel : deletesJoinKey relationKey key changes
      · simp [hdel, hdeleted hdel]
      · simp [hdel, hkept hdel]
    | some row =>
      have hmem : some row ∈ logJoinEffects relationKey key changes := mem_of_getLast? hlast
      by_cases hdel : deletesJoinKey relationKey key changes
      · simp [hdel, hdeleted hdel]
      · obtain ⟨listedRow, hrow⟩ :=
          isSome_iff_exists.mp (listed_of_mem_logJoinEffects hmem)
        simp [hdel, hkept hdel, hrow]

section Main

variable (isPrivate : String → Bool) (actor : Option ActorView) (log : List ChangeEntry)
  (maxPullLimit : Option Nat) (request : PullRequest) {page : PullResult} (store : ClientStore)

/-- The page applies to every store that holds no cursor beyond those of the page. -/
theorem applyPullResultCanonical_isSome
    (hpage : executePullCanonical isPrivate actor log maxPullLimit request = .ok page)
    (hcursors : cursorsAdvance store page.cursors = true) :
    (applyPullResultCanonical store page).isSome := by
  unfold applyPullResultCanonical
  rw [if_pos hcursors, Option.isSome_map, performAll_isSome]
  obtain ⟨hrecords, hmerged, -, -, -⟩ := executePullCanonical_ok hpage
  have hrow : ∀ (f : List Record → OMap String Record),
      (∀ rows id row, (f rows).get id = some row → recordId row = some id) →
      ∀ (m : OMap String (List Record)) (r : String) (row : Record),
        (r, row) ∈ (m.mapValues fun rows => sortById (f rows).values).flatten →
        (recordId row).isSome := by
    intro f hf m r row hmem
    obtain ⟨⟨r', rows⟩, hrows, hpair⟩ := mem_flatMap.mp hmem
    obtain ⟨⟨r'', raw⟩, -, heq⟩ := List.mem_map.mp hrows
    cases heq
    obtain ⟨row', hrow', heq⟩ := List.mem_map.mp hpair
    cases heq
    obtain ⟨id, hid⟩ := (OMap.mem_values_iff_get _ _).mp ((mem_insertionSort _).mp hrow')
    rw [hf raw id row hid]
    rfl
  intro call hcall
  simp only [pageCalls, mem_append, List.mem_map] at hcall
  rcases hcall with ((⟨e, he, rfl⟩ | ⟨e, he, rfl⟩) | ⟨e, -, rfl⟩) | ⟨⟨j, write⟩, -, rfl⟩
  · rw [hrecords] at he
    exact hrow lastById (fun _ _ _ => recordId_of_get_lastById) _ e.1 e.2 he
  · rw [hmerged] at he
    exact hrow spreadById (fun _ _ _ => recordId_of_get_spreadById) _ e.1 e.2 he
  · rfl
  · cases write <;> rfl

end Main

/-! ## Two pages -/

def noteTitled (title : String) : Record :=
  (Finmap.singleton "id" (.str "x")).insert "title" (.str title)

/-- A note is inserted, deleted and inserted again. -/
def reinsertedNote : List ChangeEntry :=
  [⟨1, "notes", "x", .insert, some (noteTitled "old")⟩, ⟨2, "notes", "x", .delete, none⟩,
    ⟨3, "notes", "x", .insert, some (noteTitled "new")⟩]

def pullSince (cursor : Nat) : PullRequest := ⟨OMap.empty.set "notes" cursor, none⟩

theorem replaysInOrder_insert (isPrivate : String → Bool) (store : ClientStore) (seq : Nat)
    {resource id : String} {record : Record} (hdata : isDataResourceKey resource = true)
    (hid : recordId record = some id) (htrim : trim id = id) :
    ReplaysInOrder isPrivate [] [⟨seq, resource, id, .insert, some record⟩] store := by
  have hjoin : isJoinStoreKey resource = false := by
    by_contra hj
    rw [isDataResourceKey_of_join (by simpa using hj)] at hdata
    exact absurd hdata (by decide)
  have hlookup := lookup_id_of_recordId hid
  have hnormal : normalizeNonEmptyString (record.lookup "id") = some id := by
    rw [hlookup]
    simp [normalizeNonEmptyString, htrim, recordId_ne_empty hid]
  have hwith : withId record id = record := by
    refine ext_lookup fun field => ?_
    rw [lookup_withId]
    split
    case isTrue hfield => rw [hfield, hlookup]
    case isFalse => rfl
  refine ⟨?_, fun r _ _ key => ?_, fun j hj key => ?_⟩
  · simp [changeCall, hjoin, hdata, StorageCall.performable, hid]
  · by_cases hkey : resource = r ∧ id = key
    · obtain ⟨rfl, rfl⟩ := hkey
      simp [RecordReplays, logEffects, changeCall, hjoin, hdata, StorageCall.recordEffect, hid,
        settled, settle, rowsOf, fullRecords, fullRecord, mergeDeltas, mergeDelta, deletedIds,
        hnormal, hwith]
    · have hnone : ¬ (resource = r ∧ recordId record = some key) := fun h =>
        hkey ⟨h.1, some.inj (hid.symm.trans h.2)⟩
      have hrows : rowsOf key (fullRecords r [⟨seq, resource, id, .insert, some record⟩] []) =
          [] := by
        by_cases hr : resource = r
        · have hne : ¬ id = key := fun h => hkey ⟨hr, h⟩
          simp [rowsOf, fullRecords, fullRecord, hr, hnormal, hne]
        · simp [rowsOf, fullRecords, hr]
      have hmerges : rowsOf key (mergeDeltas r [⟨seq, resource, id, .insert, some record⟩]) =
          [] := by
        by_cases hr : resource = r <;> simp [rowsOf, mergeDeltas, mergeDelta, hr]
      simp [RecordReplays, logEffects, changeCall, hjoin, hdata, StorageCall.recordEffect, hnone,
        settled, hrows, hmerges, deletedIds, mergedField]
  · have hne : resource ≠ j := fun h => absurd (h ▸ hjoin) (by simp [hj])
    simp [JoinReplays, logJoinEffects, changeCall, hjoin, hdata, StorageCall.joinEffect,
      deletesJoinKey, deletedEdges]

end SuperFunctions.Datafn.Sync.PullReplay
