import SuperFunctions.Datafn.Sync.CloneCompleteness
import SuperFunctions.Datafn.Sync.ClientSessions
import SuperFunctions.Datafn.Sync.PullReplay

/-!
# Clone, then catch up

After a clone and pulls with nothing left, the client holds the server's rows: in every run whose
commits, while a clone is under way, only change records the clone has yet to read.
-/
namespace SuperFunctions.Datafn.Sync.CloneConvergence

open Lib.Objects Lib.Keyset Lib.OrderedMap Lib.Transition Datafn.Core
open Client.Storage Client.ApplyClone Client.ApplyPull Client.Clone Client.Cursors
open Server.Database Server.Clone Server.ChangeLog Server.ChangeStreams Server.Pull Server.PullPage
open ClientSessions (buildPullCursors)
open CloneCompleteness CloneSession PullReplay List Option

def serverRecord (s : Session) (table id : String) : Option Record :=
  (s.server.tables table).rows.get id

/-- With everything pulled, the client holds the server's records of every cloned table. -/
def Converged (s : Session) : Prop :=
  s.caughtUp = true → ∀ table ∈ s.cloned, ∀ id, s.store.getRecord table id = serverRecord s table id

/-! ## The condition -/

/-- A data resource whose records everyone may see, and not the global cursor's name. -/
def IsPublicTable (server : CloneServer) (table : String) : Prop :=
  isDataResourceKey table = true ∧ server.isPrivate table = false ∧ table ≠ globalCursorKey

def lastSeq (log : List ChangeEntry) : Nat := (log.map ChangeEntry.serverSeq).foldr max 0

/-- The record a change touches. -/
def changedId (c : ChangeEntry) : Option String :=
  match changeCall c with
  | some (.upsertRecord _ record) | some (.mergeRecord _ record) => recordId record
  | some (.deleteRecord _ id) => some id
  | _ => none

/-- The ids up to a marker. -/
def UpTo (afterId : Option String) (id : String) : Prop := ∃ m ∈ afterMarker afterId, id ≤ m

section Condition

variable (config : CloneConfig)

/-- The ids up to the end of a page; the last page has none. -/
def WithinPage (read : CloneServer) (clone : TableClone) (id : String) : Prop :=
  ∀ m ∈ pageNext (pageRows read clone.table clone.afterId config.pageSize) config.pageSize, id ≤ m

def isLastPage (read : CloneServer) (clone : TableClone) : Bool :=
  (pageNext (pageRows read clone.table clone.afterId config.pageSize) config.pageSize).isNone

/-- The ids whose rows have been read, as long as the numbers of the last page have not. -/
def HasRead (clone : TableClone) (id : String) : Prop :=
  match clone.stage with
  | .requested => UpTo clone.afterId id
  | .rowsRead read => WithinPage config read clone id
  | .answered read => isLastPage config read clone = false ∧ WithinPage config read clone id

/-- A commit with the next numbers, whose changes say what becomes of every record, and which
leaves alone what a clone under way has read. -/
structure OrderlyCommit (s : Session) (m : CommittedMutation) : Prop where
  increasing : m.changes.Pairwise fun a b => a.serverSeq < b.serverSeq
  above : ∀ c ∈ m.changes, lastSeq s.log < c.serverSeq
  recorded : ∀ table, IsPublicTable s.server table → ∀ id,
    (m.tables table).rows.get id =
      (logEffects table id m.changes).foldl (RecordEffect.apply id) (serverRecord s table id)
  ahead : ∀ clone ∈ s.cloning, ∀ c ∈ m.changes, c.resource = clone.table →
    ∀ id ∈ changedId c, ¬ HasRead config clone id

/-- A record the store holds where the page reads is one the page brings. -/
def NoneStale (s : Session) : Prop :=
  ∀ clone ∈ s.cloning, match clone.stage with
    | .answered read => ∀ id ∈ (s.store.records clone.table).keys, ¬ UpTo clone.afterId id →
        WithinPage config read clone id → ((read.tables clone.table).rows.get id).isSome
    | _ => True

/-- The page leaves the cloned tables as its changes do one by one. -/
def PageReplays (s : Session) (actor : Option ActorView) : Prop :=
  let cursors := buildPullCursors (config.resources ++ config.joinStoreKeys) s.store
  let changes := (selectPage s.log config.maxPullLimit ⟨cursors, some config.pullBatchSize⟩).merged
  ∀ table ∈ s.cloned, ∀ id,
    RecordReplays (s.store.getRecord table id) (logEffects table id changes)
      (rowsOf id (fullRecords table changes (visibilityChanges actor)))
      (rowsOf id (mergeDeltas table changes))
      (id ∈ deletedIds table changes (visibilityChanges actor))

def Undisturbed (s : Session) : CloneAction → Prop
  | .commit m => OrderlyCommit config s m
  | .startClone table => IsPublicTable s.server table
  | .applyPage => NoneStale config s
  | .pull actor => PageReplays config s actor
  | .readRows | .readLatestServerSeq => True

end Condition

/-! ## Changes and records -/

variable {table : String} {cursor : Nat}

section Effects

variable {table id : String}

theorem logEffects_append (a b : List ChangeEntry) :
    logEffects table id (a ++ b) = logEffects table id a ++ logEffects table id b := by
  simp [logEffects]

theorem effect_none {c : ChangeEntry} (h : c.resource = table → id ∉ changedId c) :
    (changeCall c).bind (StorageCall.recordEffect table id) = none := by
  unfold changedId at h
  have hresource : ∀ call, changeCall c = some call →
      ∀ r, (∃ record, call = .upsertRecord r record ∨ call = .mergeRecord r record) ∨
        (∃ key, call = .deleteRecord r key) → r = c.resource := by
    intro call hcall r hr
    unfold changeCall at hcall
    split at hcall
    · split at hcall <;> cases hcall <;> simp at hr
    · split at hcall
      · split at hcall <;> cases hcall <;> simp_all
      · cases hcall
  cases hcall : changeCall c with
  | none => rfl
  | some call =>
    rw [hcall] at h
    cases call with
    | upsertRecord r record =>
      have hr := hresource _ hcall r (.inl ⟨record, .inl rfl⟩)
      simp only [bind_some, StorageCall.recordEffect]
      rw [if_neg]
      rintro ⟨htable, hid⟩
      exact h (hr ▸ htable) hid
    | mergeRecord r record =>
      have hr := hresource _ hcall r (.inl ⟨record, .inr rfl⟩)
      simp only [bind_some, StorageCall.recordEffect]
      rw [if_neg]
      rintro ⟨htable, hid⟩
      exact h (hr ▸ htable) hid
    | deleteRecord r key =>
      have hr := hresource _ hcall r (.inr ⟨key, rfl⟩)
      simp only [bind_some, StorageCall.recordEffect]
      rw [if_neg]
      rintro ⟨htable, hid⟩
      exact h (hr ▸ htable) (congrArg some hid)
    | upsertJoinRow j row => rfl
    | deleteJoinRow j key => rfl

theorem logEffects_eq_nil {changes : List ChangeEntry}
    (h : ∀ c ∈ changes, c.resource = table → id ∉ changedId c) :
    logEffects table id changes = [] := by
  unfold logEffects
  rw [filterMap_filterMap]
  exact filterMap_eq_nil_iff.mpr fun c hc => effect_none (h c hc)

theorem logEffects_ofResource (changes : List ChangeEntry) :
    logEffects table id (ofResource table changes) = logEffects table id changes := by
  unfold logEffects ofResource
  rw [filterMap_filterMap, filterMap_filterMap, filterMap_filter]
  refine filterMap_congr fun c _ => ?_
  by_cases hc : c.resource = table
  · simp [hc]
  · rw [effect_none fun h => absurd h hc]
    simp [hc]

/-- The changes of a table since a cursor. -/
def since (log : List ChangeEntry) (table : String) (cursor : Nat) : List ChangeEntry :=
  log.filter fun c => c.resource = table ∧ cursor < c.serverSeq

theorem le_lastSeq {log : List ChangeEntry} {c : ChangeEntry} (h : c ∈ log) :
    c.serverSeq ≤ lastSeq log :=
  le_max_of_le (mem_map_of_mem h) le_rfl

theorem getLatestServerSeq_le_lastSeq (log : List ChangeEntry) (table : String) :
    getLatestServerSeq log table ≤ lastSeq log :=
  getLatestServerSeq_le fun _ hc => le_lastSeq hc

theorem since_getLatestServerSeq (log : List ChangeEntry) (table : String) :
    since log table (getLatestServerSeq log table) = [] := by
  refine filter_eq_nil_iff.mpr fun c hc => ?_
  simp only [decide_eq_true_eq, not_and, not_lt]
  rintro rfl
  exact le_getLatestServerSeq hc

theorem since_append {log a b : List ChangeEntry} {next : Nat}
    (hlog : Increasing ChangeEntry.serverSeq log) (hsplit : since log table cursor = a ++ b)
    (hle : cursor ≤ next) (ha : ∀ c ∈ a, c.serverSeq ≤ next)
    (hnext : next = cursor ∨ ∃ c ∈ a, c.serverSeq = next) : since log table next = b := by
  have hsorted : Increasing ChangeEntry.serverSeq (a ++ b) := by
    rw [← hsplit]
    exact hlog.filter _
  have hagain : since log table next = (a ++ b).filter fun c => next < c.serverSeq := by
    rw [← hsplit]
    unfold since
    rw [List.filter_filter]
    refine filter_congr fun c _ => ?_
    by_cases hc : next < c.serverSeq
    · have : cursor < c.serverSeq := by omega
      simp [hc, this]
    · simp [hc]
  rw [hagain, filter_append]
  have hnone : a.filter (fun c => decide (next < c.serverSeq)) = [] := by
    refine filter_eq_nil_iff.mpr fun c hc => ?_
    have := ha c hc
    simp only [decide_eq_true_eq]
    omega
  have hall : b.filter (fun c => decide (next < c.serverSeq)) = b := by
    refine filter_eq_self.mpr fun c hc => decide_eq_true ?_
    rcases hnext with heq | ⟨last, hlast, rfl⟩
    · have hmem : c ∈ since log table cursor := hsplit ▸ mem_append_right a hc
      rw [heq]
      exact (of_decide_eq_true (mem_filter.mp hmem).2).2
    · exact (pairwise_append.mp hsorted).2.2 last hlast c hc
  rw [hnone, hall, nil_append]

end Effects

/-! ## The invariant -/

/-- The changes since the cursor turn what is held into the server's records. -/
def Awaits (s : Session) (table : String) (cursor : Nat) (held : String → Option Record) : Prop :=
  ∀ id, (logEffects table id (since s.log table cursor)).foldl (RecordEffect.apply id) (held id) =
    serverRecord s table id

/-- Up to the marker, the store holds the rows that the page read. -/
structure HeldBefore (s : Session) (clone : TableClone) (read : CloneServer) : Prop where
  isPublic : IsPublicTable read clone.table
  held : ∀ id, UpTo clone.afterId id →
    s.store.getRecord clone.table id = (read.tables clone.table).rows.get id

def CloneProgress (config : CloneConfig) (s : Session) (clone : TableClone) : Prop :=
  match clone.stage with
  | .requested => ∀ id, UpTo clone.afterId id →
      s.store.getRecord clone.table id = serverRecord s clone.table id
  | .rowsRead read => HeldBefore s clone read ∧ ∀ id, WithinPage config read clone id →
      (read.tables clone.table).rows.get id = serverRecord s clone.table id
  | .answered read => HeldBefore s clone read ∧
      read.latestServerSeq clone.table ≤ lastSeq s.log ∧
      (isLastPage config read clone = true →
        Awaits s clone.table (read.latestServerSeq clone.table)
          fun id => (read.tables clone.table).rows.get id) ∧
      (isLastPage config read clone = false → ∀ id, WithinPage config read clone id →
        (read.tables clone.table).rows.get id = serverRecord s clone.table id)

structure CloneCurrent (s : Session) (table : String) : Prop where
  isPublic : IsPublicTable s.server table
  awaits : ∃ cursor, s.store.cursors table = some cursor ∧ cursor ≤ lastSeq s.log ∧
    Awaits s table cursor (s.store.getRecord table)

structure Consistent (config : CloneConfig) (s : Session) : Prop where
  increasing : Increasing ChangeEntry.serverSeq s.log
  cloned : ∀ table ∈ s.cloned, table ∈ config.resources ∧ CloneCurrent s table
  caughtUp : Converged s
  idle : s.caughtUp = true → s.cloning = none
  cloning : ∀ clone ∈ s.cloning, (clone.table ∈ config.resources ∧ clone.table ∉ s.cloned) ∧
    IsPublicTable s.server clone.table ∧ CloneProgress config s clone

/-- A client before its first clone, at a server with any tables. -/
structure Fresh (s : Session) : Prop where
  increasing : Increasing ChangeEntry.serverSeq s.log
  cloned : s.cloned = []
  cloning : s.cloning = none

theorem Fresh.consistent {s : Session} (h : Fresh s) (config : CloneConfig) :
    Consistent config s := { h with
  cloned := fun table htable => absurd htable (by simp [h.cloned])
  caughtUp := fun _ table htable => absurd htable (by simp [h.cloned])
  idle := fun _ => h.cloning
  cloning := fun clone hclone => absurd hclone (by simp [h.cloning]) }

section Steps

variable {config : CloneConfig} {s s' : Session}

/-! ## Commits -/

variable {clone : TableClone} {id : String}

section Commit

variable {m : CommittedMutation} (hm : OrderlyCommit config s m)
include hm

theorem OrderlyCommit.lastSeq_le : lastSeq s.log ≤ lastSeq (s.log ++ m.changes) := by
  refine max_le_of_forall_le _ _ fun n hn => ?_
  obtain ⟨c, hc, rfl⟩ := mem_map.mp hn
  exact le_lastSeq (mem_append_left _ hc)

theorem OrderlyCommit.awaits (hpublic : IsPublicTable s.server table)
    (hcursor : cursor ≤ lastSeq s.log) {held : String → Option Record}
    (h : Awaits s table cursor held) : Awaits (s.commit m) table cursor held := by
  intro id
  have hnew : since (s.log ++ m.changes) table cursor =
      since s.log table cursor ++ ofResource table m.changes := by
    unfold since ofResource
    rw [filter_append]
    congr 1
    refine filter_congr fun c hc => ?_
    have := hm.above c hc
    have habove : cursor < c.serverSeq := by omega
    simp [habove]
  show (logEffects table id (since (s.log ++ m.changes) table cursor)).foldl _ _ = _
  rw [hnew, logEffects_append, foldl_append, h id, logEffects_ofResource]
  exact (hm.recorded table hpublic id).symm

theorem OrderlyCommit.serverRecord_eq (hclone : clone ∈ s.cloning)
    (hpublic : IsPublicTable s.server clone.table) (hread : HasRead config clone id) :
    serverRecord (s.commit m) clone.table id = serverRecord s clone.table id := by
  have hnone : logEffects clone.table id m.changes = [] :=
    logEffects_eq_nil fun c hc hresource hid => hm.ahead clone hclone c hc hresource id hid hread
  show (m.tables clone.table).rows.get id = _
  rw [hm.recorded clone.table hpublic id, hnone]
  rfl

theorem Consistent.commit (hs : Consistent config s) : Consistent config (s.commit m) where
  increasing := by
    refine pairwise_append.mpr ⟨hs.increasing, hm.increasing, fun a ha b hb => ?_⟩
    have hle := le_lastSeq ha
    have hlt := hm.above b hb
    omega
  cloned := fun table htable => by
    obtain ⟨hresource, hpublic, cursor, hcursor, hle, hawaits⟩ := hs.cloned table htable
    exact ⟨hresource, hpublic, cursor, hcursor, hle.trans hm.lastSeq_le,
      hm.awaits hpublic hle hawaits⟩
  caughtUp := fun h => absurd h (by simp [Session.commit])
  idle := fun h => absurd h (by simp [Session.commit])
  cloning := fun clone hclone => by
    obtain ⟨hresource, hpublic, hprogress⟩ := hs.cloning clone hclone
    refine ⟨hresource, hpublic, ?_⟩
    have hkeeps : ∀ id, HasRead config clone id → _ := fun id hid =>
      hm.serverRecord_eq hclone hpublic hid
    unfold CloneProgress HasRead at *
    split
    case h_1 hstage =>
      rw [hstage] at hprogress hkeeps
      exact fun id hid => (hprogress id hid).trans (hkeeps id hid).symm
    case h_2 read hstage =>
      rw [hstage] at hprogress hkeeps
      obtain ⟨hheld, hrows⟩ := hprogress
      exact ⟨⟨hheld.isPublic, hheld.held⟩, fun id hid => (hrows id hid).trans (hkeeps id hid).symm⟩
    case h_3 read hstage =>
      rw [hstage] at hprogress hkeeps
      obtain ⟨hheld, hle, hlast, hmore⟩ := hprogress
      exact ⟨⟨hheld.isPublic, hheld.held⟩, hle.trans hm.lastSeq_le,
        fun h => hm.awaits hpublic hle (hlast h),
        fun h id hid => (hmore h id hid).trans (hkeeps id ⟨h, hid⟩).symm⟩

end Commit

/-! ## Reading a page -/

section

variable (hs : Consistent config s)
include hs

theorem Consistent.startClone (hpublic : IsPublicTable s.server table)
    (h : s.startClone config table = some s') : Consistent config s' := by
  unfold Session.startClone at h
  split at h
  case isFalse => cases h
  rename_i hstart
  cases h
  refine ⟨hs.increasing, fun t ht => ?_, fun h => absurd h (by simp),
    fun h => absurd h (by simp), fun clone hclone => ?_⟩
  · obtain ⟨hresource, hcurrent⟩ := hs.cloned t (mem_of_mem_filter ht)
    exact ⟨hresource, hcurrent.isPublic, hcurrent.awaits⟩
  · cases hclone
    refine ⟨⟨hstart.2, by simp⟩, hpublic, ?_⟩
    rintro id ⟨marker, hmarker, -⟩
    exact absurd hmarker (by simp [afterMarker])

theorem Consistent.setCloning (hbusy : s.cloning ≠ none)
    (hplace : clone.table ∈ config.resources ∧ clone.table ∉ s.cloned)
    (hpublic : IsPublicTable s.server clone.table) (hprogress : CloneProgress config s clone) :
    Consistent config { s with cloning := some clone } := by
  refine ⟨hs.increasing, fun t ht => ?_, hs.caughtUp, fun h => absurd (hs.idle h) hbusy,
    fun other hother => ?_⟩
  · obtain ⟨hres, hcurrent⟩ := hs.cloned t ht
    exact ⟨hres, hcurrent.isPublic, hcurrent.awaits⟩
  cases hother
  refine ⟨hplace, hpublic, ?_⟩
  unfold CloneProgress at hprogress ⊢
  split at hprogress
  case h_1 => exact hprogress
  case h_2 read _ => exact ⟨⟨hprogress.1.isPublic, hprogress.1.held⟩, hprogress.2⟩
  case h_3 read _ => exact ⟨⟨hprogress.1.isPublic, hprogress.1.held⟩, hprogress.2⟩

theorem Consistent.readRows (h : s.readRows = some s') : Consistent config s' := by
  unfold Session.readRows at h
  split at h
  case h_2 => cases h
  case h_1 table afterId hcloning =>
    cases h
    obtain ⟨hplace, hpublic, hprogress⟩ := hs.cloning _ hcloning
    exact hs.setCloning (by simp [hcloning]) hplace hpublic ⟨⟨hpublic, hprogress⟩, fun id _ => rfl⟩

theorem Consistent.readLatestServerSeq (h : s.readLatestServerSeq = some s') :
    Consistent config s' := by
  unfold Session.readLatestServerSeq at h
  split at h
  case h_2 => cases h
  rename_i table afterId read hcloning
  cases h
  obtain ⟨hplace, hpublic, hheld, hrows⟩ := hs.cloning _ hcloning
  refine hs.setCloning (by simp [hcloning]) hplace hpublic ⟨⟨hheld.isPublic, hheld.held⟩,
    getLatestServerSeq_le_lastSeq _ _, fun hlast id => ?_, fun _ id hid => hrows id hid⟩
  -- up to the latest number nothing is left, and the last page has no end
  rw [since_getLatestServerSeq]
  refine hrows id fun marker hmarker => ?_
  have hnone := isNone_iff_eq_none.mp hlast
  exact absurd (hnone.symm.trans hmarker) (by simp)

end

/-! ## Applying a page -/

section Page

variable {read : CloneServer} {clone : TableClone} {applied : ClientStore}
  (hok : (executeClonePage read clone.table clone.afterId config.pageSize).ok = true)
  (happly : applyCloneResult s.store
    (executeClonePage read clone.table clone.afterId config.pageSize) = some applied)
include hok happly

theorem HeldBefore.getRecord_applied (hheld : HeldBefore s clone read)
    (hstale : ∀ id ∈ (s.store.records clone.table).keys, ¬ UpTo clone.afterId id →
      WithinPage config read clone id → ((read.tables clone.table).rows.get id).isSome)
    (hid : WithinPage config read clone id) :
    applied.getRecord clone.table id = (read.tables clone.table).rows.get id := by
  have hvisible : ∀ row, visibleRow read clone.table row = true := fun row => by
    simp [visibleRow, hheld.isPublic.2.1]
  have hsub : ∀ row ∈ pageRows read clone.table clone.afterId config.pageSize,
      row ∈ (read.tables clone.table).sorted := fun row hrow => pageRows_subset hrow
  rw [getRecord_applyPage hok happly, if_pos rfl]
  by_cases hpage : ∃ row ∈ pageRows read clone.table clone.afterId config.pageSize, row.1 = id
  · obtain ⟨row, hrow, rfl⟩ := hpage
    rw [lastWrite_visible hsub hrow (hvisible row)
      (pageRows_id_ne_empty hok happly hrow (hvisible row)), some_or]
    exact (DbTable.mem_sorted.mp (hsub row hrow)).symm
  · rw [lastWrite_other hsub fun row hrow heq => absurd ⟨row, hrow, heq⟩ hpage, none_or]
    by_cases hbefore : UpTo clone.afterId id
    · exact hheld.held id hbefore
    -- the page would have listed a row of the server
    have habsent : (read.tables clone.table).rows.get id = none := by
      by_contra hsome
      obtain ⟨record, hrecord⟩ := ne_none_iff_exists'.mp hsome
      have hafter : (id, record) ∈
          (read.tables clone.table).findAfter (afterMarker clone.afterId) := by
        refine (mem_rowsAfter Prod.fst).mpr ⟨DbTable.mem_sorted.mpr hrecord, fun k hk => ?_⟩
        exact lt_of_not_ge fun hle => hbefore ⟨k, hk, hle⟩
      cases hnext : pageNext (pageRows read clone.table clone.afterId config.pageSize)
          config.pageSize with
      | none =>
        have hsize : config.pageSize ≠ 0 := Nat.ne_of_gt config.paginated.1
        exact hpage ⟨_, pageNext_none hsize hnext hafter, rfl⟩
      | some marker =>
        rcases mem_findAfter_next hnext hafter with hrow | hbeyond
        · exact hpage ⟨_, hrow, rfl⟩
        have hmarker : marker ≠ "" := by
          unfold pageNext at hnext
          split at hnext
          case isFalse => cases hnext
          case isTrue =>
            obtain ⟨last, hlast, rfl⟩ := map_eq_some_iff.mp hnext
            exact pageRows_id_ne_empty hok happly (mem_of_getLast? hlast) (hvisible _)
        have hlt := ((mem_rowsAfter Prod.fst).mp hbeyond).2 marker (by
          simp [afterMarker, hmarker])
        exact absurd (hid marker hnext) (not_le_of_gt hlt)
    rw [habsent]
    by_contra hheldHere
    have hmem : id ∈ (s.store.records clone.table).keys := by
      rw [Finmap.mem_keys, ← Finmap.lookup_isSome]
      exact isSome_iff_ne_none.mpr hheldHere
    have hrow := hstale id hmem hbefore hid
    rw [habsent] at hrow
    cases hrow

theorem cursors_appliedPage {resource : String} (hglobal : resource ≠ globalCursorKey) :
    applied.cursors resource =
      if resource = clone.table then some (read.latestServerSeq clone.table)
      else s.store.cursors resource := by
  have heq := executeClonePage_ok hok
  refine cursors_applyClone hok (by rw [heq]) ?_ happly hglobal
  rw [heq, OMap.get_set, if_pos rfl]

theorem CloneCurrent.appliedPage (h : CloneCurrent s table) (hother : table ≠ clone.table)
    (cloning : Option TableClone) (cloned : List String) :
    CloneCurrent { s with store := applied, cloning := cloning, cloned := cloned } table := by
  obtain ⟨hpublic, cursor, hcursor, hle, hawaits⟩ := h
  refine ⟨hpublic, cursor, ?_, hle, fun id => ?_⟩
  · show applied.cursors table = some cursor
    rw [cursors_appliedPage hok happly hpublic.2.2, if_neg hother, hcursor]
  · show (logEffects table id (since s.log table cursor)).foldl _ (applied.getRecord table id) = _
    rw [getRecord_applyPage hok happly, if_neg hother]
    exact hawaits id

end Page

theorem Consistent.applyPage (hs : Consistent config s) (hstale : NoneStale config s)
    (h : s.applyPage config = some s') : Consistent config s' := by
  unfold Session.applyPage at h
  split at h
  case h_2 => cases h
  rename_i table afterId read hcloning
  dsimp only at h
  split at h
  case isFalse => cases h
  rename_i hok
  obtain ⟨applied, happly, rfl⟩ := map_eq_some_iff.mp h
  set clone : TableClone := ⟨table, afterId, .answered read⟩ with hclone
  obtain ⟨⟨hresource, hnew⟩, hpublic, hheld, hle, hlast, hmore⟩ := hs.cloning clone hcloning
  have hok' : (executeClonePage read clone.table clone.afterId config.pageSize).ok = true := hok
  have happly' : applyCloneResult s.store
      (executeClonePage read clone.table clone.afterId config.pageSize) = some applied := happly
  have hbusy : ¬ s.caughtUp = true := fun hup => by
    rw [hs.idle hup] at hcloning
    cases hcloning
  have hrows : ∀ id, WithinPage config read clone id →
      applied.getRecord table id = (read.tables table).rows.get id :=
    fun id hid => hheld.getRecord_applied hok' happly' (hstale clone hcloning) hid
  have hothers : ∀ t ∈ s.cloned, ∀ cloning cloned, t ∈ config.resources ∧
      CloneCurrent { s with store := applied, cloning := cloning, cloned := cloned } t := by
    intro t ht cloning cloned
    obtain ⟨hres, hcurrent⟩ := hs.cloned t ht
    exact ⟨hres, hcurrent.appliedPage hok' happly' (fun heq => hnew (heq ▸ ht)) cloning cloned⟩
  rw [next_get hok]
  cases hnext : pageNext (pageRows read table afterId config.pageSize) config.pageSize with
  | none =>
    have hall : ∀ id, WithinPage config read clone id := fun id marker hmarker => by
      exact absurd (hnext.symm.trans hmarker) (by simp)
    refine ⟨hs.increasing, fun t ht => ?_, fun hup => absurd hup hbusy, fun _ => rfl,
      fun other hother => absurd hother (by simp)⟩
    rcases mem_cons.mp ht with rfl | ht
    · refine ⟨hresource, hpublic, read.latestServerSeq t, ?_, hle, fun id => ?_⟩
      · show applied.cursors t = _
        rw [cursors_appliedPage hok' happly' hpublic.2.2, if_pos rfl]
      · show (logEffects t id (since s.log t _)).foldl _ (applied.getRecord t id) = _
        rw [hrows id (hall id)]
        exact hlast (isNone_iff_eq_none.mpr hnext) id
    · exact hothers t ht _ _
  | some marker =>
    have hnotLast : isLastPage config read clone = false := by
      unfold isLastPage
      rw [hclone, hnext]
      rfl
    refine ⟨hs.increasing, fun t ht => hothers t ht _ _, fun hup => absurd hup hbusy,
      fun hup => absurd hup hbusy, fun other hother => ?_⟩
    cases hother
    refine ⟨⟨hresource, hnew⟩, hpublic, ?_⟩
    rintro id ⟨k, hk, hle⟩
    have hmarker : k = marker := by
      obtain ⟨hk, -⟩ := mem_filter_iff.mp hk
      exact (some.inj hk).symm
    have hid : WithinPage config read clone id := fun m hm => by
      have : marker = m := some.inj (hnext.symm.trans hm)
      rwa [← this, ← hmarker]
    exact (hrows id hid).trans (hmore hnotLast id hid)

/-! ## Pulling -/

theorem get_buildPullCursors (keys : List String) (store : ClientStore) {key : String}
    (h : key ∈ keys) :
    (buildPullCursors keys store).get key = some ((store.cursors key).getD 0) := by
  have hfold : ∀ (ks : List String) (m : OMap String Nat),
      key ∈ ks ∨ m.get key = some ((store.cursors key).getD 0) →
      (ks.foldl (fun cursors k => cursors.set k ((store.cursors k).getD 0)) m).get key =
        some ((store.cursors key).getD 0) := by
    intro ks
    induction ks with
    | nil => exact fun m hm => hm.resolve_left (by simp)
    | cons k ks ih =>
      intro m hm
      refine ih _ ?_
      rw [OMap.get_set]
      by_cases hk : key = k
      · rw [if_pos hk, hk]
        exact .inr rfl
      · rw [if_neg hk]
        exact hm.imp_left fun hmem => (mem_cons.mp hmem).resolve_left hk
  exact hfold _ _ (.inl (mem_append_left _ h))

theorem pageCursors_spec (actor : Option ActorView) {request : PullRequest}
    {selection : MergedStreams} {resource : String}
    (hlatest : selection.latestCursorPerResource = latestCursors selection.merged)
    (hfeed : resource ≠ actorFeedCursorKey) (hrequest : request.cursors.get resource = some cursor)
    (habove : ∀ c ∈ ofResource resource selection.merged, cursor < c.serverSeq) :
    ∃ next, (pageCursors actor request selection).get resource = some next ∧ cursor ≤ next ∧
      (∀ c ∈ ofResource resource selection.merged, c.serverSeq ≤ next) ∧
      (next = cursor ∨ ∃ c ∈ ofResource resource selection.merged, c.serverSeq = next) := by
  rw [get_pageCursors _ _ _ hfeed, hlatest, hrequest]
  have hspec := latestCursors_spec selection.merged resource
  have hmem : ∀ c, c ∈ ofResource resource selection.merged ↔
      c ∈ selection.merged ∧ c.resource = resource := fun c => by simp [ofResource]
  cases hget : (latestCursors selection.merged).get resource with
  | none =>
    rw [hget] at hspec
    refine ⟨cursor, rfl, le_rfl, fun c hc => ?_, .inl rfl⟩
    obtain ⟨hc, hr⟩ := (hmem c).mp hc
    exact absurd hr (hspec c hc)
  | some latest =>
    rw [hget] at hspec
    obtain ⟨⟨top, htop, hr, rfl⟩, hle⟩ := hspec
    have hin := (hmem top).mpr ⟨htop, hr⟩
    refine ⟨_, rfl, Nat.le_of_lt (habove top hin), fun c hc => ?_, .inr ⟨top, hin, rfl⟩⟩
    obtain ⟨hc, hr⟩ := (hmem c).mp hc
    exact hle c hc hr

variable {actor : Option ActorView}

theorem CloneCurrent.pulled (hlog : Increasing ChangeEntry.serverSeq s.log)
    (hreplays : PageReplays config s actor) {page : PullResult} {applied : ClientStore}
    (hpage : executePullCanonical s.server.isPrivate actor s.log config.maxPullLimit
      ⟨buildPullCursors (config.resources ++ config.joinStoreKeys) s.store,
        some config.pullBatchSize⟩ = .ok page)
    (happly : applyPullResultCanonical s.store page = some applied) (htable : table ∈ s.cloned)
    (hresource : table ∈ config.resources) (h : CloneCurrent s table) (caughtUp : Bool) :
    CloneCurrent { s with store := applied, caughtUp := caughtUp } table ∧
      (page.hasMore = false → ∀ id, applied.getRecord table id = serverRecord s table id) := by
  obtain ⟨hpublic, cursor, hcursor, hle, hawaits⟩ := h
  set request : PullRequest :=
    ⟨buildPullCursors (config.resources ++ config.joinStoreKeys) s.store,
      some config.pullBatchSize⟩ with hrequestDef
  set selection := selectPage s.log config.maxPullLimit request with hselection
  have hfeed : table ≠ actorFeedCursorKey := by
    rintro rfl
    exact absurd hpublic.1 (by decide)
  have hrequest : request.cursors.get table = some cursor := by
    rw [hrequestDef, get_buildPullCursors _ _ (mem_append_left _ hresource), hcursor]
    rfl
  have hasked : table ∈ requestedResourceKeys request := by
    refine mem_filter.mpr ⟨?_, decide_eq_true hfeed⟩
    rw [OMap.mem_keys_iff_get, hrequest]
    rfl
  obtain ⟨rest, hsplit, hrest⟩ := selectPage_split s.log config.maxPullLimit request hasked
  rw [orderBySeq_eq (hlog.filter _), hrequest, getD_some] at hsplit
  have hsplit : since s.log table cursor = ofResource table selection.merged ++ rest := hsplit
  have hsince : ∀ c ∈ ofResource table selection.merged, c ∈ s.log ∧ cursor < c.serverSeq := by
    intro c hc
    have hmem : c ∈ since s.log table cursor := hsplit ▸ mem_append_left rest hc
    obtain ⟨hin, hc⟩ := mem_filter.mp hmem
    exact ⟨hin, (of_decide_eq_true hc).2⟩
  obtain ⟨next, hnext, hadvance, hbelow, hreached⟩ := pageCursors_spec actor
    (show selection.latestCursorPerResource = latestCursors selection.merged from rfl)
    hfeed hrequest fun c hc => (hsince c hc).2
  have hleft := since_append hlog hsplit hadvance hbelow hreached
  have happlied : ∀ id, applied.getRecord table id =
      (logEffects table id selection.merged).foldl (RecordEffect.apply id)
        (s.store.getRecord table id) := by
    intro id
    rw [getRecord_page hpublic.1 hpublic.2.1 hpage happly]
    exact (recordReplays_iff _ _ _ _ _ rfl).mpr (hreplays table htable id)
  have hawaitsRest : ∀ id, (logEffects table id rest).foldl (RecordEffect.apply id)
      (applied.getRecord table id) = serverRecord s table id := by
    intro id
    rw [happlied id, ← foldl_append, ← logEffects_ofResource selection.merged,
      ← logEffects_append, ← hsplit]
    exact hawaits id
  obtain ⟨-, -, -, -, hcursors⟩ := executePullCanonical_ok hpage
  refine ⟨⟨hpublic, next, ?_, ?_, fun id => ?_⟩, fun hmore id => ?_⟩
  · exact cursors_applyPull_get hpublic.2.2 happly (hcursors ▸ hnext)
  · show next ≤ lastSeq s.log
    rcases hreached with rfl | ⟨c, hc, rfl⟩
    · exact hle
    · exact le_lastSeq (hsince c hc).1
  · show (logEffects table id (since s.log table next)).foldl _ (applied.getRecord table id) = _
    rw [hleft]
    exact hawaitsRest id
  have hselected : selection.hasMore = false := by
    unfold executePullCanonical at hpage
    split at hpage
    · cases hpage
    · cases hpage
      exact (Bool.or_eq_false_iff.mp hmore).1
  have hdone := hawaitsRest id
  rwa [hrest hselected] at hdone

theorem Consistent.pull (hs : Consistent config s) (hreplays : PageReplays config s actor)
    (h : s.pull config actor = some s') : Consistent config s' := by
  unfold Session.pull at h
  split at h
  case isFalse => cases h
  rename_i hidle
  have hnone := isNone_iff_eq_none.mp hidle
  dsimp only at h
  split at h
  case h_1 => cases h
  rename_i page hpage
  obtain ⟨applied, happly, rfl⟩ := map_eq_some_iff.mp h
  have hpulled : ∀ t (ht : t ∈ s.cloned), _ := fun t ht =>
    (hs.cloned t ht).2.pulled hs.increasing hreplays hpage happly ht (hs.cloned t ht).1
      (!page.hasMore)
  refine ⟨hs.increasing, fun t ht => ⟨(hs.cloned t ht).1, (hpulled t ht).1⟩,
    fun hup t ht => ?_, fun _ => hnone, fun clone hclone => ?_⟩
  · exact (hpulled t ht).2 (by simpa using hup)
  · exact absurd (hnone.symm.trans hclone) (by simp)

end Steps

theorem consistent_step (config : CloneConfig) (s : Session) (a : CloneAction) (s' : Session)
    (hs : Consistent config s) (hguard : Undisturbed config s a)
    (h : cloneStep config s a = some s') : Consistent config s' := by
  cases a with
  | commit m =>
    cases h
    exact Consistent.commit hguard hs
  | startClone table => exact hs.startClone hguard h
  | readRows => exact hs.readRows h
  | readLatestServerSeq => exact hs.readLatestServerSeq h
  | applyPage => exact hs.applyPage hguard h
  | pull actor => exact hs.pull hguard h

def sampleConfig : CloneConfig where
  resources := ["notes"]
  joinStoreKeys := []
  pageSize := 2
  paginated := by decide
  pullBatchSize := 200
  maxPullLimit := none

/-- The tables of a server with these notes. -/
def notesOnly (rows : DbTable) (table : String) : DbTable :=
  if table = "notes" then rows else .empty

def oldNote : DbTable := ⟨⟨[("x", noteTitled "old")], by decide⟩, by decide⟩

def newNote : DbTable := ⟨⟨[("x", noteTitled "new")], by decide⟩, by decide⟩

def secondNote : Record := Finmap.singleton "id" (.str "y")

def twoNotes : DbTable :=
  ⟨⟨[("x", noteTitled "old"), ("y", secondNote)], by decide⟩, by decide⟩

/-- A fresh client, and a server whose only note was inserted with number 1. -/
def sampleStart : Session where
  server :=
    { remoteOnly := fun _ => some false
      isPrivate := fun _ => false
      actorId := none
      hasAccess := fun _ _ _ => false
      tables := notesOnly oldNote
      latestServerSeq := fun _ => 1
      joins := OMap.empty
      maxCloneRecords := 10000 }
  log := [⟨1, "notes", "x", .insert, some (noteTitled "old")⟩]
  store := emptyStore
  cloning := none
  cloned := []
  caughtUp := false

theorem fresh_sampleStart : Fresh sampleStart :=
  ⟨by simp [sampleStart, Increasing], rfl, rfl⟩

def retitle : CommittedMutation where
  tables := notesOnly newNote
  joins := OMap.empty
  changes := [⟨2, "notes", "x", .replace, some (noteTitled "new")⟩]

def insertSecond : CommittedMutation where
  tables := notesOnly twoNotes
  joins := OMap.empty
  changes := [⟨2, "notes", "y", .insert, some secondNote⟩]

theorem insertSecond_recorded (table id : String) :
    (notesOnly twoNotes table).rows.get id =
      (logEffects table id insertSecond.changes).foldl (RecordEffect.apply id)
        ((notesOnly oldNote table).rows.get id) := by
  by_cases htable : table = "notes"
  · subst htable
    by_cases hid : id = "y"
    · subst hid
      decide
    have hnone : logEffects "notes" id insertSecond.changes = [] := by
      refine logEffects_eq_nil fun c hc _ hin => hid ?_
      rw [mem_singleton.mp hc] at hin
      have hy : some "y" = some id := hin
      exact (some.inj hy).symm
    rw [hnone]
    have hid' : ¬ "y" = id := fun heq => hid heq.symm
    by_cases hx : "x" = id <;>
      simp [notesOnly, twoNotes, oldNote, OMap.get, List.find?, hid', hx]
  · have hnone : logEffects table id insertSecond.changes = [] := by
      refine logEffects_eq_nil fun c hc hresource _ => htable ?_
      rw [mem_singleton.mp hc] at hresource
      exact hresource.symm
    rw [hnone]
    simp [notesOnly, htable]

/-- A note is inserted after both reads: the pull brings it. -/
def insertingRun : List CloneAction :=
  [.startClone "notes", .readRows, .readLatestServerSeq, .commit insertSecond, .applyPage,
    .pull none]

end SuperFunctions.Datafn.Sync.CloneConvergence
