import SuperFunctions.Datafn.Server.ChangeStreams

/-!
# Pull

The canonical per-table pull: the selected changes of the requested resources are grouped into
upserts, merges, deletes and join deltas.
-/
namespace SuperFunctions.Datafn.Server.Pull

open Lib.Objects Lib.OrderedMap Datafn.Core ChangeLog ChangeStreams List

structure PullRequest where
  cursors : OMap String Nat
  limit : Option Nat

structure PullError where
  code : String
  message : String
  path : String

inductive VisibilityOp where
  | upsert
  | delete
  deriving DecidableEq

/-- A change of what the actor may see, from the permission feed. -/
structure VisibilityChange where
  resource : String
  id : String
  op : VisibilityOp
  record : Option Record

/-- What the permission tables say about the requesting actor. -/
structure ActorView where
  hasActorRecordAccess : String → String → Bool
  visibilityChanges : List VisibilityChange
  latestFeedSeq : Nat
  feedHasMore : Bool

structure JoinDelta where
  upsert : List Record
  delete : List (String × String)

structure PullResult where
  records : OMap String (List Record)
  merged : OMap String (List Record)
  deleted : OMap String (List String)
  joins : OMap String JoinDelta
  cursors : OMap String Nat
  hasMore : Bool

/-- The lists the page is collected in. -/
structure PageGroups where
  records : OMap String (List Record)
  merged : OMap String (List Record)
  deleted : OMap String (List String)
  joins : OMap String JoinDelta

def actorFeedCursorKey : String := "__datafn_actor_feed__"

/-- The edge a join delete names: the ends in its record, or the parts of its id. -/
def deletedEdge (c : ChangeEntry) : String × String :=
  let parts := splitColon c.id
  let fromId := (normalizeNonEmptyString (c.record.bind fun record => record.lookup "from")).getD
    ((parts[0]?).getD "undefined")
  let toId := (normalizeNonEmptyString (c.record.bind fun record => record.lookup "to")).getD
    ((parts[1]?).getD "undefined")
  (fromId, toId)

def groupJoinChange (c : ChangeEntry) (delta : JoinDelta) : JoinDelta :=
  match c.op, c.record with
  | .upsert, some record | .insert, some record | .replace, some record =>
    { delta with upsert := delta.upsert ++ [record] }
  | .delete, _ => { delta with delete := delta.delete ++ [deletedEdge c] }
  | _, _ => delta

section Page

variable (isPrivateShareableResource : String → Bool) (actor : Option ActorView)

/-- A record of a private resource is listed only for an actor with access to it. -/
def listed (resource id : String) : Bool :=
  !isPrivateShareableResource resource ||
    actor.any fun view => view.hasActorRecordAccess resource id

def groupChange (groups : PageGroups) (c : ChangeEntry) : PageGroups :=
  if isJoinStoreKey c.resource then
    { groups with joins := groups.joins.modify c.resource ⟨[], []⟩ (groupJoinChange c) }
  else if !isDataResourceKey c.resource then groups
  else if isPrivateShareableResource c.resource && actor.isNone then groups
  else
    match c.op, c.record with
    | .merge, some record =>
      if listed isPrivateShareableResource actor c.resource c.id then
        { groups with merged := groups.merged.push c.resource record }
      else groups
    | .insert, some record | .replace, some record | .upsert, some record =>
      if listed isPrivateShareableResource actor c.resource c.id then
        { groups with records := groups.records.push c.resource record }
      else groups
    | .delete, _ => { groups with deleted := groups.deleted.push c.resource c.id }
    | _, _ => groups

def groupVisibilityChange (groups : PageGroups) (v : VisibilityChange) : PageGroups :=
  match v.op, v.record with
  | .upsert, some record => { groups with records := groups.records.push v.resource record }
  | .upsert, none => groups
  | .delete, _ => { groups with deleted := groups.deleted.push v.resource v.id }

/-- `records[resource] = []` and `deleted[resource] = []` for the requested data resources. -/
def emptyGroups (resources : List String) : PageGroups where
  records := (resources.filter isDataResourceKey).foldl (fun m r => m.set r []) OMap.empty
  merged := OMap.empty
  deleted := (resources.filter isDataResourceKey).foldl (fun m r => m.set r []) OMap.empty
  joins := OMap.empty

def visibilityChanges : List VisibilityChange := (actor.map ActorView.visibilityChanges).getD []

def groupPage (resources : List String) (changes : List ChangeEntry) : PageGroups :=
  (visibilityChanges actor).foldl groupVisibilityChange
    (changes.foldl (groupChange isPrivateShareableResource actor) (emptyGroups resources))

/-- `{ ...record, id }` -/
def withId (record : Record) (id : String) : Record := record.insert "id" (.str id)

def sortById (rows : List Record) : List Record :=
  rows.insertionSort fun a b => templateText (a.lookup "id") ≤ templateText (b.lookup "id")

def setRow (byId : OMap String Record) (row : Record) : OMap String Record :=
  match normalizeNonEmptyString (row.lookup "id") with
  | none => byId
  | some id => byId.set id (withId row id)

def spreadRow (byId : OMap String Record) (row : Record) : OMap String Record :=
  match normalizeNonEmptyString (row.lookup "id") with
  | none => byId
  | some id =>
    byId.set id (withId (Assoc.spread ((byId.get id).getD (withId ∅ id)) row) id)

/-- The last record of each id. -/
def lastById (rows : List Record) : OMap String Record := rows.foldl setRow OMap.empty

/-- The records of each id, spread over each other. -/
def spreadById (rows : List Record) : OMap String Record := rows.foldl spreadRow OMap.empty

def edgeText (row : Record) : String :=
  templateText (row.lookup "from") ++ ":" ++ templateText (row.lookup "to")

/-- `String(row.id ?? edge)` -/
def joinSortKey (row : Record) : String :=
  match row.lookup "id" with
  | none | some .null => edgeText row
  | some value => templateText (some value)

def sortJoinDelta (delta : JoinDelta) : JoinDelta where
  upsert := delta.upsert.insertionSort fun a b => joinSortKey a ≤ joinSortKey b
  delete := delta.delete.insertionSort fun a b => a.1 ++ ":" ++ a.2 ≤ b.1 ++ ":" ++ b.2

def requestedResourceKeys (request : PullRequest) : List String :=
  request.cursors.keys.filter (· ≠ actorFeedCursorKey)

/-- The changes since each cursor: one more than the limit, to see whether there are more. -/
def changeStreams (log : List ChangeEntry) (request : PullRequest) (limit : Nat) :
    List (String × List ChangeEntry) :=
  (requestedResourceKeys request).map fun resource =>
    (resource, getChangesSince log resource ((request.cursors.get resource).getD 0) (limit + 1))

def pageLimit (maxPullLimit : Option Nat) (request : PullRequest) : Nat :=
  let effectiveMaxPullLimit := match maxPullLimit with
    | some maximum => if maximum = 0 then 1000 else maximum
    | none => 1000
  min (request.limit.getD 200) effectiveMaxPullLimit

def pageCursors (request : PullRequest) (merged : MergedStreams) : OMap String Nat :=
  let requested := match actor with
    | some view =>
      if 0 < view.latestFeedSeq then
        request.cursors.set actorFeedCursorKey view.latestFeedSeq
      else request.cursors
    | none => request.cursors
  requested.setAll merged.latestCursorPerResource

def selectPage (log : List ChangeEntry) (maxPullLimit : Option Nat) (request : PullRequest) :
    MergedStreams :=
  let limit := pageLimit maxPullLimit request
  mergeCanonicalChangeStreamsBounded (changeStreams log request limit) limit

/-- The answer made of the selected changes. -/
def pullPage (request : PullRequest) (selection : MergedStreams) : PullResult :=
  let groups := groupPage isPrivateShareableResource actor (requestedResourceKeys request)
    selection.merged
  { records := groups.records.mapValues fun rows => sortById (lastById rows).values
    merged := groups.merged.mapValues fun rows => sortById (spreadById rows).values
    deleted := groups.deleted.mapValues fun ids => ids.dedup.insertionSort (· ≤ ·)
    joins := groups.joins.mapValues sortJoinDelta
    cursors := pageCursors actor request selection
    hasMore := selection.hasMore || actor.any ActorView.feedHasMore }

/-- A request whose cursors are numbers; a limit of 0 is refused. -/
def executePullCanonical (log : List ChangeEntry) (maxPullLimit : Option Nat)
    (request : PullRequest) : Except PullError PullResult :=
  if request.limit = some 0 then
    .error ⟨"DFQL_INVALID", "Invalid DFQL: limit must be a positive integer", "limit"⟩
  else .ok (pullPage isPrivateShareableResource actor request (selectPage log maxPullLimit request))

end Page

/-! ## The selected changes -/

section Selection

variable (log : List ChangeEntry) (maxPullLimit : Option Nat) (request : PullRequest)

theorem nodup_requestedResourceKeys : (requestedResourceKeys request).Nodup :=
  request.cursors.nodup.filter _

theorem streams_changeStreams (limit : Nat) :
    Streams ((changeStreams log request limit).filterMap toHead) := by
  refine streams_filterMap_toHead ?_ ?_ ?_
  · unfold changeStreams
    simpa [Function.comp_def] using nodup_requestedResourceKeys request
  · intro stream hstream c hc
    obtain ⟨resource, -, rfl⟩ := mem_map.mp hstream
    exact (of_mem_getChangesSince hc).2.1
  · refine forall_mem_map.mpr fun resource _ => ?_
    exact getChangesSince_pairwise

variable {resource : String}

theorem get_pageCursors (actor : Option ActorView) (merged : MergedStreams)
    (h : resource ≠ actorFeedCursorKey) :
    (pageCursors actor request merged).get resource =
      (merged.latestCursorPerResource.get resource).or (request.cursors.get resource) := by
  unfold pageCursors
  rw [OMap.get_setAll]
  cases actor with
  | none => rfl
  | some view =>
    by_cases hseq : 0 < view.latestFeedSeq
    · simp [hseq, OMap.get_set, h]
    · simp [hseq]

theorem ofResource_flatMap {keys : List String} (hkeys : keys.Nodup)
    {stream : String → List ChangeEntry} (hown : ∀ r, ∀ c ∈ stream r, c.resource = r)
    (resource : String) :
    ofResource resource (keys.flatMap stream) = if resource ∈ keys then stream resource else [] := by
  have hall : ofResource resource (stream resource) = stream resource :=
    filter_eq_self.mpr fun c hc => decide_eq_true (hown resource c hc)
  induction keys with
  | nil => rfl
  | cons key keys ih =>
    have hcons := nodup_cons.mp hkeys
    have hrest := ih hcons.2
    unfold ofResource at hrest hall ⊢
    rw [flatMap_cons, filter_append, hrest]
    by_cases hkey : resource = key
    · subst hkey
      rw [hall, if_neg hcons.1, if_pos mem_cons_self, append_nil]
    have hnone : (stream key).filter (fun c => decide (c.resource = resource)) = [] := by
      refine filter_eq_nil_iff.mpr fun c hc => ?_
      rw [hown key c hc]
      simpa using fun heq => hkey heq.symm
    rw [hnone, nil_append]
    simp [hkey]

theorem selectPage_split (hresource : resource ∈ requestedResourceKeys request) :
    ∃ rest, orderBySeq (log.filter fun c => c.resource = resource ∧
        (request.cursors.get resource).getD 0 < c.serverSeq) =
        ofResource resource (selectPage log maxPullLimit request).merged ++ rest ∧
      ((selectPage log maxPullLimit request).hasMore = false → rest = []) := by
  set limit := pageLimit maxPullLimit request with hlimit
  set since := orderBySeq (log.filter fun c => c.resource = resource ∧
    (request.cursors.get resource).getD 0 < c.serverSeq) with hsince
  set heads := (changeStreams log request limit).filterMap toHead with hheads
  have hstreams : Streams heads := streams_changeStreams log request limit
  have hstream : ofResource resource (pending heads) = since.take (limit + 1) := by
    rw [hheads, pending_filterMap_toHead, changeStreams, flatMap_map,
      ofResource_flatMap (nodup_requestedResourceKeys request)
        (fun r c hc => (of_mem_getChangesSince hc).2.1), if_pos hresource]
    rfl
  have hsplit := hstreams.ofResource_selectChanges limit resource
  rw [hstream] at hsplit
  refine ⟨ofResource resource (pending (selectChanges limit heads).2) ++ since.drop (limit + 1),
    ?_, fun hmore => ?_⟩
  · show since = ofResource resource (selectChanges limit heads).1 ++ _
    rw [← append_assoc, hsplit, take_append_drop]
  have hleft : (selectChanges limit heads).2 = [] := by
    have hempty : (!(selectChanges limit heads).2.isEmpty) = false := hmore
    simpa using hempty
  rw [hleft] at hsplit ⊢
  have htaken : (since.take (limit + 1)).length ≤ limit := by
    rw [← hsplit]
    have hselected := (length_selectChanges limit heads).1
    have hfilter := length_filter_le
      (fun c : ChangeEntry => decide (c.resource = resource)) (selectChanges limit heads).1
    simp only [ofResource, pending, flatMap_nil, filter_nil, append_nil]
    omega
  rw [length_take] at htaken
  have hshort : since.length ≤ limit + 1 := by omega
  rw [drop_eq_nil_of_le hshort]
  rfl

theorem selectPage_pairwise :
    (selectPage log maxPullLimit request).merged.Pairwise fun a b => a.serverSeq ≤ b.serverSeq :=
  (streams_changeStreams log request _).selectChanges_pairwise _

end Selection

end SuperFunctions.Datafn.Server.Pull
